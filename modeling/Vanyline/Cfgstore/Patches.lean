import Vanyline.Cfgstore.Formats

/-!
# Patches of toolsets, agents and skills

The file store and the store in memory read the fields of a patch with the same code, one
after the other.  `patchToolset`, `patchAgent` and `patchSkill` are what one field does, and
what is an error.  A field that they do not know changes nothing.
-/

namespace Vanyline.Cfgstore

open Vanyline.Lib

/-! ## Values of a patch -/

def validation (ctx : String) (problem : String) : CfgStoreError :=
  .validation (ctx.toList ++ problem.toList)

def patchStr (v : Json) (ctx : String) : Except CfgStoreError Text :=
  match v with
  | .str s => .ok s
  | _ => .error (validation ctx " must be a string")

def patchNames (arr : List Json) (ctx : String) : Except CfgStoreError (List Text) :=
  arr.mapM fun x => match x with
    | .str s => .ok s
    | _ => .error (validation ctx " entries must be strings")

def patchArrayNames (v : Json) (ctx : String) : Except CfgStoreError (List Text) :=
  match v with
  | .arr items => patchNames items ctx
  | _ => .error (validation ctx " must be an array")

/-- A string, or `null` for none. -/
def patchOption (v : Json) (ctx : String) : Except CfgStoreError (Option Text) :=
  if isNull v then .ok none else do return some (← patchStr v ctx)

/-- Strings, or `null` for an empty list. -/
def patchList (v : Json) (ctx : String) : Except CfgStoreError (List Text) :=
  if isNull v then .ok [] else patchArrayNames v ctx

/-! ## Toolsets -/

def patchMcpTools : Option Json → Except CfgStoreError (List Text)
  | none | some .null => .ok []
  | some (.arr items) => patchNames items "toolset: 'mcp' entry tools"
  | some _ => .error (validation "toolset: 'mcp' entry 'tools'" " must be an array")

def patchMcpEntry (item : Json) : Except CfgStoreError McpSelection :=
  match item.get "server" with
  | some (.str server) => do return { server, tools := ← patchMcpTools (item.get "tools") }
  | _ => .error (validation "toolset: 'mcp' entry" " must have a string 'server'")

def patchMcp (v : Json) : Except CfgStoreError (List McpSelection) :=
  match v with
  | .null => .ok []
  | .arr items => items.mapM patchMcpEntry
  | _ => .error (validation "toolset: 'mcp'" " must be an array")

def patchToolset (t : Toolset) (field : Text × Json) : Except CfgStoreError Toolset :=
  if field.1 = "description".toList then do
    return { t with description := ← patchOption field.2 "toolset: 'description'" }
  else if field.1 = "prompt".toList then do
    return { t with prompt := ← patchOption field.2 "toolset: 'prompt'" }
  else if field.1 = "local_tools".toList then do
    return { t with localTools := ← patchList field.2 "toolset: 'local_tools'" }
  else if field.1 = "mcp".toList then do
    return { t with mcp := ← patchMcp field.2 }
  else .ok t

/-! ## Agents -/

def patchMode (v : Json) : Except CfgStoreError AgentMode := do
  let m ← patchStr v "agent: 'mode'"
  if m = "primary".toList then return .primary
  else if m = "subagent".toList then return .subagent
  else if m = "all".toList then return .all
  else .error (.validation ("agent: unknown mode '".toList ++ m ++ "'".toList))

def patchSkills (v : Json) : Except CfgStoreError SkillSelection :=
  match v with
  | .null => .ok .auto
  | .str s =>
    if s = "auto".toList then .ok .auto
    else if s = "none".toList then .ok .none
    else .error (validation "agent: 'skills'" " must be 'auto', 'none' or an array")
  | .arr items => do return .named (← patchNames items "agent: 'skills'")
  | _ => .error (validation "agent: 'skills'" " must be 'auto', 'none' or an array")

def patchAgent (a : Agent) (field : Text × Json) : Except CfgStoreError Agent :=
  if field.1 = "description".toList then do
    return { a with description := ← patchOption field.2 "agent: 'description'" }
  else if field.1 = "mode".toList then do
    return { a with mode := ← patchMode field.2 }
  else if field.1 = "model".toList then do
    return { a with model := ← patchStr field.2 "agent: 'model'" }
  else if field.1 = "toolsets".toList then do
    return { a with toolsets := ← patchList field.2 "agent: 'toolsets'" }
  else if field.1 = "skills".toList then do
    return { a with skills := ← patchSkills field.2 }
  else if field.1 = "system_prompt".toList then do
    return { a with systemPrompt := ← patchStr field.2 "agent: 'system_prompt'" }
  else .ok a

/-! ## Skills -/

/-- A skill with its body. -/
structure Skill where
  info : SkillMeta
  body : Text
  deriving DecidableEq

def patchSkill (s : Skill) (field : Text × Json) : Except CfgStoreError Skill :=
  if field.1 = "description".toList then do
    return { s with info.description := ← patchStr field.2 "skill: 'description'" }
  else if field.1 = "body".toList then do
    return { s with body := ← patchStr field.2 "skill: 'body'" }
  else .ok s

end Vanyline.Cfgstore
