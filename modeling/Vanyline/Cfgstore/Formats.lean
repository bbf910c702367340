import Vanyline.Cfgstore.FsStore
import Vanyline.Lib.SortedMap
import Vanyline.Lib.TextLines

/-!
# The files of agents, skills and toolsets

An agent and a skill are Markdown files with a front matter between two lines `---`; a toolset
is a YAML file.

* `splitFrontmatter` divides a file into lines, looks for the two delimiters and joins the
  lines between them, and those behind the second one.
* `agentToMd`, `skillToMd` and `toolsetToYamlJson` are the written forms, `parseAgentFile`,
  `parseSkillFile`, `skillBody` and `parseToolsetFile` what is read.
* `FileSerde` has what the YAML library and the derived implementations do.
* `splitFrontmatter_written` says what is read of a file that the store has written.
-/

namespace Vanyline.Cfgstore

open Vanyline.Lib
open Vanyline.Lib.TextLines (lines joinLines trim unlines)

/-! ## Agents, skills and toolsets -/

inductive AgentMode
  | primary
  | subagent
  | all
  deriving DecidableEq

def AgentMode.text : AgentMode → Text
  | .primary => "primary".toList
  | .subagent => "subagent".toList
  | .all => "all".toList

inductive SkillSelection
  | auto
  | none
  | named (names : List Text)
  deriving DecidableEq

def SkillSelection.toJson : SkillSelection → Json
  | .auto => .str "auto".toList
  | .none => .str "none".toList
  | .named names => .arr (names.map .str)

structure Agent where
  name : Text
  description : Option Text
  mode : AgentMode
  model : Text
  toolsets : List Text
  skills : SkillSelection
  systemPrompt : Text
  deriving DecidableEq

structure SkillMeta where
  name : Text
  description : Text
  deriving DecidableEq

structure McpSelection where
  server : Text
  tools : List Text
  deriving DecidableEq

structure Toolset where
  name : Text
  description : Option Text
  prompt : Option Text
  localTools : List Text
  mcp : List McpSelection
  deriving DecidableEq

/-! ## What the YAML library reads -/

structure RawAgentFrontmatter where
  description : Option Text
  mode : AgentMode
  model : Text
  toolsets : List Text
  skills : SkillSelection
  deriving DecidableEq

structure RawSkillFrontmatter where
  description : Text
  deriving DecidableEq

structure RawToolsetFile where
  description : Option Text
  prompt : Option Text
  localTools : List Text
  mcp : SortedMap Text (List Text)

/-- `yaml_serde` for the files beside `config.yaml`. -/
structure FileSerde where
  /-- `yaml_serde::to_string` of a `serde_json::Value`. -/
  toStr : Json → Except Text Text
  /-- `yaml_serde::from_str`, for each of the types. -/
  agent : Text → Except Text RawAgentFrontmatter
  skill : Text → Except Text RawSkillFrontmatter
  toolset : Text → Except Text RawToolsetFile

/-! ## The front matter -/

def delimiter : Text := "---".toList

/-- The lines before the first delimiter, and those behind it. -/
def untilDelimiter : List Text → Option (List Text × List Text)
  | [] => none
  | line :: rest =>
    if line = delimiter then some ([], rest)
    else (untilDelimiter rest).map fun (front, body) => (line :: front, body)

def splitFrontmatter (path content : Text) : Except CfgStoreError (Text × Text) :=
  match lines content with
  | [] => .error (.config (path ++ ": must start with '---' frontmatter delimiter".toList))
  | first :: rest =>
    if first = delimiter then
      match untilDelimiter rest with
      | some (front, body) => .ok (joinLines front, joinLines body)
      | none => .error (.config (path ++ ": missing closing '---' for frontmatter".toList))
    else .error (.config (path ++ ": must start with '---' frontmatter delimiter".toList))

/-- A file with a front matter, which the library ends with a line feed. -/
def withFrontmatter (yaml body : Text) : Text :=
  "---\n".toList ++ yaml ++ "---\n".toList ++ trim body

variable (yaml : FileSerde)

/-- An error of `from_str` on a part of a file. -/
def parseError (path e : Text) : CfgStoreError := .config (path ++ ": ".toList ++ e)

/-! ## Agents -/

def parseAgentFile (name path content : Text) : Except CfgStoreError Agent := do
  let (frontmatter, body) ← splitFrontmatter path content
  let raw ← (yaml.agent frontmatter).mapError (parseError path)
  return {
    name
    description := raw.description
    mode := raw.mode
    model := raw.model
    toolsets := raw.toolsets
    skills := raw.skills
    systemPrompt := trim body }

/-- The front matter of an agent, with its keys in the order of the map. -/
def Agent.front (a : Agent) : Json :=
  .object (optionField "description" (a.description.map .str) ++
    [("mode", .str a.mode.text), ("model", .str a.model), ("skills", a.skills.toJson)] ++
    optionField "toolsets" (if a.toolsets.isEmpty then none else some (.arr (a.toolsets.map .str))))

def agentToMd (a : Agent) : Except CfgStoreError Text := do
  let text ← (yaml.toStr a.front).mapError fun e =>
    .writeError ("agent '".toList ++ a.name ++ "': ".toList ++ e)
  return withFrontmatter text a.systemPrompt

/-! ## Skills -/

def parseSkillFile (name path content : Text) : Except CfgStoreError SkillMeta := do
  let (frontmatter, _) ← splitFrontmatter path content
  let raw ← (yaml.skill frontmatter).mapError (parseError path)
  return { name, description := raw.description }

/-- What `load_skill` makes of a file. -/
def skillBody (path content : Text) : Except CfgStoreError Text := do
  let (_, body) ← splitFrontmatter path content
  return trim body

def SkillMeta.front (s : SkillMeta) : Json :=
  .object [("description", .str s.description), ("name", .str s.name)]

def skillToMd (s : SkillMeta) (body : Text) : Except CfgStoreError Text := do
  let text ← (yaml.toStr s.front).mapError fun e =>
    .writeError ("skill '".toList ++ s.name ++ "': ".toList ++ e)
  return withFrontmatter text body

/-! ## Toolsets -/

def parseToolsetFile (name path content : Text) : Except CfgStoreError Toolset := do
  let raw ← (yaml.toolset content).mapError (parseError path)
  return {
    name
    description := raw.description
    prompt := raw.prompt
    localTools := raw.localTools
    mcp := raw.mcp.entries.map fun (server, tools) => { server, tools } }

/-- The tools of each server; the last selection of a server counts. -/
def mcpMap (mcp : List McpSelection) : SortedMap Text (List Text) :=
  .ofList (mcp.map fun sel => (sel.server, sel.tools))

def toolsetToYamlJson (t : Toolset) : Json :=
  let mcp := Json.obj ((mcpMap t.mcp).entries.map fun entry => (entry.1, .arr (entry.2.map .str)))
  let tools := Json.object (
    optionField "local" (if t.localTools.isEmpty then none
      else some (.arr (t.localTools.map .str))) ++
    optionField "mcp" (if t.mcp.isEmpty then none else some mcp))
  .object (optionField "description" (t.description.map .str) ++
    optionField "prompt" (t.prompt.map .str) ++ [("tools", tools)])

def toolsetText (t : Toolset) : Except CfgStoreError Text :=
  (yaml.toStr (toolsetToYamlJson t)).mapError fun e =>
    .writeError ("toolset '".toList ++ t.name ++ "': ".toList ++ e)

/-! ## What is read of a written file -/

/-- Text of lines that are ended, none of which is a delimiter. -/
structure Printed (text : Text) : Prop where
  lines : ∃ ls, text = unlines ls ∧ ∀ line ∈ ls, '\n' ∉ line
  plain : delimiter ∉ TextLines.lines text

theorem untilDelimiter_append {front body : List Text} (h : delimiter ∉ front) :
    untilDelimiter (front ++ delimiter :: body) = some (front, body) := by
  induction front with
  | nil => exact if_pos rfl
  | cons line front ih =>
    rw [List.mem_cons, not_or] at h
    rw [List.cons_append, untilDelimiter, if_neg (Ne.symm h.1), ih h.2]
    rfl

theorem lines_withFrontmatter {text : Text} (h : Printed text) (body : Text) :
    lines (withFrontmatter text body) =
      delimiter :: (lines text ++ delimiter :: lines (trim body)) := by
  obtain ⟨ls, rfl, hls⟩ := h.lines
  have hlines : ∀ line ∈ [delimiter] ++ ls ++ [delimiter], '\n' ∉ line := by
    intro line hline
    have hdelim : '\n' ∉ delimiter := by decide
    rcases List.mem_append.1 hline with hline | hline
    · rcases List.mem_append.1 hline with hline | hline
      · rw [List.mem_singleton.1 hline]
        exact hdelim
      · exact hls line hline
    · rw [List.mem_singleton.1 hline]
      exact hdelim
  have htext : withFrontmatter (unlines ls) body =
      unlines ([delimiter] ++ ls ++ [delimiter]) ++ trim body := by
    rw [TextLines.unlines_append, TextLines.unlines_append]
    rfl
  have hdelim : TextLines.stripCr delimiter = delimiter := by decide
  rw [htext, TextLines.lines, TextLines.cut_unlines hlines, TextLines.lines_unlines hls,
    List.map_append, List.map_append, List.map_append, List.map_singleton, hdelim]
  simp [TextLines.lines]

/-- The reader gets the lines of the front matter, and those of the trimmed body. -/
theorem splitFrontmatter_written {text : Text} (h : Printed text) (path body : Text) :
    splitFrontmatter path (withFrontmatter text body) =
      .ok (joinLines (lines text), joinLines (lines (trim body))) := by
  rw [splitFrontmatter, lines_withFrontmatter h]
  show (if delimiter = delimiter then _ else _) = _
  rw [if_pos rfl, untilDelimiter_append h.plain]

end Vanyline.Cfgstore
