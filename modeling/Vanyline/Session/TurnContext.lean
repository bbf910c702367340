import Vanyline.Cfgstore.Store

/-!
# The context of a turn

Before a turn begins, `resolveTurnContext` follows the references from an agent to its model, the
provider of the model and the toolsets.  The turn then connects the MCP servers that its toolsets
select, and gives the agent the tools `skill` and `task`.

* The lookups of the MCP servers are those of `mcpConnections`; what the network answers is not
  modelled.
* `skillCall` is a call of the tool `skill`, and `taskCall` one of the tool `task` up to the
  nested turn.
* `exists_failed` says which lookup has failed when there is no turn, `resolved` what was found
  when there is one.
-/

namespace Vanyline.Session

open Vanyline.Cfgstore hiding CfgStoreError
open Vanyline.Cfgstore.Store
open Vanyline.Lib.TextLines (trim)

/-! ## Errors -/

inductive VnyError
  | configError (message : Text)
  | duplicateName (kind name : Text)
  | unknownReference (kind name : Text)
  deriving DecidableEq

/-- `From<CfgStoreError>`: most errors become one of the configuration, with their text. -/
def VnyError.ofCfgStore : CfgStoreError → VnyError
  | .config message => .configError message
  | .duplicateName kind name => .duplicateName kind name
  | .unknownReference kind name => .unknownReference kind name
  | other => .configError other.text

/-! ## The system prompt -/

def resolveSkillIndex : SkillSelection → List SkillMeta → List SkillMeta
  | .none, _ => []
  | .auto, allSkills => allSkills
  | .named names, allSkills => allSkills.filter fun skill => names.contains skill.name

/-- The parts of a prompt, without those that are empty. -/
def joinSections (separator : Text) (sections : List Text) : Text :=
  separator.intercalate (sections.filter fun text => !text.isEmpty)

def assembleSystemPrompt (agent : Agent) (allToolsets : List Toolset) (allSkills : List SkillMeta)
    (workspaceContext : Option Text) : Text :=
  let prompts := agent.toolsets.map fun name =>
    trim (((allToolsets.find? fun t => t.name == name).bind Toolset.prompt).getD [])
  let skills := (resolveSkillIndex agent.skills allSkills).map fun s =>
    "- ".toList ++ s.name ++ " : ".toList ++ s.description
  joinSections "\n\n".toList [trim agent.systemPrompt, joinSections "\n\n".toList prompts,
    "\n".toList.intercalate skills, trim (workspaceContext.getD [])]

/-! ## The references of an agent -/

structure ResolvedTurn where
  profile : ModelProfile
  provider : Provider
  resolvedToolsets : List Toolset
  systemPrompt : Text
  skillIndex : List SkillMeta

/-- What the store answers, with the error that a turn has. -/
def ask {α : Type} (answer : Except CfgStoreError α) : Except VnyError α :=
  answer.mapError .ofCfgStore

def resolveToolsets (store : ConfigStore) : List Text → Except VnyError (List Toolset)
  | [] => return []
  | name :: rest => do
    let toolset ← ask (store.getToolset name)
    return toolset :: (← resolveToolsets store rest)

def resolveTurnContext (store : ConfigStore) (modelOverride : Option Text) (agentName : Text)
    (workspaceContext : Option Text) : Except VnyError ResolvedTurn := do
  let agent ← ask (store.getAgent agentName)
  let profile ← ask (store.getModel (modelOverride.getD agent.model))
  let provider ← ask (store.getProvider profile.provider)
  let resolvedToolsets ← resolveToolsets store agent.toolsets
  let allSkills ← ask store.listSkills
  return {
    profile
    provider
    resolvedToolsets
    systemPrompt := assembleSystemPrompt agent resolvedToolsets allSkills workspaceContext
    skillIndex := resolveSkillIndex agent.skills allSkills }

/-! ## The MCP servers of a turn -/

/-- The selections of servers that are not connected yet, and what is connected with them. -/
def dedupeMcpSelections : List McpSelection → List Text → List McpSelection × List Text
  | [], connected => ([], connected)
  | sel :: rest, connected =>
    if connected.contains sel.server then dedupeMcpSelections rest connected
    else
      let (kept, connected) := dedupeMcpSelections rest (sel.server :: connected)
      (sel :: kept, connected)

/-- What is connected for a toolset.  A server that is not found is a warning in the log. -/
structure McpConnection where
  selections : List McpSelection
  validatedServers : List McpServer
  warnings : List CfgStoreError

def validateServers (store : ConfigStore) (selections : List McpSelection) : McpConnection where
  selections
  validatedServers := selections.filterMap fun sel => (store.getMcpServer sel.server).toOption
  warnings := selections.filterMap fun sel =>
    match store.getMcpServer sel.server with
    | .ok _ => none
    | .error e => some e

/-- The toolsets of a turn one after the other.  The servers that the host forces upon the turn
are `connected` before them. -/
def mcpConnections (store : ConfigStore) : List Toolset → List Text → List McpConnection
  | [], _ => []
  | toolset :: rest, connected =>
    let (selections, connected) := dedupeMcpSelections toolset.mcp connected
    validateServers store selections :: mcpConnections store rest connected

/-! ## The tools `skill` and `task` -/

inductive ToolError
  | vny (e : VnyError)
  | cfg (e : CfgStoreError)
  | subagent (message : Text)

def skillCall (store : ConfigStore) (available : List SkillMeta) (name : Text) :
    Except ToolError Text :=
  if available.any fun skill => skill.name == name then (store.loadSkill name).mapError .cfg
  else .error (.vny (.unknownReference "skill".toList name))

def availableSubagents (allAgents : List Agent) : List Agent :=
  allAgents.filter fun agent => decide (agent.mode ≠ .primary)

/-- The nested turn has the override of the outer one, and no context of a workspace. -/
def taskCall (store : ConfigStore) (modelOverride : Option Text) (currentDepth depthMax : UInt8)
    (agentName : Text) : Except ToolError ResolvedTurn :=
  if depthMax ≤ currentDepth then
    .error (.subagent ("subagent depth limit (".toList ++ (toString depthMax.toNat).toList ++
      ") reached, cannot delegate further".toList))
  else do
    let target ← (store.getAgent agentName).mapError .cfg
    if target.mode = .primary then
      .error (.subagent ("agent ".toList ++ quoted agentName ++
        " is a primary agent and cannot be invoked as a subagent".toList))
    else (resolveTurnContext store modelOverride agentName none).mapError .vny

/-! ## Lookups -/

theorem ask_eq_ok {α : Type} {answer : Except CfgStoreError α} {a : α} :
    ask answer = .ok a ↔ answer = .ok a := by
  cases answer with
  | error e =>
    constructor
    · intro h
      cases h
    · intro h
      cases h
  | ok b =>
    constructor
    · intro h
      cases h
      rfl
    · intro h
      cases h
      rfl

theorem exists_of_ask_eq_error {α : Type} {answer : Except CfgStoreError α} {e : VnyError}
    (h : ask answer = .error e) : ∃ c, answer = .error c ∧ e = .ofCfgStore c := by
  cases answer with
  | error c =>
    cases h
    exact ⟨c, rfl, rfl⟩
  | ok a => cases h

/-- A step that fails, or one that is followed by a failure. -/
theorem bind_eq_error {ε α β : Type} {x : Except ε α} {f : α → Except ε β} {e : ε}
    (h : x >>= f = .error e) : x = .error e ∨ ∃ a, x = .ok a ∧ f a = .error e := by
  cases x with
  | error e' =>
    cases h
    exact .inl rfl
  | ok a => exact .inr ⟨a, rfl, h⟩

theorem resolveToolsets_eq_ok {store : ConfigStore} {names : List Text} {toolsets : List Toolset}
    (h : resolveToolsets store names = .ok toolsets) :
    toolsets.map Toolset.name = names ∧
      ∀ toolset ∈ toolsets, store.getToolset toolset.name = .ok toolset := by
  induction names generalizing toolsets with
  | nil =>
    cases h
    exact ⟨rfl, fun toolset htoolset => absurd htoolset List.not_mem_nil⟩
  | cons name rest ih =>
    rcases bind_eq_ok.1 h with ⟨first, hfirst, hrest⟩
    rcases bind_eq_ok.1 hrest with ⟨more, hmore, htoolsets⟩
    cases htoolsets
    rw [ask_eq_ok] at hfirst
    rcases getByName_eq_ok.1 hfirst with ⟨items, -, hfound⟩
    have hname : first.name = name := (name_of_resolveByName hfound).2
    rcases ih hmore with ⟨hnames, hget⟩
    constructor
    · rw [List.map_cons, hname, hnames]
    · intro toolset htoolset
      rcases List.mem_cons.1 htoolset with rfl | htoolset
      · rw [hname]
        exact hfirst
      · exact hget toolset htoolset

theorem resolveToolsets_eq_error {store : ConfigStore} {names : List Text} {e : VnyError}
    (h : resolveToolsets store names = .error e) :
    ∃ name ∈ names, ∃ c, store.getToolset name = .error c ∧ e = .ofCfgStore c := by
  induction names with
  | nil => cases h
  | cons name rest ih =>
    rcases bind_eq_error h with hfirst | ⟨first, -, hrest⟩
    · exact ⟨name, List.mem_cons_self, exists_of_ask_eq_error hfirst⟩
    · rcases bind_eq_error hrest with hmore | ⟨more, -, hdone⟩
      · rcases ih hmore with ⟨other, hother, hget⟩
        exact ⟨other, List.mem_cons_of_mem _ hother, hget⟩
      · cases hdone

/-- A lookup of the turn of an agent that has failed. -/
inductive Failed (store : ConfigStore) (agentName : Text) : CfgStoreError → Prop
  | agent {c} (h : store.getAgent agentName = .error c) : Failed store agentName c
  | model {a c} (ha : store.getAgent agentName = .ok a) (h : store.getModel a.model = .error c) :
      Failed store agentName c
  | provider {a profile c} (ha : store.getAgent agentName = .ok a)
      (hprofile : store.getModel a.model = .ok profile)
      (h : store.getProvider profile.provider = .error c) : Failed store agentName c
  | toolset {a name c} (ha : store.getAgent agentName = .ok a) (hname : name ∈ a.toolsets)
      (h : store.getToolset name = .error c) : Failed store agentName c
  | skills {c} (h : store.listSkills = .error c) : Failed store agentName c

/-- Without an override, a turn that cannot begin has an error of one of its lookups. -/
theorem exists_failed {store : ConfigStore} {agentName : Text} {workspaceContext : Option Text}
    {e : VnyError} (h : resolveTurnContext store none agentName workspaceContext = .error e) :
    ∃ c, e = .ofCfgStore c ∧ Failed store agentName c := by
  rcases bind_eq_error h with hagent | ⟨agent, hagent, h⟩
  · rcases exists_of_ask_eq_error hagent with ⟨c, hc, he⟩
    exact ⟨c, he, .agent hc⟩
  rw [ask_eq_ok] at hagent
  rcases bind_eq_error h with hprofile | ⟨profile, hprofile, h⟩
  · rcases exists_of_ask_eq_error hprofile with ⟨c, hc, he⟩
    exact ⟨c, he, .model hagent hc⟩
  rw [ask_eq_ok] at hprofile
  rcases bind_eq_error h with hprovider | ⟨provider, -, h⟩
  · rcases exists_of_ask_eq_error hprovider with ⟨c, hc, he⟩
    exact ⟨c, he, .provider hagent hprofile hc⟩
  rcases bind_eq_error h with htoolsets | ⟨toolsets, -, h⟩
  · rcases resolveToolsets_eq_error htoolsets with ⟨name, hname, c, hc, he⟩
    exact ⟨c, he, .toolset hagent hname hc⟩
  rcases bind_eq_error h with hskills | ⟨skills, -, h⟩
  · rcases exists_of_ask_eq_error hskills with ⟨c, hc, he⟩
    exact ⟨c, he, .skills hc⟩
  cases h

/-- A turn that begins has found its toolsets and the skills of its agent. -/
theorem resolved {store : ConfigStore} {modelOverride workspaceContext : Option Text}
    {agentName : Text} {turn : ResolvedTurn}
    (h : resolveTurnContext store modelOverride agentName workspaceContext = .ok turn) :
    ∃ agent allSkills, store.getAgent agentName = .ok agent ∧ store.listSkills = .ok allSkills ∧
      turn.skillIndex = resolveSkillIndex agent.skills allSkills ∧
      turn.resolvedToolsets.map Toolset.name = agent.toolsets ∧
      ∀ toolset ∈ turn.resolvedToolsets, store.getToolset toolset.name = .ok toolset := by
  rcases bind_eq_ok.1 h with ⟨agent, hagent, h⟩
  rcases bind_eq_ok.1 h with ⟨profile, -, h⟩
  rcases bind_eq_ok.1 h with ⟨provider, -, h⟩
  rcases bind_eq_ok.1 h with ⟨toolsets, htoolsets, h⟩
  rcases bind_eq_ok.1 h with ⟨skills, hskills, h⟩
  cases h
  exact ⟨agent, skills, ask_eq_ok.1 hagent, ask_eq_ok.1 hskills, rfl,
    resolveToolsets_eq_ok htoolsets⟩

/-! ## Servers and skills -/

/-- Every selection that is kept is one of the toolset. -/
theorem mem_of_mem_dedupe {sel : McpSelection} {selections : List McpSelection}
    {connected : List Text} (h : sel ∈ (dedupeMcpSelections selections connected).1) :
    sel ∈ selections := by
  induction selections generalizing connected with
  | nil => exact h
  | cons first rest ih =>
    unfold dedupeMcpSelections at h
    split_ifs at h with hconnected
    · exact List.mem_cons_of_mem _ (ih h)
    · rcases List.mem_cons.1 h with rfl | h
      · exact List.mem_cons_self
      · exact List.mem_cons_of_mem _ (ih h)

/-- Selections of servers that are found give a server each, and no warning. -/
theorem validateServers_found {store : ConfigStore} {selections : List McpSelection}
    (h : ∀ sel ∈ selections, ∃ server, store.getMcpServer sel.server = .ok server) :
    (validateServers store selections).warnings = [] ∧
      (validateServers store selections).validatedServers.map McpServer.name =
        selections.map McpSelection.server := by
  induction selections with
  | nil => exact ⟨rfl, rfl⟩
  | cons sel rest ih =>
    rcases h sel List.mem_cons_self with ⟨server, hserver⟩
    rcases ih fun other hother => h other (List.mem_cons_of_mem _ hother) with
      ⟨hwarnings, hservers⟩
    rcases getByName_eq_ok.1 hserver with ⟨servers, -, hfound⟩
    have hname : server.name = sel.server := (name_of_resolveByName hfound).2
    simp only [validateServers] at hwarnings hservers ⊢
    rw [List.filterMap_cons, List.filterMap_cons, hserver, hwarnings]
    refine ⟨rfl, ?_⟩
    show server.name :: _ = sel.server :: _
    rw [hname, hservers]

/-- When every selected server is found there is no warning, and a server for each selection. -/
theorem mcpConnections_found {store : ConfigStore} {toolsets : List Toolset}
    (h : ∀ toolset ∈ toolsets, ∀ sel ∈ toolset.mcp, ∃ server,
      store.getMcpServer sel.server = .ok server) (connected : List Text) :
    ∀ connection ∈ mcpConnections store toolsets connected, connection.warnings = [] ∧
      connection.validatedServers.map McpServer.name =
        connection.selections.map McpSelection.server := by
  induction toolsets generalizing connected with
  | nil =>
    intro connection hconnection
    cases hconnection
  | cons toolset rest ih =>
    intro connection hconnection
    rcases List.mem_cons.1 hconnection with rfl | hconnection
    · exact validateServers_found fun sel hsel =>
        h toolset List.mem_cons_self sel (mem_of_mem_dedupe hsel)
    · exact ih (fun other hother => h other (List.mem_cons_of_mem _ hother)) _ connection
        hconnection

/-- The tool `skill` loads what is in its index. -/
theorem skillCall_of_mem {store : ConfigStore} {available : List SkillMeta} {skill : SkillMeta}
    (h : skill ∈ available) :
    skillCall store available skill.name = (store.loadSkill skill.name).mapError .cfg := by
  have hany : (available.any fun other => other.name == skill.name) = true :=
    List.any_eq_true.2 ⟨skill, h, beq_self_eq_true _⟩
  unfold skillCall
  rw [if_pos hany]

end Vanyline.Session
