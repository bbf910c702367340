import Vanyline.Session.TurnContext

/-!
# The check of the configuration

`vanyline config check` reads all lists of the store and collects what is wrong with them: reads
that fail, names that occur more than once, and references to nothing.  It does not stop at the
first problem.

* `checkConfig` is the check, with its problems in the order in which they are shown.
* `reported_of_failed`: when a lookup of the turn of a listed agent fails, the check has a problem
  that reports it (`Reports`).
* `checked_runs`: agents of a configuration without problems can be run.

The check does not load the bodies of skills.
-/

namespace Vanyline.ConfigCheck

open Vanyline.Cfgstore hiding CfgStoreError
open Vanyline.Cfgstore.Store Vanyline.Session

/-! ## Problems -/

/-- A read that fails is a problem. -/
def readProblem {α : Type} : Except CfgStoreError α → List VnyError
  | .ok _ => []
  | .error e => [.ofCfgStore e]

/-- A list that cannot be read is taken to be empty. -/
def listed {α : Type} : Except CfgStoreError (List α) → List α
  | .ok items => items
  | .error _ => []

def duplicatesAfter (kind : Text) : List Text → List Text → List VnyError
  | _, [] => []
  | seen, name :: rest =>
    if seen.contains name then .duplicateName kind name :: duplicatesAfter kind seen rest
    else duplicatesAfter kind (name :: seen) rest

def checkDuplicateNames {α : Type} [HasName α] (items : List α) (kind : Text) : List VnyError :=
  duplicatesAfter kind [] (names items)

def checkReference (kind : Text) (known : List Text) (name note : Text) : List VnyError :=
  if known.contains name then [] else [.unknownReference kind (name ++ note)]

def referencedBy (kind : String) (name : Text) : Text :=
  " (referenced by ".toList ++ kind.toList ++ ' ' :: quoted name ++ ")".toList

def namedSkills : SkillSelection → List Text
  | .named names => names
  | _ => []

def checkModel (providers : List Provider) (m : ModelProfile) : List VnyError :=
  checkReference "provider".toList (names providers) m.provider (referencedBy "model" m.name)

def checkToolset (mcpServers : List McpServer) (t : Toolset) : List VnyError :=
  t.mcp.flatMap fun sel =>
    checkReference "mcp_server".toList (names mcpServers) sel.server
      (referencedBy "toolset" t.name)

def checkAgent (models : List ModelProfile) (toolsets : List Toolset) (skills : List SkillMeta)
    (a : Agent) : List VnyError :=
  checkReference "model".toList (names models) a.model (referencedBy "agent" a.name) ++
    (a.toolsets.flatMap fun name =>
      checkReference "toolset".toList (names toolsets) name (referencedBy "agent" a.name)) ++
    (namedSkills a.skills).flatMap fun name =>
      checkReference "skill".toList (names skills) name (referencedBy "agent" a.name)

def checkDefaultAgent (agents : List Agent) : Except CfgStoreError (Option Text) → List VnyError
  | .ok (some name) =>
    checkReference "agent".toList (names agents) name " (defaults.agent)".toList
  | _ => []

/-! ## The three phases -/

def readProblems (store : ConfigStore) : List VnyError :=
  readProblem store.listProviders ++ readProblem store.listModels ++
    readProblem store.listMcpServers ++ readProblem store.listToolsets ++
    readProblem store.listAgents ++ readProblem store.listSkills ++ readProblem store.defaultAgent

def duplicateProblems (store : ConfigStore) : List VnyError :=
  checkDuplicateNames (listed store.listProviders) "provider".toList ++
    checkDuplicateNames (listed store.listModels) "model".toList ++
    checkDuplicateNames (listed store.listMcpServers) "mcp_server".toList ++
    checkDuplicateNames (listed store.listToolsets) "toolset".toList ++
    checkDuplicateNames (listed store.listAgents) "agent".toList ++
    checkDuplicateNames (listed store.listSkills) "skill".toList

def referenceProblems (store : ConfigStore) : List VnyError :=
  (listed store.listModels).flatMap (checkModel (listed store.listProviders)) ++
    (listed store.listToolsets).flatMap (checkToolset (listed store.listMcpServers)) ++
    (listed store.listAgents).flatMap
      (checkAgent (listed store.listModels) (listed store.listToolsets)
        (listed store.listSkills)) ++
    checkDefaultAgent (listed store.listAgents) store.defaultAgent

def checkConfig (store : ConfigStore) : List VnyError :=
  readProblems store ++ duplicateProblems store ++ referenceProblems store

/-! ## What is found -/

/-- A name that is there twice is a problem. -/
theorem mem_duplicatesAfter {kind name : Text} {seen rest : List Text}
    (h : (name ∈ seen ∧ name ∈ rest) ∨ 2 ≤ rest.count name) :
    .duplicateName kind name ∈ duplicatesAfter kind seen rest := by
  induction rest generalizing seen with
  | nil =>
    rcases h with ⟨-, hmem⟩ | hcount
    · cases hmem
    · rw [List.count_nil] at hcount
      omega
  | cons first rest ih =>
    unfold duplicatesAfter
    by_cases hfirst : first = name
    · subst hfirst
      split_ifs with hseen
      · exact List.mem_cons_self
      · rw [List.contains_iff_mem] at hseen
        rcases h with ⟨hmem, -⟩ | hcount
        · exact absurd hmem hseen
        · rw [List.count_cons_self] at hcount
          exact ih (.inl ⟨List.mem_cons_self, List.count_pos_iff.1 (by omega)⟩)
    · have hrest : (name ∈ seen ∧ name ∈ rest) ∨ 2 ≤ rest.count name := by
        rcases h with ⟨hmem, hrest⟩ | hcount
        · rcases List.mem_cons.1 hrest with heq | hrest
          · exact absurd heq.symm hfirst
          · exact .inl ⟨hmem, hrest⟩
        · rw [List.count_cons_of_ne hfirst] at hcount
          exact .inr hcount
      split_ifs with hseen
      · exact List.mem_cons_of_mem _ (ih hrest)
      · refine ih (hrest.imp_left fun h => ⟨List.mem_cons_of_mem _ h.1, h.2⟩)

theorem mem_checkReference {kind name note : Text} {known : List Text} (h : name ∉ known) :
    .unknownReference kind (name ++ note) ∈ checkReference kind known name note := by
  unfold checkReference
  rw [if_neg (mt List.contains_iff_mem.1 h)]
  exact List.mem_singleton_self _

/-- A problem is what went wrong, or tells the referent of the missing name beside it. -/
inductive Reports : VnyError → VnyError → Prop
  | same (e : VnyError) : Reports e e
  | reference (kind name : Text) (referentKind : String) (referent : Text) :
      Reports (.unknownReference kind (name ++ referencedBy referentKind referent))
        (.unknownReference kind name)

/-- A problem of the check reports the error. -/
def Reported (store : ConfigStore) (e : VnyError) : Prop := ∃ p ∈ checkConfig store, Reports p e

section Lookups

variable {store : ConfigStore}

theorem Reported.of_read {e : VnyError} (h : e ∈ readProblems store) : Reported store e :=
  ⟨e, List.mem_append_left _ (List.mem_append_left _ h), .same e⟩

theorem Reported.of_duplicate {e : VnyError} (h : e ∈ duplicateProblems store) :
    Reported store e :=
  ⟨e, List.mem_append_left _ (List.mem_append_right _ h), .same e⟩

theorem Reported.of_reference {kind name : Text} (referentKind : String) (referent : Text)
    (h : .unknownReference kind (name ++ referencedBy referentKind referent) ∈
      referenceProblems store) : Reported store (.unknownReference kind name) :=
  ⟨_, List.mem_append_right _ h, .reference kind name referentKind referent⟩

/-- A list that the first two phases look at. -/
structure Checked {α : Type} [HasName α] (store : ConfigStore)
    (listing : Except CfgStoreError (List α)) (kind : Text) : Prop where
  read : readProblem listing ⊆ readProblems store
  duplicate : checkDuplicateNames (listed listing) kind ⊆ duplicateProblems store

theorem checked_providers : Checked store store.listProviders "provider".toList := by
  constructor <;> intro p hp <;> simp only [readProblems, duplicateProblems, List.mem_append] <;>
    tauto

theorem checked_models : Checked store store.listModels "model".toList := by
  constructor <;> intro p hp <;> simp only [readProblems, duplicateProblems, List.mem_append] <;>
    tauto

theorem checked_mcpServers : Checked store store.listMcpServers "mcp_server".toList := by
  constructor <;> intro p hp <;> simp only [readProblems, duplicateProblems, List.mem_append] <;>
    tauto

theorem checked_toolsets : Checked store store.listToolsets "toolset".toList := by
  constructor <;> intro p hp <;> simp only [readProblems, duplicateProblems, List.mem_append] <;>
    tauto

theorem checked_agents : Checked store store.listAgents "agent".toList := by
  constructor <;> intro p hp <;> simp only [readProblems, duplicateProblems, List.mem_append] <;>
    tauto

/-- A lookup by name fails because of the read, because there is no such name, or because there
are two. -/
theorem reported_of_getByName {α : Type} [HasName α] {listing : Except CfgStoreError (List α)}
    {kind name : Text} {c : CfgStoreError} (hchecked : Checked store listing kind)
    (h : getByName listing kind name = .error c)
    (hmissing : name ∉ names (listed listing) →
      Reported store (.unknownReference kind name)) : Reported store (.ofCfgStore c) := by
  rcases getByName_eq_error h with hlisting | ⟨items, hlisting, hitems⟩
  · have hread := hchecked.read
    rw [hlisting] at hread
    exact .of_read (hread List.mem_cons_self)
  · have hduplicate := hchecked.duplicate
    rw [hlisting] at hduplicate hmissing
    rcases resolveByName_eq_error hitems with ⟨habsent, rfl⟩ | ⟨htwice, rfl⟩
    · exact hmissing habsent
    · exact .of_duplicate (hduplicate (mem_duplicatesAfter (.inr htwice)))

/-! ## The lookups of a turn -/

theorem reported_getAgent {a : Agent} (ha : a ∈ listed store.listAgents) {c : CfgStoreError}
    (h : store.getAgent a.name = .error c) : Reported store (.ofCfgStore c) := by
  apply reported_of_getByName checked_agents h
  intro hmissing
  exact absurd (List.mem_map_of_mem ha) hmissing

theorem reported_getModel {a : Agent} (ha : a ∈ listed store.listAgents) {c : CfgStoreError}
    (h : store.getModel a.model = .error c) : Reported store (.ofCfgStore c) := by
  apply reported_of_getByName checked_models h
  intro hmissing
  apply Reported.of_reference "agent" a.name
  refine List.mem_append_left _ (List.mem_append_right _ (List.mem_flatMap.2 ⟨a, ha, ?_⟩))
  exact List.mem_append_left _ (List.mem_append_left _ (mem_checkReference hmissing))

theorem reported_getProvider {m : ModelProfile} (hm : m ∈ listed store.listModels)
    {c : CfgStoreError} (h : store.getProvider m.provider = .error c) :
    Reported store (.ofCfgStore c) := by
  apply reported_of_getByName checked_providers h
  intro hmissing
  apply Reported.of_reference "model" m.name
  refine List.mem_append_left _ (List.mem_append_left _ (List.mem_append_left _ ?_))
  exact List.mem_flatMap.2 ⟨m, hm, mem_checkReference hmissing⟩

theorem reported_getToolset {a : Agent} (ha : a ∈ listed store.listAgents) {name : Text}
    (hname : name ∈ a.toolsets) {c : CfgStoreError} (h : store.getToolset name = .error c) :
    Reported store (.ofCfgStore c) := by
  apply reported_of_getByName checked_toolsets h
  intro hmissing
  apply Reported.of_reference "agent" a.name
  refine List.mem_append_left _ (List.mem_append_right _ (List.mem_flatMap.2 ⟨a, ha, ?_⟩))
  refine List.mem_append_left _ (List.mem_append_right _ ?_)
  exact List.mem_flatMap.2 ⟨name, hname, mem_checkReference hmissing⟩

theorem reported_getMcpServer {t : Toolset} (ht : t ∈ listed store.listToolsets)
    {sel : McpSelection} (hsel : sel ∈ t.mcp) {c : CfgStoreError}
    (h : store.getMcpServer sel.server = .error c) : Reported store (.ofCfgStore c) := by
  apply reported_of_getByName checked_mcpServers h
  intro hmissing
  apply Reported.of_reference "toolset" t.name
  refine List.mem_append_left _ (List.mem_append_left _ (List.mem_append_right _ ?_))
  refine List.mem_flatMap.2 ⟨t, ht, ?_⟩
  exact List.mem_flatMap.2 ⟨sel, hsel, mem_checkReference hmissing⟩

theorem mem_listed {α : Type} [HasName α] {listing : Except CfgStoreError (List α)}
    {kind name : Text} {item : α} (h : getByName listing kind name = .ok item) :
    item ∈ listed listing ∧ HasName.name item = name := by
  rcases getByName_eq_ok.1 h with ⟨items, hitems, hfound⟩
  rw [hitems]
  exact name_of_resolveByName hfound

theorem mem_of_listAgents {agents : List Agent} (h : store.listAgents = .ok agents) {a : Agent}
    (ha : a ∈ agents) : a ∈ listed store.listAgents := by
  rw [h]
  exact ha

/-- Every lookup that a turn makes for a listed agent follows a reference that was checked. -/
theorem reported_of_failed {a : Agent} (ha : a ∈ listed store.listAgents) {c : CfgStoreError}
    (h : Failed store a.name c) : Reported store (.ofCfgStore c) := by
  cases h with
  | agent h => exact reported_getAgent ha h
  | model hagent h => exact reported_getModel (mem_listed hagent).1 h
  | provider _ hprofile h => exact reported_getProvider (mem_listed hprofile).1 h
  | toolset hagent hname h => exact reported_getToolset (mem_listed hagent).1 hname h
  | skills h =>
    apply Reported.of_read
    have hskills : VnyError.ofCfgStore c ∈ readProblem store.listSkills := by
      rw [h]
      exact List.mem_cons_self
    exact List.mem_append_left _ (List.mem_append_right _ hskills)

theorem not_reported (h : checkConfig store = []) (e : VnyError) : ¬ Reported store e := by
  intro hreported
  rcases hreported with ⟨p, hp, -⟩
  rw [h] at hp
  cases hp

end Lookups

/-! ## Configurations without problems -/

/-- What a turn of the agent finds: its toolsets, a server for each of their selections, and its
skills, which the tool `skill` loads if the store has their bodies. -/
structure Ready (store : ConfigStore) (a : Agent) (turn : ResolvedTurn) : Prop where
  toolsets : turn.resolvedToolsets.map Toolset.name = a.toolsets
  servers : ∀ toolset ∈ turn.resolvedToolsets, ∀ sel ∈ toolset.mcp, ∃ server,
    store.getMcpServer sel.server = .ok server
  connections : ∀ connected, ∀ connection ∈ mcpConnections store turn.resolvedToolsets connected,
    connection.warnings = [] ∧ connection.validatedServers.map McpServer.name =
      connection.selections.map McpSelection.server
  skills : ∀ name ∈ namedSkills a.skills, skillCall store turn.skillIndex name =
    (store.loadSkill name).mapError .cfg

/-- The agent can be run, by itself and as a subagent. -/
structure Runs (store : ConfigStore) (a : Agent) : Prop where
  primary : ∀ workspaceContext, ∃ turn,
    resolveTurnContext store none a.name workspaceContext = .ok turn ∧ Ready store a turn
  subagent : a.mode ≠ .primary → ∀ currentDepth depthMax, currentDepth < depthMax → ∃ turn,
    taskCall store none currentDepth depthMax a.name = .ok turn ∧ Ready store a turn

section Checked

variable {store : ConfigStore}

/-- A named skill that is listed is in the index. -/
theorem mem_skillIndex {selection : SkillSelection} {allSkills : List SkillMeta}
    {name : Text} (hname : name ∈ namedSkills selection) (hlisted : name ∈ names allSkills) :
    ∃ skill ∈ resolveSkillIndex selection allSkills, skill.name = name := by
  cases selection with
  | auto => cases hname
  | none => cases hname
  | named selected =>
    rcases List.mem_map.1 hlisted with ⟨skill, hskill, rfl⟩
    exact ⟨skill, List.mem_filter.2 ⟨hskill, List.contains_iff_mem.2 hname⟩, rfl⟩

/-- A listed agent that is found is the one that was listed. -/
theorem eq_of_getAgent {agents : List Agent} (hagents : store.listAgents = .ok agents) {a : Agent}
    (ha : a ∈ agents) {agent : Agent} (h : store.getAgent a.name = .ok agent) : a = agent := by
  rcases getByName_eq_ok.1 h with ⟨items, hitems, hfound⟩
  rw [hagents] at hitems
  cases hitems
  exact eq_of_resolveByName hfound ha rfl

theorem ready_of_checked (hcheck : checkConfig store = []) {agents : List Agent}
    (hagents : store.listAgents = .ok agents) {a : Agent} (ha : a ∈ agents)
    {workspaceContext : Option Text} {turn : ResolvedTurn}
    (h : resolveTurnContext store none a.name workspaceContext = .ok turn) :
    Ready store a turn := by
  rcases resolved h with ⟨agent, allSkills, hagent, hskills, hindex, htoolsets, hget⟩
  have heq := eq_of_getAgent hagents ha hagent
  subst heq
  have hservers : ∀ toolset ∈ turn.resolvedToolsets, ∀ sel ∈ toolset.mcp, ∃ server,
      store.getMcpServer sel.server = .ok server := by
    intro toolset htoolset sel hsel
    cases hserver : store.getMcpServer sel.server with
    | ok server => exact ⟨server, rfl⟩
    | error c =>
      have hmem := (mem_listed (hget toolset htoolset)).1
      exact absurd (reported_getMcpServer hmem hsel hserver) (not_reported hcheck _)
  refine ⟨htoolsets, hservers, mcpConnections_found hservers, ?_⟩
  intro name hname
  have hlisted : name ∈ names allSkills := by
    by_contra hmissing
    refine not_reported hcheck (.unknownReference "skill".toList name) ?_
    apply Reported.of_reference "agent" a.name
    refine List.mem_append_left _ (List.mem_append_right _ ?_)
    refine List.mem_flatMap.2 ⟨a, mem_of_listAgents hagents ha, List.mem_append_right _ ?_⟩
    refine List.mem_flatMap.2 ⟨name, hname, mem_checkReference ?_⟩
    rw [hskills]
    exact hmissing
  rcases mem_skillIndex hname hlisted with ⟨skill, hskill, rfl⟩
  rw [hindex]
  exact skillCall_of_mem hskill

theorem runs_of_checked (hcheck : checkConfig store = []) {agents : List Agent}
    (hagents : store.listAgents = .ok agents) {a : Agent} (ha : a ∈ agents) : Runs store a := by
  have hturn : ∀ workspaceContext, ∃ turn,
      resolveTurnContext store none a.name workspaceContext = .ok turn ∧ Ready store a turn := by
    intro workspaceContext
    cases h : resolveTurnContext store none a.name workspaceContext with
    | ok turn => exact ⟨turn, rfl, ready_of_checked hcheck hagents ha h⟩
    | error e =>
      rcases exists_failed h with ⟨c, rfl, hfailed⟩
      have hreported := reported_of_failed (mem_of_listAgents hagents ha) hfailed
      exact absurd hreported (not_reported hcheck _)
  refine ⟨hturn, ?_⟩
  intro hmode currentDepth depthMax hdepth
  rcases hturn none with ⟨turn, hresolved, hready⟩
  refine ⟨turn, ?_, hready⟩
  rcases resolved hresolved with ⟨agent, -, hagent, -⟩
  have heq := eq_of_getAgent hagents ha hagent
  subst heq
  unfold taskCall
  rw [if_neg (UInt8.not_le.2 hdepth), hagent]
  show (if a.mode = .primary then _ else _) = _
  rw [if_neg hmode, hresolved]
  rfl

/-- The default agent is a listed one. -/
theorem exists_defaultAgent (hcheck : checkConfig store = []) {name : Text}
    (hdefault : store.defaultAgent = .ok (some name)) :
    ∃ agents, store.listAgents = .ok agents ∧ ∃ a ∈ agents, a.name = name := by
  by_cases hknown : name ∈ names (listed store.listAgents)
  · cases hagents : store.listAgents with
    | error c =>
      rw [hagents] at hknown
      cases hknown
    | ok agents =>
      rw [hagents] at hknown
      rcases List.mem_map.1 hknown with ⟨a, ha, hname⟩
      exact ⟨agents, rfl, a, ha, hname⟩
  · have hproblem : VnyError.unknownReference "agent".toList (name ++ " (defaults.agent)".toList) ∈
        checkConfig store := by
      refine List.mem_append_right _ (List.mem_append_right _ ?_)
      rw [hdefault]
      exact mem_checkReference hknown
    rw [hcheck] at hproblem
    cases hproblem

end Checked

/-- All agents of a configuration without problems can be run, and the default agent is one of
them; what fails in the turn of a listed agent is reported.  The file store has the body of every
skill that it lists. -/
theorem checked_runs (store : ConfigStore) :
    (checkConfig store = [] →
      (∀ agents, store.listAgents = .ok agents → ∀ a ∈ agents, Runs store a) ∧
      ∀ name, store.defaultAgent = .ok (some name) → ∃ agents, store.listAgents = .ok agents ∧
        ∃ a ∈ agents, a.name = name ∧ Runs store a) ∧
    (∀ agents a workspaceContext e, store.listAgents = .ok agents → a ∈ agents →
      resolveTurnContext store none a.name workspaceContext = .error e → Reported store e) ∧
    ∀ (V E : Type) (serde : StoreSerde V E) (fs : FsConfigStore) (skills : List SkillMeta),
      fs.listSkills serde = .ok skills → ∀ skill ∈ skills, ∃ body,
        fs.loadSkill skill.name = .ok body := by
  refine ⟨?_, ?_, ?_⟩
  · intro hcheck
    refine ⟨fun agents hagents a ha => runs_of_checked hcheck hagents ha, ?_⟩
    intro name hdefault
    rcases exists_defaultAgent hcheck hdefault with ⟨agents, hagents, a, ha, hname⟩
    exact ⟨agents, hagents, a, ha, hname, runs_of_checked hcheck hagents ha⟩
  · intro agents a workspaceContext e hagents ha h
    rcases exists_failed h with ⟨c, rfl, hfailed⟩
    exact reported_of_failed (mem_of_listAgents hagents ha) hfailed
  · intro V E serde fs skills hskills skill hskill
    exact loadSkill_of_listed hskills hskill

/-! ## Skills without a body -/

/-- One agent with a model, a toolset and a skill, which has this body. -/
def buildStore (body : Option Text) : InMemoryConfigStore where
  providers := [⟨"ollama".toList, .ollama, "http://localhost:11434".toList, none⟩]
  models := [⟨"qwen2.5".toList, "ollama".toList, "qwen2.5".toList, none, none, []⟩]
  mcpServers := [⟨"fs".toList, .httpStreamable, "http://mcp-fs:3000".toList, []⟩]
  toolsets := [⟨"default".toList, none, none, [], [⟨"fs".toList, ["*".toList]⟩]⟩]
  agents := [⟨"build".toList, none, .all, "qwen2.5".toList, ["default".toList],
    .named ["pdf".toList], "Build helper.".toList⟩]
  skills := [⟨"pdf".toList, "PDF processing".toList⟩]
  skillBodies _ := body
  defaultAgent := some "build".toList

theorem checkConfig_buildStore (body : Option Text) : checkConfig (buildStore body).store = [] := by
  rfl

theorem checked_runs_build :
    ∃ agents, (buildStore (some [])).store.listAgents = .ok agents ∧
      ∃ a ∈ agents, a.name = "build".toList ∧ Runs (buildStore (some [])).store a :=
  ((checked_runs (buildStore (some [])).store).1 (checkConfig_buildStore _)).2 "build".toList rfl

/-- A skill of the index can have no body. -/
theorem named_skill_not_loaded :
    ¬ ∀ store, checkConfig store = [] → ∀ agents, store.listAgents = .ok agents → ∀ a ∈ agents,
      ∀ name ∈ namedSkills a.skills, ∃ body, store.loadSkill name = .ok body := by
  intro hall
  rcases hall (buildStore none).store (checkConfig_buildStore none) _ rfl _ List.mem_cons_self
    "pdf".toList List.mem_cons_self with ⟨body, hbody⟩
  cases hbody

end Vanyline.ConfigCheck
