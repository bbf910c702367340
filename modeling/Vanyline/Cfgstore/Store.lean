import Vanyline.Cfgstore.LayerFiles

/-!
# What every store of the configuration has

`ConfigStore` has the reads of the trait.  The items of a kind are listed, and an item is found
by its name in the list.

* `CfgStoreError` has the errors of all stores; the file store has some of them only.
* `resolveByName_eq_ok` says when an item is found, `resolveByName_eq_error` why none is.
* `InMemoryConfigStore` keeps the bodies of the skills beside their list, while
  `loadSkill_of_listed` says that the file store has the body of every skill it lists.
-/

namespace Vanyline.Cfgstore.Store

open Vanyline.Lib

/-! ## Errors -/

inductive CfgStoreError
  | config (message : Text)
  | duplicateName (kind name : Text)
  | unknownReference (kind name : Text)
  | io (message : Text)
  | invalidName (name : Text)
  | notFound (kind name : Text) (layer : Layer)
  | nameConflict (kind name : Text) (layer : Layer)
  | writeError (message : Text)
  | readOnly
  | validation (message : Text)
  deriving DecidableEq

/-- How a layer is shown. -/
def layerText : Layer → Text
  | .global => "Global".toList
  | .workspace => "Workspace".toList

/-- A name between quotes. -/
def quoted (name : Text) : Text := '\'' :: name ++ ['\'']

def CfgStoreError.text : CfgStoreError → Text
  | .config message => "VNL-CFG-001: Configuration error: ".toList ++ message
  | .duplicateName kind name =>
    "VNL-CFG-002: Duplicate name ".toList ++ quoted name ++ " for ".toList ++ kind
  | .unknownReference kind name =>
    "VNL-CFG-003: Unknown ".toList ++ kind ++ " reference: ".toList ++ quoted name
  | .io message => "VNL-CFG-004: I/O error: ".toList ++ message
  | .invalidName name => "VNL-CFG-005: Invalid name: ".toList ++ name
  | .notFound kind name layer =>
    "VNL-CFG-006: ".toList ++ kind ++ ' ' :: quoted name ++ " not found in ".toList ++
      layerText layer ++ " layer".toList
  | .nameConflict kind name layer =>
    "VNL-CFG-007: ".toList ++ kind ++ ' ' :: quoted name ++ " already exists in ".toList ++
      layerText layer ++ " layer".toList
  | .writeError message => "VNL-CFG-008: Write error: ".toList ++ message
  | .readOnly => "VNL-CFG-009: Config store is read-only".toList
  | .validation message => "VNL-CFG-010: Invalid value: ".toList ++ message

/-! ## Items by their names -/

class HasName (α : Type) where
  name : α → Text

instance : HasName Provider := ⟨Provider.name⟩
instance : HasName ModelProfile := ⟨ModelProfile.name⟩
instance : HasName McpServer := ⟨McpServer.name⟩
instance : HasName Toolset := ⟨Toolset.name⟩
instance : HasName Agent := ⟨Agent.name⟩
instance : HasName SkillMeta := ⟨SkillMeta.name⟩

/-- The names of the items of a list. -/
def names {α : Type} [HasName α] (items : List α) : List Text := items.map HasName.name

def resolveByName {α : Type} [HasName α] (items : List α) (kind name : Text) :
    Except CfgStoreError α :=
  match items.filter fun item => HasName.name item == name with
  | [] => .error (.unknownReference kind name)
  | [item] => .ok item
  | _ :: _ :: _ => .error (.duplicateName kind name)

/-- What the `get` methods do with a listing. -/
def getByName {α : Type} [HasName α] (listing : Except CfgStoreError (List α))
    (kind name : Text) : Except CfgStoreError α := do
  resolveByName (← listing) kind name

/-! ## The reads -/

structure ConfigStore where
  listProviders : Except CfgStoreError (List Provider)
  listModels : Except CfgStoreError (List ModelProfile)
  listMcpServers : Except CfgStoreError (List McpServer)
  listToolsets : Except CfgStoreError (List Toolset)
  listAgents : Except CfgStoreError (List Agent)
  listSkills : Except CfgStoreError (List SkillMeta)
  loadSkill : Text → Except CfgStoreError Text
  defaultAgent : Except CfgStoreError (Option Text)

namespace ConfigStore

def getProvider (store : ConfigStore) : Text → Except CfgStoreError Provider :=
  getByName store.listProviders "provider".toList

def getModel (store : ConfigStore) : Text → Except CfgStoreError ModelProfile :=
  getByName store.listModels "model".toList

def getMcpServer (store : ConfigStore) : Text → Except CfgStoreError McpServer :=
  getByName store.listMcpServers "mcp_server".toList

def getToolset (store : ConfigStore) : Text → Except CfgStoreError Toolset :=
  getByName store.listToolsets "toolset".toList

def getAgent (store : ConfigStore) : Text → Except CfgStoreError Agent :=
  getByName store.listAgents "agent".toList

end ConfigStore

/-- The store of the tests and of the harness, in which a list is what it was set to. -/
structure InMemoryConfigStore where
  providers : List Provider
  models : List ModelProfile
  mcpServers : List McpServer
  toolsets : List Toolset
  agents : List Agent
  skills : List SkillMeta
  skillBodies : Text → Option Text
  defaultAgent : Option Text

def InMemoryConfigStore.store (m : InMemoryConfigStore) : ConfigStore where
  listProviders := .ok m.providers
  listModels := .ok m.models
  listMcpServers := .ok m.mcpServers
  listToolsets := .ok m.toolsets
  listAgents := .ok m.agents
  listSkills := .ok m.skills
  loadSkill name :=
    match m.skillBodies name with
    | some body => .ok body
    | none => .error (.unknownReference "skill".toList name)
  defaultAgent := .ok m.defaultAgent

/-! ## What is found by a name -/

section Resolving

variable {α : Type} [HasName α] {items : List α} {kind name : Text}

/-- An item is found when it is the only one of its name. -/
theorem resolveByName_eq_ok {item : α} :
    resolveByName items kind name = .ok item ↔
      (items.filter fun item => HasName.name item == name) = [item] := by
  unfold resolveByName
  constructor
  · intro h
    split at h
    · cases h
    · rename_i found hfound
      cases h
      exact hfound
    · cases h
  · intro h
    rw [h]

theorem name_of_resolveByName {item : α} (h : resolveByName items kind name = .ok item) :
    item ∈ items ∧ HasName.name item = name := by
  have hmem : item ∈ items.filter fun item => HasName.name item == name := by
    rw [resolveByName_eq_ok.1 h]
    exact List.mem_singleton_self _
  rw [List.mem_filter] at hmem
  exact ⟨hmem.1, beq_iff_eq.1 hmem.2⟩

/-- The item that is found is the only one of its name. -/
theorem eq_of_resolveByName {item other : α} (h : resolveByName items kind name = .ok item)
    (hmem : other ∈ items) (hname : HasName.name other = name) : other = item := by
  have hother : other ∈ items.filter fun item => HasName.name item == name :=
    List.mem_filter.2 ⟨hmem, beq_iff_eq.2 hname⟩
  rw [resolveByName_eq_ok.1 h] at hother
  exact List.mem_singleton.1 hother

/-- No item is found of a name that is absent, or that several items have. -/
theorem resolveByName_eq_error {e : CfgStoreError} (h : resolveByName items kind name = .error e) :
    (name ∉ names items ∧ e = .unknownReference kind name) ∨
      (2 ≤ (names items).count name ∧ e = .duplicateName kind name) := by
  have hcount : (names items).count name =
      (items.filter fun item => HasName.name item == name).length := by
    rw [names, List.count_eq_countP, List.countP_map, List.countP_eq_length_filter]
    rfl
  unfold resolveByName at h
  split at h
  · rename_i hnone
    cases h
    left
    rw [hnone] at hcount
    exact ⟨List.count_eq_zero.1 hcount, rfl⟩
  · cases h
  · rename_i first second rest hmany
    cases h
    right
    rw [hmany, List.length_cons, List.length_cons] at hcount
    exact ⟨by omega, rfl⟩

theorem getByName_eq_ok {listing : Except CfgStoreError (List α)} {item : α} :
    getByName listing kind name = .ok item ↔
      ∃ items, listing = .ok items ∧ resolveByName items kind name = .ok item := bind_eq_ok

theorem getByName_eq_error {listing : Except CfgStoreError (List α)} {e : CfgStoreError}
    (h : getByName listing kind name = .error e) :
    listing = .error e ∨
      ∃ items, listing = .ok items ∧ resolveByName items kind name = .error e := by
  cases listing with
  | error e' =>
    cases h
    exact .inl rfl
  | ok items => exact .inr ⟨items, rfl, h⟩

end Resolving

/-! ## The bodies of the listed skills -/

/-- The file of a listed skill has a front matter, and so it has a body. -/
theorem loadSkill_of_listed {V E : Type} {serde : StoreSerde V E} {fs : FsConfigStore}
    {listed : List SkillMeta} (h : fs.listSkills serde = .ok listed) {skill : SkillMeta}
    (hskill : skill ∈ listed) : ∃ body, fs.loadSkill skill.name = .ok body := by
  rcases bind_eq_ok.1 h with ⟨files, hfiles, hread⟩
  rcases FsConfigStore.exists_of_mem_readAll hread hskill with ⟨⟨name, p⟩, hentry, hitem⟩
  rcases bind_eq_ok.1 hitem with ⟨⟨path, content⟩, hpath, hparse⟩
  rcases bind_eq_ok.1 hparse with ⟨⟨front, body⟩, hsplit, hraw⟩
  rcases bind_eq_ok.1 hraw with ⟨raw, -, hmeta⟩
  cases hmeta
  have hlookup : files.lookup name = some p := SortedMap.mem_entries_iff.1 hentry
  refine ⟨Lib.TextLines.trim body, bind_eq_ok.2 ⟨files, hfiles, ?_⟩⟩
  dsimp only
  rw [hlookup]
  exact bind_eq_ok.2 ⟨(path, content), hpath, bind_eq_ok.2 ⟨(front, body), hsplit, rfl⟩⟩

end Vanyline.Cfgstore.Store
