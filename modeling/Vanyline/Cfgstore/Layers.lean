import Mathlib.Data.Char
import Mathlib.Data.Finmap
import Mathlib.Data.Finset.Sort
import Mathlib.Data.List.Lex
import Vanyline.Lib.JsonValue

/-!
# The two layers of the configuration

The configuration is a global directory and maybe one of the workspace, each with a
`config.yaml`.  The file is read into four maps from names to YAML values (`RawConfigFile`).
Its further top-level keys are in `Document.rest`, which the code never sees.

* An entry is a YAML mapping, whose first level the store patches, or any other value.  The
  values below are a type parameter `V`.
* `Serde` has what the serialisers do: the two libraries and the derived implementations.
* `loadMergedConfig` is the merge, in which an entry of the workspace hides the global one
  of its name.  `listEntries` and `listSourced` are the listings.
-/

namespace Vanyline.Cfgstore

open Vanyline.Lib

abbrev Text := List Char

/-! ## Errors -/

inductive Layer
  | global
  | workspace
  deriving DecidableEq

inductive CfgStoreError
  | config (message : Text)
  | io
  | invalidName (name : Text)
  | unknownReference (kind : Text) (name : Text)
  | notFound (kind : Text) (name : Text) (layer : Layer)
  | nameConflict (kind : Text) (name : Text) (layer : Layer)
  | writeError (message : Text)
  | validation (message : Text)
  deriving DecidableEq

/-- A step whose rest goes on with its result. -/
theorem bind_eq_ok {ε : Type*} {α β : Type} {x : Except ε α} {f : α → Except ε β} {b : β} :
    x >>= f = .ok b ↔ ∃ a, x = .ok a ∧ f a = .ok b := by
  cases x with
  | error e =>
    constructor
    · intro h
      cases h
    · rintro ⟨a, h, -⟩
      cases h
  | ok a =>
    constructor
    · intro h
      exact ⟨a, rfl, h⟩
    · rintro ⟨a', h, hf⟩
      cases h
      exact hf

theorem mapError_eq_ok {ε ε' α : Type*} {x : Except ε α} {f : ε → ε'} {a : α} :
    x.mapError f = .ok a ↔ x = .ok a := by
  cases x with
  | error e => exact ⟨nofun, nofun⟩
  | ok b => exact Iff.intro (fun h => by cases h; rfl) (fun h => by cases h; rfl)

/-! ## The contents of a `config.yaml` -/

/-- A key of a YAML mapping, which need not be a string. -/
inductive Key (V : Type)
  | text (s : Text)
  | other (v : V)
  deriving DecidableEq

inductive Entry (V : Type)
  | mapping (fields : AList fun _ : Key V => V)
  | other (v : V)

instance {V : Type} [DecidableEq V] : DecidableEq (Entry V)
  | .mapping fields, .mapping fields' =>
    decidable_of_iff (fields.entries = fields'.entries)
      (by rw [Entry.mapping.injEq, AList.ext_iff])
  | .other v, .other v' => decidable_of_iff (v = v') (by rw [Entry.other.injEq])
  | .mapping _, .other _ => isFalse nofun
  | .other _, .mapping _ => isFalse nofun

/-- What the entry says under a key. -/
def Entry.field {V : Type} [DecidableEq V] : Entry V → Key V → Option V
  | .mapping fields, key => fields.lookup key
  | .other _, _ => none

abbrev Section (V : Type) := Finmap fun _ : Text => Entry V

inductive SectionId
  | providers
  | models
  | mcp
  | defaults
  deriving DecidableEq

structure RawConfigFile (V : Type) where
  providers : Section V
  models : Section V
  mcp : Section V
  defaults : Section V
  deriving DecidableEq

/-- The maps of the file and its further top-level keys. -/
structure Document (V : Type) where
  raw : RawConfigFile V
  rest : Finmap fun _ : Key V => V
  deriving DecidableEq

/-- The kinds of named entries. -/
inductive Kind
  | provider
  | model
  | mcpServer
  deriving DecidableEq

def Kind.section : Kind → SectionId
  | .provider => .providers
  | .model => .models
  | .mcpServer => .mcp

/-- An entry of the kind, as messages name it. -/
def Kind.label (kind : Kind) (name : Text) : Text :=
  (match kind with
    | .provider => "provider '".toList
    | .model => "model '".toList
    | .mcpServer => "mcp server '".toList) ++ name ++ "'".toList

theorem Kind.section_ne_defaults (kind : Kind) : kind.section ≠ .defaults := by
  cases kind <;> decide

theorem Kind.section_inj {k k' : Kind} : k.section = k'.section ↔ k = k' := by
  cases k <;> cases k' <;> decide

variable {V E : Type}

namespace RawConfigFile

def empty : RawConfigFile V := ⟨∅, ∅, ∅, ∅⟩

def get (raw : RawConfigFile V) : SectionId → Section V
  | .providers => raw.providers
  | .models => raw.models
  | .mcp => raw.mcp
  | .defaults => raw.defaults

def set (raw : RawConfigFile V) (entries : Section V) : SectionId → RawConfigFile V
  | .providers => { raw with providers := entries }
  | .models => { raw with models := entries }
  | .mcp => { raw with mcp := entries }
  | .defaults => { raw with defaults := entries }

@[simp] theorem get_set_self (raw : RawConfigFile V) (entries : Section V) (s : SectionId) :
    (raw.set entries s).get s = entries := by
  cases s <;> rfl

theorem get_set_of_ne (raw : RawConfigFile V) (entries : Section V) {s s' : SectionId}
    (h : s' ≠ s) : (raw.set entries s).get s' = raw.get s' := by
  cases s <;> cases s' <;> first | rfl | exact absurd rfl h

end RawConfigFile

/-! ## The serialisers -/

/-- What `yaml_serde`, `serde_json` and the derived implementations do. -/
structure Serde (V E : Type) where
  /-- `yaml_serde::Value::String`. -/
  string : Text → V
  /-- `serde_json::to_value` of a value. -/
  toJson : V → Except Text Json
  /-- How `serde_json` writes a key that is not a string, if it can. -/
  key : V → Except Text Text
  /-- `yaml_serde::to_value` of a JSON value. -/
  toValue : Json → V
  /-- `yaml_serde::from_value` of an entry, as the kind has it in a listing. -/
  fromValue : Kind → Entry V → Except Text E
  /-- `yaml_serde::from_str`, with what the maps of `RawConfigFile` leave out. -/
  fromStr : Text → Except Text (Document V)
  /-- `yaml_serde::to_string`. -/
  toStr : RawConfigFile V → Except Text Text

/-! ## Directories -/

structure Dir where
  path : Text
  files : Text → Option Text

structure Layers where
  globalDir : Dir
  workspaceDir : Option Dir

def Layers.dir (fs : Layers) : Layer → Option Dir
  | .global => some fs.globalDir
  | .workspace => fs.workspaceDir

def configYaml : Text := "config.yaml".toList

variable (serde : Serde V E)

/-- What the `config.yaml` of a directory says. -/
def Dir.document (dir : Dir) : Except Text (Document V) :=
  match dir.files configYaml with
  | none => .ok ⟨.empty, ∅⟩
  | some text => serde.fromStr text

def loadConfigLayer (dir : Dir) : Except CfgStoreError (RawConfigFile V) :=
  match dir.document serde with
  | .ok doc => .ok doc.raw
  | .error e =>
    .error (.config ("Failed to parse ".toList ++ dir.path ++ "/config.yaml: ".toList ++ e))

/-- Map by map, the entries of the workspace replace those of the same name. -/
def mergeConfigLayers (global : RawConfigFile V) :
    Option (RawConfigFile V) → RawConfigFile V
  | none => global
  | some ws =>
    { providers := ws.providers ∪ global.providers
      models := ws.models ∪ global.models
      mcp := ws.mcp ∪ global.mcp
      defaults := ws.defaults ∪ global.defaults }

namespace Layers

def loadMergedConfig (fs : Layers) : Except CfgStoreError (RawConfigFile V) := do
  let global ← loadConfigLayer serde fs.globalDir
  match fs.workspaceDir with
  | some dir => return mergeConfigLayers global (some (← loadConfigLayer serde dir))
  | none => return mergeConfigLayers global none

/-- The layer that is said to be the source of an entry. -/
def configEntrySource (fs : Layers) (name : Text) (kind : Kind) : Layer :=
  match fs.workspaceDir with
  | some dir =>
    match loadConfigLayer serde dir with
    | .ok raw => if name ∈ raw.get kind.section then .workspace else .global
    | .error _ => .global
  | none => .global

end Layers

/-! ## What a layer says -/

/-- The layer has no `config.yaml`, or one that can be read. -/
def Layers.Readable (fs : Layers) (layer : Layer) : Prop :=
  ∀ dir, fs.dir layer = some dir → ∃ raw, loadConfigLayer serde dir = .ok raw

/-- The entry of a layer. -/
def Layers.entry (fs : Layers) (layer : Layer) (s : SectionId) (name : Text) : Option (Entry V) :=
  (fs.dir layer).bind fun dir =>
    match loadConfigLayer serde dir with
    | .ok raw => (raw.get s).lookup name
    | .error _ => none

/-- The entry that the merge shows: the one of the workspace, whole, or the global one. -/
def Layers.merged (fs : Layers) (s : SectionId) (name : Text) : Option (Entry V) :=
  (fs.entry serde .workspace s name).or (fs.entry serde .global s name)

variable {serde}

theorem Layers.entry_of_load {fs : Layers} {layer : Layer} {dir : Dir} {raw : RawConfigFile V}
    (hdir : fs.dir layer = some dir) (h : loadConfigLayer serde dir = .ok raw) (s : SectionId)
    (name : Text) : fs.entry serde layer s name = (raw.get s).lookup name := by
  rw [Layers.entry, hdir, Option.bind_some, h]

theorem lookup_union {entries others : Section V} {name : Text} :
    (entries ∪ others).lookup name = (entries.lookup name).or (others.lookup name) := by
  by_cases h : name ∈ entries
  · obtain ⟨value, hvalue⟩ := Finmap.mem_iff.1 h
    rw [Finmap.lookup_union_left h, hvalue, Option.some_or]
  · rw [Finmap.lookup_union_right h, Finmap.lookup_eq_none.2 h, Option.none_or]

theorem lookup_mergeConfigLayers {global ws : RawConfigFile V} {s : SectionId} {name : Text} :
    ((mergeConfigLayers global (some ws)).get s).lookup name =
      ((ws.get s).lookup name).or ((global.get s).lookup name) := by
  cases s <;> exact lookup_union

/-- The merge can be read when the layers can, and says what `merged` does. -/
theorem Layers.loadMergedConfig_eq_ok {fs : Layers} {m : RawConfigFile V}
    (h : fs.loadMergedConfig serde = .ok m) :
    (∀ layer, fs.Readable serde layer) ∧
      ∀ s name, (m.get s).lookup name = fs.merged serde s name := by
  obtain ⟨global, hglobal, h⟩ := bind_eq_ok.1 h
  have hdir : fs.dir .global = some fs.globalDir := rfl
  have hentry := Layers.entry_of_load hdir hglobal
  cases hws : fs.workspaceDir with
  | none =>
    rw [hws] at h
    cases h
    refine ⟨?_, ?_⟩
    · intro layer dir hdir
      cases layer with
      | global =>
        cases hdir
        exact ⟨global, hglobal⟩
      | workspace =>
        rw [show fs.dir .workspace = fs.workspaceDir from rfl, hws] at hdir
        cases hdir
    · intro s name
      have hnone : fs.entry serde .workspace s name = none := by
        rw [Layers.entry, show fs.dir .workspace = fs.workspaceDir from rfl, hws, Option.bind_none]
      rw [Layers.merged, hnone, hentry, Option.none_or]
      rfl
  | some dir =>
    rw [hws] at h
    obtain ⟨ws, hload, h⟩ := bind_eq_ok.1 h
    cases h
    refine ⟨?_, ?_⟩
    · intro layer dir' hdir
      cases layer with
      | global =>
        cases hdir
        exact ⟨global, hglobal⟩
      | workspace =>
        rw [show fs.dir .workspace = fs.workspaceDir from rfl, hws] at hdir
        cases hdir
        exact ⟨ws, hload⟩
    · intro s name
      have hdir : fs.dir .workspace = some dir := hws
      rw [lookup_mergeConfigLayers, Layers.merged, hentry, Layers.entry_of_load hdir hload]

theorem Layers.exists_loadMergedConfig {fs : Layers} (h : ∀ layer, fs.Readable serde layer) :
    ∃ m, fs.loadMergedConfig serde = .ok m := by
  obtain ⟨global, hglobal⟩ := h .global fs.globalDir rfl
  cases hws : fs.workspaceDir with
  | none =>
    refine ⟨global, ?_⟩
    rw [Layers.loadMergedConfig, hglobal, hws]
    rfl
  | some dir =>
    obtain ⟨ws, hload⟩ := h .workspace dir hws
    refine ⟨mergeConfigLayers global (some ws), ?_⟩
    rw [Layers.loadMergedConfig, hglobal, hws]
    show (loadConfigLayer serde dir >>= fun ws => _) = _
    rw [hload]
    rfl

/-- The source is the workspace when that has the entry. -/
theorem Layers.configEntrySource_eq {fs : Layers} {name : Text} {kind : Kind} :
    fs.configEntrySource serde name kind =
      if (fs.entry serde .workspace kind.section name).isSome then .workspace else .global := by
  rw [Layers.configEntrySource, Layers.entry, show fs.dir .workspace = fs.workspaceDir from rfl]
  cases fs.workspaceDir with
  | none => rfl
  | some dir =>
    rw [Option.bind_some]
    dsimp only
    cases loadConfigLayer serde dir with
    | error e => rfl
    | ok raw => simp only [Finmap.lookup_isSome]

variable (serde)

/-! ## Listings -/

/-- The entries in the order of their names. -/
def Section.sorted (entries : Section V) : List (Text × Entry V) :=
  (entries.keys.sort (· ≤ ·)).filterMap fun name =>
    (entries.lookup name).map fun value => (name, value)

/-- The loop of a listing: the first entry that cannot be read fails it. -/
def decodeAll (kind : Kind) : List (Text × Entry V) → Except CfgStoreError (List (Text × E))
  | [] => .ok []
  | (name, value) :: rest => do
    let item ← (serde.fromValue kind value).mapError fun e =>
      .config (kind.label name ++ ": ".toList ++ e)
    return (name, item) :: (← decodeAll kind rest)

namespace Layers

def listEntries (kind : Kind) (fs : Layers) : Except CfgStoreError (List (Text × E)) := do
  let merged ← fs.loadMergedConfig serde
  decodeAll serde kind (merged.get kind.section).sorted

def listProviders : Layers → Except CfgStoreError (List (Text × E)) := listEntries serde .provider

def listModels : Layers → Except CfgStoreError (List (Text × E)) := listEntries serde .model

def listMcpServers : Layers → Except CfgStoreError (List (Text × E)) :=
  listEntries serde .mcpServer

/-- The listing with the source of each entry, as `config/models` and the like answer. -/
def listSourced (kind : Kind) (fs : Layers) : Except CfgStoreError (List (Text × E × Layer)) := do
  let items ← (match kind with
    | .provider => fs.listProviders serde
    | .model => fs.listModels serde
    | .mcpServer => fs.listMcpServers serde)
  return items.map fun item => (item.1, item.2, fs.configEntrySource serde item.1 kind)

end Layers

/-! ## What the listings show -/

variable {serde}

theorem mem_sorted {entries : Section V} {name : Text} {value : Entry V} :
    (name, value) ∈ entries.sorted ↔ entries.lookup name = some value := by
  rw [Section.sorted, List.mem_filterMap]
  constructor
  · rintro ⟨n, -, hn⟩
    obtain ⟨v, hv, heq⟩ := Option.map_eq_some_iff.1 hn
    cases heq
    exact hv
  · intro h
    refine ⟨name, ?_, ?_⟩
    · rw [Finset.mem_sort, Finmap.mem_keys]
      exact Finmap.mem_of_lookup_eq_some h
    · rw [h]
      rfl

/-- A listing that succeeds has read each entry. -/
theorem mem_decodeAll {kind : Kind} {entries : List (Text × Entry V)} {items : List (Text × E)}
    (h : decodeAll serde kind entries = .ok items) {name : Text} {item : E} :
    (name, item) ∈ items ↔
      ∃ value, (name, value) ∈ entries ∧ serde.fromValue kind value = .ok item := by
  induction entries generalizing items with
  | nil =>
    cases h
    simp
  | cons entry rest ih =>
    obtain ⟨n, v⟩ := entry
    obtain ⟨first, hfirst, h⟩ := bind_eq_ok.1 h
    obtain ⟨others, hothers, h⟩ := bind_eq_ok.1 h
    rw [mapError_eq_ok] at hfirst
    cases h
    rw [List.mem_cons, ih hothers]
    constructor
    · rintro (heq | ⟨value, hmem, hvalue⟩)
      · cases heq
        exact ⟨v, List.mem_cons_self, hfirst⟩
      · exact ⟨value, List.mem_cons_of_mem _ hmem, hvalue⟩
    · rintro ⟨value, hmem, hvalue⟩
      rcases List.mem_cons.1 hmem with heq | hmem
      · cases heq
        rw [hfirst] at hvalue
        cases hvalue
        exact .inl rfl
      · exact .inr ⟨value, hmem, hvalue⟩

theorem exists_decodeAll {kind : Kind} {entries : List (Text × Entry V)} :
    (∃ items, decodeAll serde kind entries = .ok items) ↔
      ∀ name value, (name, value) ∈ entries → ∃ item, serde.fromValue kind value = .ok item := by
  induction entries with
  | nil =>
    constructor
    · intro _ name value h
      cases h
    · intro _
      exact ⟨[], rfl⟩
  | cons entry rest ih =>
    obtain ⟨n, v⟩ := entry
    constructor
    · rintro ⟨items, h⟩ name value hmem
      obtain ⟨first, hfirst, h⟩ := bind_eq_ok.1 h
      obtain ⟨others, hothers, -⟩ := bind_eq_ok.1 h
      rcases List.mem_cons.1 hmem with heq | hmem
      · cases heq
        exact ⟨first, mapError_eq_ok.1 hfirst⟩
      · exact ih.1 ⟨others, hothers⟩ name value hmem
    · intro h
      obtain ⟨first, hfirst⟩ := h n v List.mem_cons_self
      obtain ⟨others, hothers⟩ := ih.2 fun name value hmem =>
        h name value (List.mem_cons_of_mem _ hmem)
      refine ⟨(n, first) :: others, ?_⟩
      rw [decodeAll, hfirst, hothers]
      rfl

theorem Layers.mem_listEntries {kind : Kind} {fs : Layers} {items : List (Text × E)}
    (h : fs.listEntries serde kind = .ok items) {name : Text} {item : E} :
    (name, item) ∈ items ↔ ∃ value, fs.merged serde kind.section name = some value ∧
      serde.fromValue kind value = .ok item := by
  obtain ⟨m, hm, h⟩ := bind_eq_ok.1 h
  rw [mem_decodeAll h]
  simp only [mem_sorted, (Layers.loadMergedConfig_eq_ok hm).2]

/-- A listing succeeds when the layers and the entries that it shows can be read. -/
theorem Layers.exists_listEntries {kind : Kind} {fs : Layers} :
    (∃ items, fs.listEntries serde kind = .ok items) ↔ (∀ layer, fs.Readable serde layer) ∧
      ∀ name value, fs.merged serde kind.section name = some value →
        ∃ item, serde.fromValue kind value = .ok item := by
  constructor
  · rintro ⟨items, h⟩
    obtain ⟨m, hm, h⟩ := bind_eq_ok.1 h
    obtain ⟨hread, hlookup⟩ := Layers.loadMergedConfig_eq_ok hm
    refine ⟨hread, ?_⟩
    intro name value hvalue
    rw [← hlookup, ← mem_sorted] at hvalue
    exact exists_decodeAll.1 ⟨items, h⟩ name value hvalue
  · rintro ⟨hread, hvalues⟩
    obtain ⟨m, hm⟩ := Layers.exists_loadMergedConfig hread
    have hlookup := (Layers.loadMergedConfig_eq_ok hm).2
    have hsorted : ∀ name value, (name, value) ∈ (m.get kind.section).sorted →
        ∃ item, serde.fromValue kind value = .ok item := by
      intro name value hmem
      rw [mem_sorted, hlookup] at hmem
      exact hvalues name value hmem
    obtain ⟨items, hitems⟩ := exists_decodeAll.2 hsorted
    refine ⟨items, ?_⟩
    rw [Layers.listEntries, hm]
    exact hitems

/-- What a listing reports of an entry: the value that the merge shows, read from the layer
that is its source.  That is the global one only when the workspace has no such entry. -/
structure Layers.Reported (serde : Serde V E) (fs : Layers) (kind : Kind) (name : Text) (item : E)
    (source : Layer) : Prop where
  value : ∃ value, fs.merged serde kind.section name = some value ∧
    fs.entry serde source kind.section name = some value ∧ serde.fromValue kind value = .ok item
  hidden : source = .global → fs.entry serde .workspace kind.section name = none

theorem Layers.mem_listSourced {kind : Kind} {fs : Layers} {items : List (Text × E × Layer)}
    (h : fs.listSourced serde kind = .ok items) {name : Text} {item : E} {source : Layer}
    (hmem : (name, item, source) ∈ items) : fs.Reported serde kind name item source := by
  obtain ⟨listed, hlisted, h⟩ := bind_eq_ok.1 h
  replace hlisted : fs.listEntries serde kind = .ok listed := by
    cases kind <;> exact hlisted
  cases h
  obtain ⟨⟨n, e⟩, hin, heq⟩ := List.mem_map.1 hmem
  cases heq
  obtain ⟨value, hvalue, hitem⟩ := (Layers.mem_listEntries hlisted).1 hin
  dsimp only
  rw [Layers.configEntrySource_eq]
  have hshown := hvalue
  cases hws : fs.entry serde .workspace kind.section n with
  | none =>
    rw [Layers.merged, hws, Option.none_or] at hshown
    exact ⟨⟨value, hvalue, hshown, hitem⟩, fun _ => hws⟩
  | some v =>
    rw [Layers.merged, hws, Option.some_or] at hshown
    exact ⟨⟨value, hvalue, hws.trans hshown, hitem⟩, nofun⟩

end Vanyline.Cfgstore
