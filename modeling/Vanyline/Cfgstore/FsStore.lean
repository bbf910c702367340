import Vanyline.Cfgstore.Layers

/-!
# The mutators of `config.yaml`

Every mutator reads the `config.yaml` of one layer into the four maps, changes one entry and
writes the whole file.  `call` is such a call when nobody else writes.

* `createEntry`, `updateEntry` and `deleteEntry` are shared by the three kinds of entries.
  `Kind.allowed`, `Kind.required` and `Kind.variants` have what the kinds differ in.
* An update converts the entry to JSON, patches that and converts it back (`patchEntry`).
* `patchEntry_eq_ok` and `field_patched` say what an update does to the entry.
-/

namespace Vanyline.Cfgstore

open Vanyline.Lib

variable {V E : Type} [DecidableEq V]

/-! ## Names -/

def isNameChar (c : Char) : Bool := c.isAlphanum || c == '.' || c == '_' || c == '-'

def hasDotDot : Text → Bool
  | '.' :: '.' :: _ => true
  | _ :: rest => hasDotDot rest
  | [] => false

def validateName (name : Text) : Except CfgStoreError Unit :=
  if !name.isEmpty && name.foldl (fun size c => size + c.utf8Size) 0 ≤ 64 &&
      name.head?.any Char.isAlphanum && name.all isNameChar && !hasDotDot name then .ok ()
  else .error (.invalidName name)

/-! ## Items -/

/-- A `serde_json::Map`. -/
abbrev Object := AList fun _ : Text => Json

def object (fields : List (String × Json)) : Object :=
  fields.foldr (fun field obj => obj.insert field.1.toList field.2) ∅

/-- A field that is left out when there is none. -/
def optionField (key : String) : Option Json → List (String × Json)
  | some value => [(key, value)]
  | none => []

inductive ProviderType
  | ollama
  | openaiCompatible

def ProviderType.toJson : ProviderType → Json
  | .ollama => .str "ollama".toList
  | .openaiCompatible => .str "openai-compatible".toList

structure Provider where
  name : Text
  providerType : ProviderType
  endpoint : Text
  apiKey : Option Text

def Provider.toValue (p : Provider) : Object :=
  object ([("name", .str p.name), ("type", p.providerType.toJson), ("endpoint", .str p.endpoint)] ++
    optionField "api_key" (p.apiKey.map .str))

/-- An `f64`, which JSON has only when it is finite. -/
inductive F64
  | finite (decimal : Text)
  | nonFinite

def F64.toJson : F64 → Json
  | .finite decimal => .decimal decimal
  | .nonFinite => .null

structure ModelProfile where
  name : Text
  provider : Text
  model : Text
  temperature : Option F64
  maxTokens : Option UInt64
  options : List (Text × Json)

def ModelProfile.toValue (m : ModelProfile) : Object :=
  object ([("name", .str m.name), ("provider", .str m.provider), ("model", .str m.model)] ++
    optionField "temperature" (m.temperature.map F64.toJson) ++
    optionField "max_tokens" (m.maxTokens.map fun n => .num n.toNat) ++
    optionField "options" (if m.options.isEmpty then none else some (.obj m.options)))

inductive McpTransport
  | httpStreamable
  | sse

def McpTransport.toJson : McpTransport → Json
  | .httpStreamable => .str "http-streamable".toList
  | .sse => .str "sse".toList

structure McpServer where
  name : Text
  transport : McpTransport
  url : Text
  headers : List (Text × Text)

def McpServer.toValue (m : McpServer) : Object :=
  object [("name", .str m.name), ("type", m.transport.toJson), ("url", .str m.url),
    ("headers", .obj (m.headers.map fun header => (header.1, .str header.2)))]

inductive Item
  | provider (p : Provider)
  | model (m : ModelProfile)
  | mcpServer (s : McpServer)

namespace Item

def kind : Item → Kind
  | .provider _ => .provider
  | .model _ => .model
  | .mcpServer _ => .mcpServer

def name : Item → Text
  | .provider p => p.name
  | .model m => m.name
  | .mcpServer s => s.name

def toValue : Item → Object
  | .provider p => p.toValue
  | .model m => m.toValue
  | .mcpServer s => s.toValue

end Item

/-! ## Entries and JSON -/

variable (serde : Serde V E)

def keyText : Key V → Except Text Text
  | .text s => .ok s
  | .other v => serde.key v

/-- `serde_json::to_value` of an entry and `as_object_mut`. -/
def Entry.toObject : Entry V → Except Text (Option Object)
  | .mapping fields => do
    let obj ← fields.entries.foldlM (fun (obj : Object) field => do
      return obj.insert (← keyText serde field.1) (← serde.toJson field.2)) ∅
    return some obj
  | .other v => do
    match ← serde.toJson v with
    | .obj fields => return some (fields.foldl (fun obj field => obj.insert field.1 field.2) ∅)
    | _ => return none

/-- `yaml_serde::to_value` of an object. -/
def Entry.ofObject (obj : Object) : Entry V :=
  .mapping (obj.entries.foldr (fun field fields =>
    fields.insert (.text field.1) (serde.toValue field.2)) ∅)

/-- The entry of a new item: its fields but the name, which is the key in the map. -/
def Item.entry (item : Item) : Entry V := .ofObject serde (item.toValue.erase "name".toList)

/-! ## Patches -/

/-- The kind in `NotFound` and `NameConflict`. -/
def Kind.text : Kind → Text
  | .provider => "provider".toList
  | .model => "model".toList
  | .mcpServer => "mcp_server".toList

/-- The fields that a patch may change. -/
def Kind.allowed : Kind → List String
  | .provider => ["type", "endpoint", "api_key"]
  | .model => ["provider", "model", "temperature", "max_tokens", "options"]
  | .mcpServer => ["type", "url", "headers"]

/-- The fields that a patch may not clear. -/
def Kind.required : Kind → List String
  | .provider => ["type", "endpoint"]
  | .model => ["provider", "model"]
  | .mcpServer => ["type", "url"]

/-- The values of `type`, and what the error calls another one. -/
def Kind.variants : Kind → Option (List String × String)
  | .provider => some (["ollama", "openai-compatible"], "unknown provider_type")
  | .model => none
  | .mcpServer => some (["http-streamable", "sse"], "unknown transport")

def hasName (names : List String) (key : Text) : Bool := names.any fun name => name.toList == key

def isNull : Json → Bool
  | .null => true
  | _ => false

def checkRequired (kind : Kind) (name : Text) (fields : List (Text × Json)) :
    Except CfgStoreError Unit :=
  match fields.find? fun field => hasName kind.required field.1 && isNull field.2 with
  | some field => .error (.validation (kind.label name ++ ": required field '".toList ++ field.1 ++
      "' cannot be cleared".toList))
  | none => .ok ()

def applyField (kind : Kind) (obj : Object) (field : Text × Json) : Object :=
  if hasName kind.allowed field.1 then
    if isNull field.2 then obj.erase field.1 else obj.insert field.1 field.2
  else obj

def checkVariant (kind : Kind) (name : Text) (obj : Object) : Except CfgStoreError Unit :=
  match kind.variants, obj.lookup "type".toList with
  | some (variants, unknown), some (.str t) =>
    if hasName variants t then .ok ()
    else .error (.validation (kind.label name ++ ": ".toList ++ unknown.toList ++
      " '".toList ++ t ++ "'".toList))
  | some _, some _ =>
    .error (.validation (kind.label name ++ ": 'type' must be a string".toList))
  | _, _ => .ok ()

def asMapping (kind : Kind) (name : Text) : Option Object → Except CfgStoreError Object
  | some obj => .ok obj
  | none => .error (.config (kind.label name ++ ": config.yaml entry is not a mapping".toList))

def asPatch : Json → Except CfgStoreError (List (Text × Json))
  | .obj fields => .ok fields
  | _ => .error (.config "update patch must be a JSON object".toList)

/-- The entry after the patch, if it can still be read. -/
def patchEntry (kind : Kind) (name : Text) (entry : Entry V) (patch : Json) :
    Except CfgStoreError (Entry V) := do
  let json ← (entry.toObject serde).mapError fun e =>
    .writeError (kind.label name ++ ": ".toList ++ e)
  let obj ← asMapping kind name json
  let fields ← asPatch patch
  checkRequired kind name fields
  let obj := fields.foldl (applyField kind) obj
  checkVariant kind name obj
  let entry := Entry.ofObject serde obj
  let _ ← (serde.fromValue kind entry).mapError fun e =>
    .validation (kind.label name ++ ": ".toList ++ e)
  return entry

/-! ## The mutators -/

def createEntry (item : Item) (layer : Layer) (raw : RawConfigFile V) :
    Except CfgStoreError (RawConfigFile V) :=
  let entries := raw.get item.kind.section
  if item.name ∈ entries then .error (.nameConflict item.kind.text item.name layer)
  else .ok (raw.set (entries.insert item.name (item.entry serde)) item.kind.section)

def updateEntry (kind : Kind) (name : Text) (patch : Json) (layer : Layer) (raw : RawConfigFile V) :
    Except CfgStoreError (RawConfigFile V) := do
  let entries := raw.get kind.section
  let entry ← (entries.lookup name).elim (.error (.notFound kind.text name layer)) .ok
  let entry ← patchEntry serde kind name entry patch
  return raw.set (entries.insert name entry) kind.section

omit [DecidableEq V] in
def deleteEntry (kind : Kind) (name : Text) (layer : Layer) (raw : RawConfigFile V) :
    Except CfgStoreError (RawConfigFile V) :=
  let entries := raw.get kind.section
  if name ∈ entries then .ok (raw.set (entries.erase name) kind.section)
  else .error (.notFound kind.text name layer)

def createProvider (item : Provider) := createEntry serde (.provider item)

def updateProvider := updateEntry serde .provider

def deleteProvider := deleteEntry (V := V) .provider

def createModel (item : ModelProfile) := createEntry serde (.model item)

def updateModel := updateEntry serde .model

def deleteModel := deleteEntry (V := V) .model

def createMcpServer (item : McpServer) := createEntry serde (.mcpServer item)

def updateMcpServer := updateEntry serde .mcpServer

def deleteMcpServer := deleteEntry (V := V) .mcpServer

def setDefaultAgent (name : Text) (raw : RawConfigFile V) : RawConfigFile V :=
  raw.set (raw.defaults.insert "agent".toList (.other (serde.string name))) .defaults

/-- What a call does to a layer. -/
inductive Op
  | create (item : Item)
  | update (kind : Kind) (name : Text) (patch : Json)
  | delete (kind : Kind) (name : Text)
  | setDefaultAgent (name : Text)

structure Call where
  layer : Layer
  op : Op

namespace Op

/-- The entry that the operation is about. -/
def target : Op → SectionId × Text
  | create item => (item.kind.section, item.name)
  | update kind name _ | delete kind name => (kind.section, name)
  | setDefaultAgent _ => (.defaults, "agent".toList)

def validate : Op → Except CfgStoreError Unit
  | create item => validateName item.name
  | update _ name _ | delete _ name => validateName name
  | setDefaultAgent _ => .ok ()

def apply (layer : Layer) (raw : RawConfigFile V) : Op → Except CfgStoreError (RawConfigFile V)
  | create (.provider item) => createProvider serde item layer raw
  | create (.model item) => createModel serde item layer raw
  | create (.mcpServer item) => createMcpServer serde item layer raw
  | update .provider name patch => updateProvider serde name patch layer raw
  | update .model name patch => updateModel serde name patch layer raw
  | update .mcpServer name patch => updateMcpServer serde name patch layer raw
  | delete .provider name => deleteProvider name layer raw
  | delete .model name => deleteModel name layer raw
  | delete .mcpServer name => deleteMcpServer name layer raw
  | setDefaultAgent name => .ok (Cfgstore.setDefaultAgent serde name raw)

end Op

/-! ## Calls -/

def layerDir (fs : Layers) (layer : Layer) : Except CfgStoreError Dir :=
  (fs.dir layer).elim (.error (.config "no workspace layer configured".toList)) .ok

def Dir.write (dir : Dir) (text : Text) : Dir :=
  { dir with files := Function.update dir.files configYaml (some text) }

/-- Write the `config.yaml` of a layer. -/
def Layers.write (fs : Layers) (text : Text) : Layer → Layers
  | .global => { fs with globalDir := fs.globalDir.write text }
  | .workspace => { fs with workspaceDir := fs.workspaceDir.map (·.write text) }

/-- The text that a call writes. -/
def compute (fs : Layers) (c : Call) : Except CfgStoreError Text := do
  c.op.validate
  let dir ← layerDir fs c.layer
  let raw ← loadConfigLayer serde dir
  let raw ← c.op.apply serde c.layer raw
  (serde.toStr raw).mapError fun e =>
    .writeError ("Failed to serialize ".toList ++ dir.path ++ "/config.yaml: ".toList ++ e)

def call (fs : Layers) (c : Call) : Except CfgStoreError Layers := do
  return fs.write (← compute serde fs c) c.layer

/-! ## What a patch does -/

variable {serde}

theorem Entry.field_ofObject (obj : Object) (key : Key V) :
    (Entry.ofObject serde obj).field key = match key with
      | .text k => (obj.lookup k).map serde.toValue
      | .other _ => none := by
  show AList.lookup key (obj.entries.foldr _ ∅) = _
  have hfold : ∀ entries : List (Sigma fun _ : Text => Json),
      AList.lookup key (entries.foldr (fun field (fields : AList fun _ : Key V => V) =>
        fields.insert (.text field.1) (serde.toValue field.2)) ∅) = match key with
        | .text k => (entries.dlookup k).map serde.toValue
        | .other _ => none := by
    intro entries
    induction entries with
    | nil => cases key <;> rfl
    | cons field rest ih =>
      obtain ⟨name, value⟩ := field
      rw [List.foldr_cons]
      by_cases h : key = .text name
      · subst h
        rw [AList.lookup_insert]
        simp only [List.dlookup_cons_eq, Option.map_some]
      · rw [AList.lookup_insert_ne h, ih]
        cases key with
        | other v => rfl
        | text k =>
          have hne : k ≠ name := fun heq => h (congrArg Key.text heq)
          simp only [List.dlookup_cons_ne _ (⟨name, value⟩ : Sigma fun _ : Text => Json) hne]
  exact hfold obj.entries

theorem lookup_applyField_of_ne {kind : Kind} {obj : Object} {field : Text × Json} {k : Text}
    (h : k ≠ field.1) : (applyField kind obj field).lookup k = obj.lookup k := by
  rw [applyField]
  split
  · split
    · exact AList.lookup_erase_ne h
    · exact AList.lookup_insert_ne h
  · rfl

/-- A patch changes no field that it does not name. -/
theorem lookup_foldl_applyField {kind : Kind} {fields : List (Text × Json)} {obj : Object}
    {k : Text} (h : k ∉ fields.map Prod.fst) :
    (fields.foldl (applyField kind) obj).lookup k = obj.lookup k := by
  induction fields generalizing obj with
  | nil => rfl
  | cons field rest ih =>
    rw [List.map_cons, List.mem_cons, not_or] at h
    rw [List.foldl_cons, ih h.2, lookup_applyField_of_ne h.1]

/-- The last value that a patch has for a field counts; `null` clears the field. -/
theorem lookup_foldl_applyField_of_mem {kind : Kind} {fields : List (Text × Json)} {obj : Object}
    {k : Text} {value : Json} (h : fields.reverse.lookup k = some value)
    (hallowed : hasName kind.allowed k = true) :
    (fields.foldl (applyField kind) obj).lookup k = if isNull value then none else some value := by
  rw [← List.foldr_reverse]
  generalize fields.reverse = fields at h
  induction fields with
  | nil => cases h
  | cons field rest ih =>
    rw [List.foldr_cons]
    rw [List.lookup_cons] at h
    by_cases hk : k = field.1
    · subst hk
      rw [beq_self_eq_true] at h
      cases h
      rw [applyField, if_pos hallowed]
      split
      · exact AList.lookup_erase _ _
      · exact AList.lookup_insert _
    · rw [beq_false_of_ne hk] at h
      rw [lookup_applyField_of_ne hk]
      exact ih h

/-- The keys that a patch names. -/
def patchKeys : Json → List (Key V)
  | .obj fields => fields.map fun field => .text field.1
  | _ => []

/-- What an update that succeeds makes of the entry. -/
theorem patchEntry_eq_ok {kind : Kind} {name : Text} {entry entry' : Entry V} {patch : Json}
    (h : patchEntry serde kind name entry patch = .ok entry') :
    ∃ obj fields, entry.toObject serde = .ok (some obj) ∧ patch = .obj fields ∧
      entry' = .ofObject serde (fields.foldl (applyField kind) obj) ∧
      ∃ item, serde.fromValue kind entry' = .ok item := by
  obtain ⟨json, hjson, h⟩ := bind_eq_ok.1 h
  obtain ⟨obj, hobj, h⟩ := bind_eq_ok.1 h
  obtain ⟨fields, hfields, h⟩ := bind_eq_ok.1 h
  obtain ⟨-, -, h⟩ := bind_eq_ok.1 h
  obtain ⟨-, -, h⟩ := bind_eq_ok.1 h
  obtain ⟨item, hitem, h⟩ := bind_eq_ok.1 h
  rw [mapError_eq_ok] at hjson hitem
  cases h
  cases json with
  | none => cases hobj
  | some obj' =>
    cases hobj
    cases patch with
    | obj fields' =>
      cases hfields
      exact ⟨obj, fields, hjson, rfl, rfl, item, hitem⟩
    | _ => cases hfields

/-- Other keys than those of the patch are as the conversion to JSON and back leaves them. -/
theorem field_patched {kind : Kind} {fields : List (Text × Json)} {obj : Object} {key : Key V}
    (h : key ∉ patchKeys (.obj fields)) :
    (Entry.ofObject serde (fields.foldl (applyField kind) obj)).field key =
      (Entry.ofObject serde obj).field key := by
  rw [Entry.field_ofObject, Entry.field_ofObject]
  cases key with
  | other v => rfl
  | text k =>
    have hk : k ∉ fields.map Prod.fst := by
      intro hmem
      obtain ⟨field, hfield, rfl⟩ := List.mem_map.1 hmem
      exact h (List.mem_map.2 ⟨field, hfield, rfl⟩)
    simp only [lookup_foldl_applyField hk]

end Vanyline.Cfgstore
