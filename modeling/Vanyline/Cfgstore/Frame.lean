import Vanyline.Cfgstore.FsStore

/-!
# A call changes its entry and nothing else

`Frame` is about a call that succeeds.  The other layer and the other files stay as they are,
and in the `config.yaml` so do the other entries, the further top-level keys and the fields of
the entry that a patch does not name.  The merge and the listings change for that entry only.

`frame_iff` has the exact condition (`Safe`).  The write drops further top-level keys.  An
update changes the fields that do not survive the conversion to JSON and back.  A deletion
fails the listing when it uncovers a global entry that cannot be read.
-/

namespace Vanyline.Cfgstore

open Vanyline.Lib

variable {V E : Type} [DecidableEq V]

/-- What the store relies on: a written file is read as it was, and so is the entry of a new
item. -/
structure Serde.Lawful (serde : Serde V E) : Prop where
  fromStr_toStr : ∀ raw text, serde.toStr raw = .ok text → serde.fromStr text = .ok ⟨raw, ∅⟩
  fromValue_item : ∀ item : Item, ∃ e, serde.fromValue item.kind (item.entry serde) = .ok e

variable (serde : Serde V E)

/-! ## What an operation does -/

/-- The change of the operation is there in its entry. -/
def Op.Shows : Op → Option (Entry V) → Prop
  | .create item, new => new = some (item.entry serde)
  | .update kind _ patch, new => ∃ entry, new = some entry ∧
      ∀ fields key value, patch = .obj fields → hasName kind.allowed key = true →
        fields.reverse.lookup key = some value →
        entry.field (.text key) = if isNull value then none else some (serde.toValue value)
  | .delete _ _, new => new = none
  | .setDefaultAgent name, new => new = some (.other (serde.string name))

/-- The step from one reading of a layer to what is written. -/
structure Op.Changes (op : Op) (raw raw' : RawConfigFile V) : Prop where
  others : ∀ s name, (s, name) ≠ op.target → (raw'.get s).lookup name = (raw.get s).lookup name
  shows : op.Shows serde ((raw'.get op.target.1).lookup op.target.2)
  patched : ∀ kind name patch, op = .update kind name patch → ∃ entry obj fields,
    (raw.get kind.section).lookup name = some entry ∧ entry.toObject serde = .ok (some obj) ∧
      patch = .obj fields ∧ (raw'.get kind.section).lookup name =
        some (.ofObject serde (fields.foldl (applyField kind) obj))
  readable : ∀ kind value, op.target.1 = kind.section →
    (raw'.get op.target.1).lookup op.target.2 = some value →
      ∃ item, serde.fromValue kind value = .ok item

variable {serde}

omit [DecidableEq V] in
theorem lookup_set_of_ne {raw : RawConfigFile V} {entries : Section V} {s s' : SectionId}
    {name name' : Text} (hne : (s', name') ≠ (s, name))
    (h : name' ≠ name → entries.lookup name' = (raw.get s).lookup name') :
    ((raw.set entries s).get s').lookup name' = (raw.get s').lookup name' := by
  by_cases hs : s' = s
  · subst hs
    rw [RawConfigFile.get_set_self]
    refine h ?_
    intro hname
    exact hne (by rw [hname])
  · rw [RawConfigFile.get_set_of_ne _ _ hs]

theorem createEntry_changes (hserde : serde.Lawful) {item : Item} {layer : Layer}
    {raw raw' : RawConfigFile V} (h : createEntry serde item layer raw = .ok raw') :
    (Op.create item).Changes serde raw raw' := by
  rw [createEntry] at h
  split at h
  · cases h
  cases h
  have hnew : ((raw.set ((raw.get item.kind.section).insert item.name (item.entry serde))
      item.kind.section).get item.kind.section).lookup item.name = some (item.entry serde) := by
    rw [RawConfigFile.get_set_self, Finmap.lookup_insert]
  refine ⟨?_, hnew, nofun, ?_⟩
  · intro s name hne
    exact lookup_set_of_ne hne fun hname => Finmap.lookup_insert_of_ne _ hname
  · intro kind value hkind hvalue
    have hsame : item.kind = kind := Kind.section_inj.1 hkind
    subst hsame
    have heq : some (item.entry serde) = some value := hnew.symm.trans hvalue
    cases heq
    exact hserde.fromValue_item item

theorem updateEntry_changes {kind : Kind} {name : Text} {patch : Json} {layer : Layer}
    {raw raw' : RawConfigFile V} (h : updateEntry serde kind name patch layer raw = .ok raw') :
    (Op.update kind name patch).Changes serde raw raw' := by
  obtain ⟨entry, hentry, h⟩ := bind_eq_ok.1 h
  obtain ⟨entry', hpatch, h⟩ := bind_eq_ok.1 h
  cases h
  replace hentry : (raw.get kind.section).lookup name = some entry := by
    cases hlookup : (raw.get kind.section).lookup name with
    | none =>
      rw [hlookup] at hentry
      cases hentry
    | some e =>
      rw [hlookup] at hentry
      cases hentry
      rfl
  obtain ⟨obj, fields, hobj, rfl, rfl, hitem⟩ := patchEntry_eq_ok hpatch
  have hnew : ((raw.set ((raw.get kind.section).insert name
      (.ofObject serde (fields.foldl (applyField kind) obj))) kind.section).get
        kind.section).lookup name =
      some (.ofObject serde (fields.foldl (applyField kind) obj)) := by
    rw [RawConfigFile.get_set_self, Finmap.lookup_insert]
  refine ⟨?_, ⟨_, hnew, ?_⟩, ?_, ?_⟩
  · intro s name' hne
    exact lookup_set_of_ne hne fun hname => Finmap.lookup_insert_of_ne _ hname
  · intro fields' key value hfields hallowed hlast
    cases hfields
    rw [Entry.field_ofObject]
    dsimp only
    rw [lookup_foldl_applyField_of_mem hlast hallowed]
    split <;> rfl
  · intro kind' name' patch' hop
    cases hop
    exact ⟨entry, obj, fields, hentry, hobj, rfl, hnew⟩
  · intro kind' value hkind hvalue
    have hsame : kind = kind' := Kind.section_inj.1 hkind
    subst hsame
    have heq : some (.ofObject serde (fields.foldl (applyField kind) obj)) = some value :=
      hnew.symm.trans hvalue
    cases heq
    exact hitem

omit [DecidableEq V] in
theorem deleteEntry_eq_ok {kind : Kind} {name : Text} {layer : Layer} {raw raw' : RawConfigFile V}
    (h : deleteEntry kind name layer raw = .ok raw') :
    raw' = raw.set ((raw.get kind.section).erase name) kind.section := by
  rw [deleteEntry] at h
  split at h
  · cases h
    rfl
  · cases h

theorem deleteEntry_changes {kind : Kind} {name : Text} {layer : Layer}
    {raw raw' : RawConfigFile V} (h : deleteEntry kind name layer raw = .ok raw') :
    (Op.delete kind name).Changes serde raw raw' := by
  rw [deleteEntry_eq_ok h]
  have hnew : ((raw.set ((raw.get kind.section).erase name) kind.section).get
      kind.section).lookup name = none := by
    rw [RawConfigFile.get_set_self, Finmap.lookup_erase]
  refine ⟨?_, hnew, nofun, ?_⟩
  · intro s name' hne
    exact lookup_set_of_ne hne fun hname => Finmap.lookup_erase_ne hname
  · intro kind' value _ hvalue
    have heq : none = some value := hnew.symm.trans hvalue
    cases heq

theorem setDefaultAgent_changes {name : Text} {raw : RawConfigFile V} :
    (Op.setDefaultAgent name).Changes serde raw (setDefaultAgent serde name raw) := by
  refine ⟨?_, ?_, nofun, ?_⟩
  · intro s name' hne
    exact lookup_set_of_ne hne fun hname => Finmap.lookup_insert_of_ne _ hname
  · exact Finmap.lookup_insert _
  · intro kind value hkind
    exact absurd hkind.symm kind.section_ne_defaults

theorem Op.apply_changes (hserde : serde.Lawful) {op : Op} {layer : Layer}
    {raw raw' : RawConfigFile V} (h : op.apply serde layer raw = .ok raw') :
    op.Changes serde raw raw' := by
  cases op with
  | create item => cases item <;> exact createEntry_changes hserde h
  | update kind name patch => cases kind <;> exact updateEntry_changes h
  | delete kind name => cases kind <;> exact deleteEntry_changes h
  | setDefaultAgent name =>
    cases h
    exact setDefaultAgent_changes

/-! ## What a call writes -/

theorem Layers.dir_write_self {fs : Layers} {text : Text} {layer : Layer} :
    (fs.write text layer).dir layer = (fs.dir layer).map (·.write text) := by
  cases layer <;> rfl

theorem Layers.dir_write_of_ne {fs : Layers} {text : Text} {layer layer' : Layer}
    (h : layer' ≠ layer) : (fs.write text layer).dir layer' = fs.dir layer' := by
  cases layer <;> cases layer' <;> first | rfl | exact absurd rfl h

omit [DecidableEq V] in
theorem Layers.entry_congr {fs fs' : Layers} {layer : Layer} (h : fs'.dir layer = fs.dir layer)
    (s : SectionId) (name : Text) : fs'.entry serde layer s name = fs.entry serde layer s name := by
  rw [Layers.entry, h, Layers.entry]

omit [DecidableEq V] in
theorem Dir.document_write {dir : Dir} {text : Text} {doc : Document V}
    (h : serde.fromStr text = .ok doc) : (dir.write text).document serde = .ok doc := by
  have hself : (dir.write text).files configYaml = some text := by
    show Function.update dir.files configYaml (some text) configYaml = some text
    exact Function.update_self _ _ _
  rw [Dir.document, hself]
  exact h

omit [DecidableEq V] in
theorem loadConfigLayer_of_document {dir : Dir} {doc : Document V}
    (h : dir.document serde = .ok doc) : loadConfigLayer serde dir = .ok doc.raw := by
  rw [loadConfigLayer, h]

theorem compute_eq_ok {fs : Layers} {c : Call} {text : Text} (h : compute serde fs c = .ok text) :
    ∃ dir raw raw', fs.dir c.layer = some dir ∧ loadConfigLayer serde dir = .ok raw ∧
      c.op.apply serde c.layer raw = .ok raw' ∧ serde.toStr raw' = .ok text := by
  obtain ⟨-, -, h⟩ := bind_eq_ok.1 h
  obtain ⟨dir, hdir, h⟩ := bind_eq_ok.1 h
  obtain ⟨raw, hraw, h⟩ := bind_eq_ok.1 h
  obtain ⟨raw', hraw', h⟩ := bind_eq_ok.1 h
  rw [mapError_eq_ok] at h
  refine ⟨dir, raw, raw', ?_, hraw, hraw', h⟩
  rw [layerDir] at hdir
  cases hlayer : fs.dir c.layer with
  | none =>
    rw [hlayer] at hdir
    cases hdir
  | some d =>
    rw [hlayer] at hdir
    cases hdir
    rfl

theorem call_eq_ok {fs fs' : Layers} {c : Call} (h : call serde fs c = .ok fs') :
    ∃ text, compute serde fs c = .ok text ∧ fs' = fs.write text c.layer := by
  obtain ⟨text, htext, h⟩ := bind_eq_ok.1 h
  cases h
  exact ⟨text, htext, rfl⟩

variable (serde)

/-- The further top-level keys of the `config.yaml` of a layer. -/
def Layers.rest (fs : Layers) (layer : Layer) : Finmap fun _ : Key V => V :=
  (fs.dir layer).elim ∅ fun dir =>
    match dir.document serde with
    | .ok doc => doc.rest
    | .error _ => ∅

/-- How the layers were read and how they are after the call. -/
structure Wrote (fs : Layers) (c : Call) (fs' : Layers) (raw raw' : RawConfigFile V) : Prop where
  changes : c.op.Changes serde raw raw'
  before : ∀ s name, fs.entry serde c.layer s name = (raw.get s).lookup name
  after : ∀ s name, fs'.entry serde c.layer s name = (raw'.get s).lookup name
  rest : fs'.rest serde c.layer = ∅
  readable : fs'.Readable serde c.layer
  other : ∀ layer, layer ≠ c.layer → fs'.dir layer = fs.dir layer
  files : ∀ dir dir', fs.dir c.layer = some dir → fs'.dir c.layer = some dir' →
    ∀ path, path ≠ configYaml → dir'.files path = dir.files path

variable {serde}

theorem call_wrote (hserde : serde.Lawful) {fs fs' : Layers} {c : Call}
    (h : call serde fs c = .ok fs') : ∃ raw raw', Wrote serde fs c fs' raw raw' := by
  obtain ⟨text, hcompute, rfl⟩ := call_eq_ok h
  obtain ⟨dir, raw, raw', hdir, hload, happly, htext⟩ := compute_eq_ok hcompute
  have hdir' : (fs.write text c.layer).dir c.layer = some (dir.write text) := by
    rw [Layers.dir_write_self, hdir, Option.map_some]
  have hdoc : (dir.write text).document serde = .ok ⟨raw', ∅⟩ :=
    Dir.document_write (hserde.fromStr_toStr raw' text htext)
  have hload' : loadConfigLayer serde (dir.write text) = .ok raw' :=
    loadConfigLayer_of_document hdoc
  refine ⟨raw, raw', Op.apply_changes hserde happly, Layers.entry_of_load hdir hload,
    Layers.entry_of_load hdir' hload', ?_, ?_, fun layer hne => Layers.dir_write_of_ne hne, ?_⟩
  · rw [Layers.rest, hdir', Option.elim_some, hdoc]
  · intro d hd
    rw [hdir', Option.some.injEq] at hd
    exact ⟨raw', hd ▸ hload'⟩
  · intro d d' hd hd' path hpath
    rw [hdir, Option.some.injEq] at hd
    rw [hdir', Option.some.injEq] at hd'
    rw [← hd, ← hd', Dir.write]
    exact Function.update_of_ne hpath _ _

/-! ## The frame of a call -/

variable (serde)

structure Frame (fs : Layers) (c : Call) (fs' : Layers) : Prop where
  /-- The other layer is as it was. -/
  other : ∀ layer, layer ≠ c.layer → fs'.dir layer = fs.dir layer
  /-- The other files of the layer are as they were. -/
  files : ∀ dir dir', fs.dir c.layer = some dir → fs'.dir c.layer = some dir' →
    ∀ path, path ≠ configYaml → dir'.files path = dir.files path
  /-- So are the further top-level keys. -/
  rest : fs'.rest serde c.layer = fs.rest serde c.layer
  /-- So are the other entries. -/
  entries : ∀ s name, (s, name) ≠ c.op.target →
    fs'.entry serde c.layer s name = fs.entry serde c.layer s name
  /-- So are the keys of the entry that a patch does not name. -/
  fields : ∀ kind name patch, c.op = .update kind name patch → ∀ key, key ∉ patchKeys patch →
    (fs'.entry serde c.layer kind.section name).bind (·.field key) =
      (fs.entry serde c.layer kind.section name).bind (·.field key)
  /-- The change itself is there. -/
  shows : c.op.Shows serde (fs'.entry serde c.layer c.op.target.1 c.op.target.2)
  /-- The merge shows the entry of the workspace, and the global one where that has none. -/
  merge : ∀ m, fs'.loadMergedConfig serde = .ok m → ∀ s name, (m.get s).lookup name =
    (fs'.entry serde .workspace s name).or (fs'.entry serde .global s name)
  merged : ∀ s name, (s, name) ≠ c.op.target → fs'.merged serde s name = fs.merged serde s name
  /-- What a deletion in the workspace hid is visible again. -/
  uncovered : ∀ kind name, c.op = .delete kind name → c.layer = .workspace →
    fs'.merged serde kind.section name = fs.entry serde .global kind.section name
  /-- A listing changes for the name only. -/
  listing : ∀ kind items, fs.listEntries serde kind = .ok items →
    ∃ items', fs'.listEntries serde kind = .ok items' ∧ ∀ name item,
      (kind.section, name) ≠ c.op.target → ((name, item) ∈ items' ↔ (name, item) ∈ items)
  source : ∀ kind items, fs'.listSourced serde kind = .ok items → ∀ name item source,
    (name, item, source) ∈ items → fs'.Reported serde kind name item source

/-- When a call that succeeds changes its entry and nothing else. -/
structure Safe (fs : Layers) (c : Call) : Prop where
  rest : fs.rest serde c.layer = ∅
  fields : ∀ kind name patch entry obj, c.op = .update kind name patch →
    fs.entry serde c.layer kind.section name = some entry → entry.toObject serde = .ok (some obj) →
      ∀ key, key ∉ patchKeys patch → (Entry.ofObject serde obj).field key = entry.field key
  uncovered : ∀ kind name value, c.op = .delete kind name → c.layer = .workspace →
    (∃ items, fs.listEntries serde kind = .ok items) →
      fs.entry serde .global kind.section name = some value →
        ∃ item, serde.fromValue kind value = .ok item

variable {serde} {fs fs' : Layers} {c : Call} {raw raw' : RawConfigFile V}

namespace Wrote

theorem entry_of_ne (h : Wrote serde fs c fs' raw raw') {layer : Layer} {s : SectionId}
    {name : Text} (hne : (s, name) ≠ c.op.target) :
    fs'.entry serde layer s name = fs.entry serde layer s name := by
  by_cases hlayer : layer = c.layer
  · subst hlayer
    rw [h.after, h.before, h.changes.others s name hne]
  · exact Layers.entry_congr (h.other layer hlayer) s name

theorem merged_of_ne (h : Wrote serde fs c fs' raw raw') {s : SectionId} {name : Text}
    (hne : (s, name) ≠ c.op.target) : fs'.merged serde s name = fs.merged serde s name := by
  rw [Layers.merged, h.entry_of_ne hne, h.entry_of_ne hne, Layers.merged]

theorem readable_of (h : Wrote serde fs c fs' raw raw') (hread : ∀ layer, fs.Readable serde layer)
    (layer : Layer) : fs'.Readable serde layer := by
  by_cases hlayer : layer = c.layer
  · subst hlayer
    exact h.readable
  · intro dir hdir
    rw [h.other layer hlayer] at hdir
    exact hread layer dir hdir

/-- A deletion in the workspace leaves the global entry. -/
theorem merged_delete (h : Wrote serde fs c fs' raw raw') {kind : Kind} {name : Text}
    (hop : c.op = .delete kind name) (hlayer : c.layer = .workspace) :
    fs'.merged serde kind.section name = fs.entry serde .global kind.section name := by
  have hnone : fs'.entry serde .workspace kind.section name = none := by
    have hshows := h.changes.shows
    rw [hop] at hshows
    rw [← hlayer, h.after]
    exact hshows
  have hglobal : fs'.entry serde .global kind.section name =
      fs.entry serde .global kind.section name := by
    refine Layers.entry_congr (h.other .global ?_) _ _
    rw [hlayer]
    decide
  rw [Layers.merged, hnone, hglobal, Option.none_or]

/-- What is shown for the entry of the call can be read, when it could be before and the
deletion does not uncover an entry that cannot. -/
theorem fromValue_target (h : Wrote serde fs c fs' raw raw') {kind : Kind} {name : Text}
    (htarget : (kind.section, name) = c.op.target)
    (hbefore : ∀ value, fs.merged serde kind.section name = some value →
      ∃ item, serde.fromValue kind value = .ok item)
    (huncovered : ∀ value, c.op = .delete kind name → c.layer = .workspace →
      fs.entry serde .global kind.section name = some value →
        ∃ item, serde.fromValue kind value = .ok item)
    {value : Entry V} (hvalue : fs'.merged serde kind.section name = some value) :
    ∃ item, serde.fromValue kind value = .ok item := by
  have hsection : c.op.target.1 = kind.section := by rw [← htarget]
  have hwritten : ∀ v, fs'.entry serde c.layer kind.section name = some v →
      ∃ item, serde.fromValue kind v = .ok item := by
    intro v hv
    refine h.changes.readable kind v hsection ?_
    rw [h.after] at hv
    rw [← htarget]
    exact hv
  rw [Layers.merged] at hvalue
  cases hlayer : c.layer with
  | global =>
    have hws : fs'.entry serde .workspace kind.section name =
        fs.entry serde .workspace kind.section name := by
      refine Layers.entry_congr (h.other .workspace ?_) _ _
      rw [hlayer]
      decide
    rw [hws] at hvalue
    cases hsome : fs.entry serde .workspace kind.section name with
    | some v =>
      rw [hsome, Option.some_or] at hvalue
      refine hbefore value ?_
      rw [Layers.merged, hsome, Option.some_or]
      exact hvalue
    | none =>
      rw [hsome, Option.none_or, ← hlayer] at hvalue
      exact hwritten value hvalue
  | workspace =>
    rw [hlayer] at hwritten
    cases hsome : fs'.entry serde .workspace kind.section name with
    | some v =>
      rw [hsome, Option.some_or] at hvalue
      exact hwritten value (hsome.trans hvalue)
    | none =>
      rw [hsome, Option.none_or] at hvalue
      have hglobal : fs'.entry serde .global kind.section name =
          fs.entry serde .global kind.section name := by
        refine Layers.entry_congr (h.other .global ?_) _ _
        rw [hlayer]
        decide
      rw [hglobal] at hvalue
      have hshows := h.changes.shows
      rw [← htarget, ← h.after, hlayer, hsome] at hshows
      cases hop : c.op with
      | create item =>
        rw [hop] at hshows
        cases hshows
      | update kind' name' patch =>
        rw [hop] at hshows
        obtain ⟨entry, hentry, -⟩ := hshows
        cases hentry
      | delete kind' name' =>
        rw [hop] at htarget
        obtain ⟨hkind, hname⟩ := Prod.mk.inj htarget
        cases Kind.section_inj.1 hkind
        subst hname
        exact huncovered value hop hlayer hvalue
      | setDefaultAgent name' =>
        rw [hop] at hshows
        cases hshows

/-- The keys that a patch does not name are as the conversion to JSON and back leaves them. -/
theorem field_update (h : Wrote serde fs c fs' raw raw') {kind : Kind} {name : Text} {patch : Json}
    (hop : c.op = .update kind name patch) :
    ∃ entry obj, fs.entry serde c.layer kind.section name = some entry ∧
      entry.toObject serde = .ok (some obj) ∧ ∀ key, key ∉ patchKeys patch →
        (fs'.entry serde c.layer kind.section name).bind (·.field key) =
          (Entry.ofObject serde obj).field key := by
  obtain ⟨entry, obj, fields, hentry, hobj, rfl, hnew⟩ := h.changes.patched kind name patch hop
  refine ⟨entry, obj, ?_, hobj, ?_⟩
  · rw [h.before]
    exact hentry
  · intro key hkey
    rw [h.after, hnew, Option.bind_some]
    exact field_patched hkey

theorem listing (h : Wrote serde fs c fs' raw raw') {kind : Kind} {items : List (Text × E)}
    (hitems : fs.listEntries serde kind = .ok items)
    (huncovered : ∀ name value, c.op = .delete kind name → c.layer = .workspace →
      fs.entry serde .global kind.section name = some value →
        ∃ item, serde.fromValue kind value = .ok item) :
    ∃ items', fs'.listEntries serde kind = .ok items' ∧ ∀ name item,
      (kind.section, name) ≠ c.op.target → ((name, item) ∈ items' ↔ (name, item) ∈ items) := by
  obtain ⟨hread, hvalues⟩ := Layers.exists_listEntries.1 ⟨items, hitems⟩
  have hvalues' : ∀ name value, fs'.merged serde kind.section name = some value →
      ∃ item, serde.fromValue kind value = .ok item := by
    intro name value hvalue
    by_cases htarget : (kind.section, name) = c.op.target
    · exact h.fromValue_target htarget (hvalues name) (huncovered name) hvalue
    · rw [h.merged_of_ne htarget] at hvalue
      exact hvalues name value hvalue
  obtain ⟨items', hitems'⟩ := Layers.exists_listEntries.2 ⟨h.readable_of hread, hvalues'⟩
  refine ⟨items', hitems', ?_⟩
  intro name item hne
  rw [Layers.mem_listEntries hitems', Layers.mem_listEntries hitems, h.merged_of_ne hne]

end Wrote

/-- A call that succeeds changes its entry and nothing else exactly when it is safe. -/
theorem frame_iff (hserde : serde.Lawful) (h : call serde fs c = .ok fs') :
    Frame serde fs c fs' ↔ Safe serde fs c := by
  obtain ⟨raw, raw', hw⟩ := call_wrote hserde h
  constructor
  · intro hframe
    refine ⟨?_, ?_, ?_⟩
    · rw [← hframe.rest]
      exact hw.rest
    · intro kind name patch entry obj hop hentry hobj key hkey
      obtain ⟨entry', obj', hentry', hobj', hfield⟩ := hw.field_update hop
      rw [hentry, Option.some.injEq] at hentry'
      subst hentry'
      rw [hobj] at hobj'
      cases hobj'
      have hsame := hframe.fields kind name patch hop key hkey
      rw [hfield key hkey, hentry, Option.bind_some] at hsame
      exact hsame
    · rintro kind name value hop hlayer ⟨items, hitems⟩ hvalue
      obtain ⟨items', hitems', -⟩ := hframe.listing kind items hitems
      refine (Layers.exists_listEntries.1 ⟨items', hitems'⟩).2 name value ?_
      rw [hw.merged_delete hop hlayer]
      exact hvalue
  · intro hsafe
    refine ⟨hw.other, hw.files, ?_, fun s name hne => hw.entry_of_ne hne, ?_, ?_, ?_,
      fun s name hne => hw.merged_of_ne hne,
      fun kind name hop hlayer => hw.merged_delete hop hlayer, ?_,
      fun kind items hitems name item source hmem => Layers.mem_listSourced hitems hmem⟩
    · rw [hw.rest, hsafe.rest]
    · intro kind name patch hop key hkey
      obtain ⟨entry, obj, hentry, hobj, hfield⟩ := hw.field_update hop
      rw [hfield key hkey, hentry, Option.bind_some]
      exact hsafe.fields kind name patch entry obj hop hentry hobj key hkey
    · rw [hw.after]
      exact hw.changes.shows
    · intro m hm s name
      exact (Layers.loadMergedConfig_eq_ok hm).2 s name
    · intro kind items hitems
      refine hw.listing hitems ?_
      intro name value hop hlayer hvalue
      exact hsafe.uncovered kind name value hop hlayer ⟨items, hitems⟩ hvalue

end Vanyline.Cfgstore
