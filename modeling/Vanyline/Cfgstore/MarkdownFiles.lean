import Vanyline.Cfgstore.ToolsetFiles

/-!
# Agents and skills are read as they were written

An agent or a skill that the store accepts should come back with its text trimmed and everything
else unchanged.

* `RawAgentFrontmatter.ofJson` and `RawSkillFrontmatter.ofJson` are what the derived
  implementations read of a value, and `ofJson_agentFront` and `ofJson_skillFront` what they read
  of the written forms.
* `NewFile` is what the creation of a file makes of the store.  The other skills are shown and read
  as before (`NewFile.shown_other`, `NewFile.readItem_other`).
* `readBack_iff` has the exact condition (`Created.Safe`).  A line that ends with CR LF in the
  text loses its CR, and the library does not get the last line feed of the front matter.
-/

namespace Vanyline.Cfgstore

open Vanyline.Lib
open Vanyline.Lib.TextLines (trim)

/-! ## What is read of a value -/

def AgentMode.ofText (text : Text) : Option AgentMode :=
  if text = AgentMode.primary.text then some .primary
  else if text = AgentMode.subagent.text then some .subagent
  else if text = AgentMode.all.text then some .all
  else none

/-- The mode, which is `primary` by default. -/
def agentMode : Option Json → Option AgentMode
  | none => some .primary
  | some (.str text) => AgentMode.ofText text
  | some _ => none

def SkillSelection.ofJson : Json → Option SkillSelection
  | .str text =>
    if text = "auto".toList then some .auto
    else if text = "none".toList then some .none
    else none
  | .arr items => (items.mapM textItem).map .named
  | _ => none

/-- The selection of skills, which is `auto` by default. -/
def skillSelection : Option Json → Option SkillSelection
  | none => some .auto
  | some value => SkillSelection.ofJson value

def RawAgentFrontmatter.ofJson : Json → Option RawAgentFrontmatter
  | .obj fields => do
    let description ← optionalText (Json.get "description" (.obj fields))
    let mode ← agentMode (Json.get "mode" (.obj fields))
    let model ← (Json.get "model" (.obj fields)).bind textItem
    let toolsets ← textList (Json.get "toolsets" (.obj fields))
    let skills ← skillSelection (Json.get "skills" (.obj fields))
    return { description, mode, model, toolsets, skills }
  | _ => none

def RawSkillFrontmatter.ofJson : Json → Option RawSkillFrontmatter
  | .obj fields => do
    let description ← (Json.get "description" (.obj fields)).bind textItem
    return { description }
  | _ => none

/-- A mapping is printed on lines none of which is `---`, and is read as the value that it was
printed from. -/
structure FileSerde.ReadsFront (yaml : FileSerde) : Prop where
  printed : ∀ fields text, yaml.toStr (.obj fields) = .ok text → Printed text
  agent : ∀ value text raw, yaml.toStr value = .ok text →
    RawAgentFrontmatter.ofJson value = some raw → yaml.agent text = .ok raw
  skill : ∀ value text raw, yaml.toStr value = .ok text →
    RawSkillFrontmatter.ofJson value = some raw → yaml.skill text = .ok raw

theorem AgentMode.ofText_text (mode : AgentMode) : AgentMode.ofText mode.text = some mode := by
  cases mode <;> rfl

theorem SkillSelection.ofJson_toJson (skills : SkillSelection) :
    SkillSelection.ofJson skills.toJson = some skills := by
  cases skills with
  | auto => rfl
  | none => rfl
  | named names =>
    show ((names.map Json.str).mapM textItem).map SkillSelection.named = _
    rw [mapM_textItem]
    rfl

/-- The written form of an agent is read as the agent. -/
theorem ofJson_agentFront (a : Agent) : RawAgentFrontmatter.ofJson a.front = some a.raw := by
  have hdescription : a.front.get "description" = a.description.map .str := by
    unfold Agent.front
    rw [get_object_append, get_object_append, get_optionField_self,
      get_optionField_ne (by decide), Json.get_object_ne (by decide),
      Json.get_object_ne (by decide), Json.get_object_ne (by decide)]
    cases a.description <;> rfl
  have hmiddle : ∀ key value, (Json.object [("mode", .str a.mode.text), ("model", .str a.model),
      ("skills", a.skills.toJson)]).get key = some value →
      (key.toList == "description".toList) = false → a.front.get key = some value := by
    intro key value hvalue hkey
    unfold Agent.front
    rw [get_object_append, get_object_append, get_optionField_ne hkey, hvalue]
    rfl
  have hmode := hmiddle "mode" _ (Json.get_object_self ..) (by decide)
  have hmodel : a.front.get "model" = some (.str a.model) := by
    apply hmiddle "model" _ _ (by decide)
    rw [Json.get_object_ne (by decide)]
    exact Json.get_object_self ..
  have hskills : a.front.get "skills" = some a.skills.toJson := by
    apply hmiddle "skills" _ _ (by decide)
    rw [Json.get_object_ne (by decide), Json.get_object_ne (by decide)]
    exact Json.get_object_self ..
  have htoolsets : a.front.get "toolsets" = if a.toolsets.isEmpty then none
      else some (.arr (a.toolsets.map .str)) := by
    unfold Agent.front
    rw [get_object_append, get_object_append, get_optionField_ne (by decide),
      get_optionField_self, Json.get_object_ne (by decide), Json.get_object_ne (by decide),
      Json.get_object_ne (by decide)]
    rfl
  show ((optionalText (a.front.get "description")).bind fun description =>
    (agentMode (a.front.get "mode")).bind fun mode =>
      ((a.front.get "model").bind textItem).bind fun model =>
        (textList (a.front.get "toolsets")).bind fun toolsets =>
          (skillSelection (a.front.get "skills")).bind fun skills =>
            some (RawAgentFrontmatter.mk description mode model toolsets skills)) = _
  rw [hdescription, hmode, hmodel, hskills, htoolsets, optionalText_map, textList_written]
  show ((AgentMode.ofText a.mode.text).bind fun mode =>
    (SkillSelection.ofJson a.skills.toJson).bind fun skills =>
      some (RawAgentFrontmatter.mk a.description mode a.model a.toolsets skills)) = _
  rw [AgentMode.ofText_text, SkillSelection.ofJson_toJson]
  rfl

theorem ofJson_skillFront (s : SkillMeta) :
    RawSkillFrontmatter.ofJson s.front = some ⟨s.description⟩ := by
  show (((Json.object [("description", .str s.description), ("name", .str s.name)]).get
    "description").bind textItem).bind (fun description =>
      some (RawSkillFrontmatter.mk description)) = _
  rw [Json.get_object_self]
  rfl

/-! ## What is claimed -/

/-- What is created: an agent, or a skill with its body. -/
inductive Created
  | agent (item : Agent)
  | skill (info : SkillMeta) (body : Text)

namespace FsConfigStore

/-- The skill that is shown of a name: the one of the workspace, or the global one. -/
def shown (fs : FsConfigStore) (name : Text) : Option FilePath :=
  (fs.skillIn .workspace name).or (fs.skillIn .global name)

/-- The skill that hides one of the layer. -/
def hiddenBy (fs : FsConfigStore) (layer : Layer) (name : Text) : Option FilePath :=
  match layer with
  | .workspace => none
  | .global => fs.skillIn .workspace name

/-- All other skills that are shown can be read. -/
def OthersRead {V E : Type} (serde : StoreSerde V E) (fs : FsConfigStore) (name : Text) : Prop :=
  ∀ other path, other ≠ name → fs.shown other = some path →
    ∃ item, readItem (parseSkillFile serde.files) fs (other, path) = .ok item

end FsConfigStore

/-- The library reads the front matter as it reads the text that it has printed. -/
def FileSerde.KeepsFront {α : Type} (yaml : FileSerde) (read : Text → Except Text α)
    (front : Json) : Prop :=
  ∀ text, yaml.toStr front = .ok text → Rejoins read text

/-- A skill is kept as it is, where `hidden` is the skill that hides it: that one is the same, or
there is none, no line of the body but the last one ends with CR LF, and the front matter is
kept. -/
def FsConfigStore.KeepsSkill {V E : Type} (serde : StoreSerde V E) (fs : FsConfigStore)
    (info : SkillMeta) (body : Text) : Option FilePath → Prop
  | some hidden =>
    readItem (parseSkillFile serde.files) fs (info.name, hidden) = .ok info ∧
      readItem (fun _ => skillBody) fs (info.name, hidden) = .ok (trim body)
  | none => LineFeedsOnly body ∧ serde.files.KeepsFront serde.files.skill info.front

namespace Created

variable {V E : Type}

def op : Created → StoreOp
  | agent item => .createAgent item
  | skill info body => .createSkill info body

/-- The file of an agent is read as the agent, and a skill is listed and loaded as it is. -/
def ReadBack (serde : StoreSerde V E) (fs : FsConfigStore) (layer : Layer) : Created → Prop
  | agent item => FsConfigStore.readItem (parseAgentFile serde.files) fs
      (item.name, ⟨layer, FileKind.agent.pathOf item.name⟩) = .ok item.trimmed
  | skill info body =>
    (∃ items, fs.listSkills serde = .ok items ∧ info ∈ items) ∧
      fs.loadSkill info.name = .ok (trim body)

/-- No line of the text but the last one ends with CR LF, and the front matter is kept.  For a
skill all others have to be readable too. -/
def Safe (serde : StoreSerde V E) (fs : FsConfigStore) (layer : Layer) : Created → Prop
  | agent item => LineFeedsOnly item.systemPrompt ∧
      serde.files.KeepsFront serde.files.agent item.front
  | skill info body => fs.Listable ∧ fs.OthersRead serde info.name ∧
      fs.KeepsSkill serde info body (fs.hiddenBy layer info.name)

end Created

/-! ## The listing of skills -/

variable {V E : Type} {serde : StoreSerde V E} {fs fs' : FsConfigStore} {layer : Layer}

namespace FsConfigStore

theorem name_of_readItem {entry : Text × FilePath} {item : SkillMeta}
    (h : readItem (parseSkillFile serde.files) fs entry = .ok item) : item.name = entry.1 := by
  obtain ⟨file, -, hparse⟩ := bind_eq_ok.1 h
  obtain ⟨front, -, hraw⟩ := bind_eq_ok.1 hparse
  obtain ⟨raw, -, hitem⟩ := bind_eq_ok.1 hraw
  rw [← Except.ok.inj hitem]

theorem exists_readAll {α : Type} {parse : Text → Text → Text → Except CfgStoreError α}
    {entries : List (Text × FilePath)}
    (h : ∀ entry ∈ entries, ∃ item, readItem parse fs entry = .ok item) :
    ∃ items, readAll parse fs entries = .ok items := by
  induction entries with
  | nil => exact ⟨[], rfl⟩
  | cons entry rest ih =>
    obtain ⟨item, hitem⟩ := h entry List.mem_cons_self
    obtain ⟨items, hitems⟩ := ih fun other hother => h other (List.mem_cons_of_mem _ hother)
    exact ⟨item :: items, bind_eq_ok.2 ⟨item, hitem, bind_eq_ok.2 ⟨items, hitems, rfl⟩⟩⟩

/-- Each file of a listing is read as one of its items. -/
theorem mem_of_readAll {α : Type} {parse : Text → Text → Text → Except CfgStoreError α}
    {entries : List (Text × FilePath)} {items : List α} (h : readAll parse fs entries = .ok items)
    {entry : Text × FilePath} (hentry : entry ∈ entries) :
    ∃ item ∈ items, readItem parse fs entry = .ok item := by
  have hread := readAll_eq_ok.1 h
  clear h
  induction hread with
  | nil => cases hentry
  | @cons first item rest items hfirst _ ih =>
    rcases List.mem_cons.1 hentry with hself | hmem
    · rw [hself]
      exact ⟨item, List.mem_cons_self, hfirst⟩
    · obtain ⟨other, hother, hread⟩ := ih hmem
      exact ⟨other, List.mem_cons_of_mem _ hother, hread⟩

/-- A skill is listed when all can be read, and the one that is shown is the skill. -/
theorem listSkills_iff {info : SkillMeta} :
    (∃ items, fs.listSkills serde = .ok items ∧ info ∈ items) ↔
      fs.Listable ∧ fs.OthersRead serde info.name ∧
        ∃ path, fs.shown info.name = some path ∧
          readItem (parseSkillFile serde.files) fs (info.name, path) = .ok info := by
  constructor
  · intro h
    obtain ⟨items, hitems, hinfo⟩ := h
    obtain ⟨files, hfiles, hread⟩ := bind_eq_ok.1 hitems
    have hlookup := fun name => lookup_resolve hfiles name
    refine ⟨resolve_skill.1 ⟨files, hfiles⟩, ?_, ?_⟩
    · intro other path _ hshown
      have hmem : (other, path) ∈ files.entries :=
        SortedMap.mem_entries_iff.2 ((hlookup other).trans hshown)
      obtain ⟨item, -, hitem⟩ := mem_of_readAll hread hmem
      exact ⟨item, hitem⟩
    · obtain ⟨⟨name, path⟩, hentry, hitem⟩ := exists_of_mem_readAll hread hinfo
      have hname : info.name = name := name_of_readItem hitem
      rw [hname]
      exact ⟨path, (hlookup name).symm.trans (SortedMap.mem_entries_iff.1 hentry), hitem⟩
  · intro h
    obtain ⟨hlistable, hothers, path, hshown, hinfo⟩ := h
    obtain ⟨files, hfiles⟩ := resolve_skill.2 hlistable
    have hlookup := fun name => lookup_resolve hfiles name
    have hall : ∀ entry ∈ files.entries,
        ∃ item, readItem (parseSkillFile serde.files) fs entry = .ok item := by
      intro entry hentry
      obtain ⟨name, found⟩ := entry
      have hfound := (hlookup name).symm.trans (SortedMap.mem_entries_iff.1 hentry)
      by_cases hname : name = info.name
      · rw [hname] at hfound ⊢
        have hpath : some path = some found := hshown.symm.trans hfound
        rw [← Option.some.inj hpath]
        exact ⟨info, hinfo⟩
      · exact hothers name found hname hfound
    obtain ⟨items, hitems⟩ := exists_readAll hall
    have hmem : (info.name, path) ∈ files.entries :=
      SortedMap.mem_entries_iff.2 ((hlookup info.name).trans hshown)
    obtain ⟨item, hitem, hread⟩ := mem_of_readAll hitems hmem
    rw [hinfo] at hread
    rw [← Except.ok.inj hread] at hitem
    exact ⟨items, bind_eq_ok.2 ⟨files, hfiles, hitems⟩, hitem⟩

theorem loadSkill_iff {name body : Text} :
    fs.loadSkill name = .ok body ↔ fs.Listable ∧ ∃ path, fs.shown name = some path ∧
      readItem (fun _ => skillBody) fs (name, path) = .ok body := by
  unfold loadSkill
  rw [bind_eq_ok]
  constructor
  · intro h
    obtain ⟨files, hfiles, hload⟩ := h
    have hshown : files.lookup name = fs.shown name := lookup_resolve hfiles name
    refine ⟨resolve_skill.1 ⟨files, hfiles⟩, ?_⟩
    rw [← hshown]
    cases hlookup : files.lookup name with
    | none =>
      rw [hlookup] at hload
      cases hload
    | some path =>
      rw [hlookup] at hload
      exact ⟨path, rfl, hload⟩
  · intro h
    obtain ⟨hlistable, path, hshown, hload⟩ := h
    obtain ⟨files, hfiles⟩ := resolve_skill.2 hlistable
    have hlookup : files.lookup name = fs.shown name := lookup_resolve hfiles name
    refine ⟨files, hfiles, ?_⟩
    rw [hlookup, hshown]
    exact hload

end FsConfigStore

/-! ## The store after a creation -/

/-- The file of the name is new in the layer. -/
structure NewFile (kind : FileKind) (layer : Layer) (name text : Text) (dir : LayerDir) (t : Tree)
    (fs fs' : FsConfigStore) : Prop where
  before : fs.dir layer = some dir
  after : fs' = fs.setTree t layer
  listed : ∃ files, kind.list dir.tree = .ok files ∧ files.lookup name = none
  file : Written (kind.pathOf name) text dir.tree t

theorem newFile_of_exec [DecidableEq V] {kind : FileKind} {name : Text}
    {content : Except CfgStoreError Text} {op : StoreOp}
    (hop : ∀ path, op.mutate serde path layer = kind.createFile name content layer)
    (h : (FsConfigStore.call serde ⟨layer, op⟩).exec fs = (.ok (), fs')) :
    ∃ text dir t, content = .ok text ∧ NewFile kind layer name text dir t fs fs' := by
  rcases FsConfigStore.exec_call h with ⟨e, herror, -⟩ | ⟨dir, t, -, hdir, hexec, hafter⟩
  · cases herror
  · dsimp only at hexec
    rw [hop] at hexec
    obtain ⟨files, text, hlist, hlookup, hcontent, hwritten⟩ := FileKind.exec_createFile_ok hexec
    exact ⟨text, dir, t, hcontent, hdir, hafter, ⟨files, hlist, hlookup⟩, hwritten⟩

namespace NewFile

variable {kind : FileKind} {name text : Text} {dir : LayerDir} {t : Tree}

theorem dir_self (h : NewFile kind layer name text dir t fs fs') :
    fs'.dir layer = some { dir with tree := t } := by
  rw [h.after, FsConfigStore.dir_setTree_self, h.before]
  rfl

theorem dir_other (h : NewFile kind layer name text dir t fs fs') {other : Layer}
    (hne : other ≠ layer) : fs'.dir other = fs.dir other := by
  rw [h.after, FsConfigStore.dir_setTree_of_ne hne]

theorem readItem_self (h : NewFile kind layer name text dir t fs fs') {α : Type}
    (parse : Text → Text → Text → Except CfgStoreError α) :
    FsConfigStore.readItem parse fs' (name, ⟨layer, kind.pathOf name⟩) =
      parse name (display dir.path (kind.pathOf name)) text :=
  readItem_of_file h.dir_self h.file.readToString_self

/-! ### Skills -/

variable (h : NewFile .skill layer name text dir t fs fs')

include h

theorem skillIn_self : fs'.skillIn layer name = some ⟨layer, FileKind.skill.pathOf name⟩ := by
  unfold FsConfigStore.skillIn
  rw [h.dir_self]
  exact if_pos (DirTree.isFile_iff.2 ⟨_, h.file.file⟩)

theorem skillIn_other {layer' : Layer} {other : Text} (hne : layer' ≠ layer ∨ other ≠ name) :
    fs'.skillIn layer' other = fs.skillIn layer' other := by
  unfold FsConfigStore.skillIn
  by_cases hlayer : layer' = layer
  · rw [hlayer, h.dir_self, h.before]
    have hpath : FileKind.skill.pathOf other ≠ FileKind.skill.pathOf name := by
      intro heq
      exact hne.elim (fun hne => hne hlayer) fun hne => hne (by cases heq; rfl)
    dsimp only
    rw [h.file.isFile_eq hpath]
  · rw [h.dir_other hlayer]

/-- The other skills are read as before. -/
theorem readItem_other {layer' : Layer} {other : Text} {path : FilePath}
    (hne : layer' ≠ layer ∨ other ≠ name) (hpath : fs.skillIn layer' other = some path)
    {α : Type} (parse : Text → Text → Text → Except CfgStoreError α) (key : Text) :
    FsConfigStore.readItem parse fs' (key, path) = FsConfigStore.readItem parse fs (key, path) := by
  unfold FsConfigStore.skillIn at hpath
  cases hdir : fs.dir layer' with
  | none =>
    rw [hdir] at hpath
    cases hpath
  | some dir' =>
    rw [hdir] at hpath
    dsimp only at hpath
    split_ifs at hpath with hfile
    cases hpath
    unfold FsConfigStore.readItem FsConfigStore.readPath
    dsimp only
    by_cases hlayer : layer' = layer
    · subst hlayer
      have hother : FileKind.skill.pathOf other ≠ FileKind.skill.pathOf name := by
        intro heq
        exact hne.elim (fun hne => hne rfl) fun hne => hne (by cases heq; rfl)
      have hsame : dir' = dir := Option.some.inj (hdir.symm.trans h.before)
      rw [hsame] at hfile
      rw [h.dir_self, h.before]
      dsimp only
      rw [h.file.readToString_eq hother hfile]
    · rw [h.dir_other hlayer]

theorem listable_iff : fs'.Listable ↔ fs.Listable := by
  have hskills : ∃ files, FileKind.skill.list t = .ok files := by
    have hchild : t.node ([FileKind.skill.subdir] ++ [name]) = some .dir :=
      DirTree.isDir_of_child h.file.file
    exact ⟨_, bind_eq_ok.2 ⟨_, namesIn_of_isDir (DirTree.isDir_of_child hchild), rfl⟩⟩
  constructor
  · intro hlist layer' dir' hdir
    by_cases hlayer : layer' = layer
    · rw [hlayer, h.before] at hdir
      cases hdir
      obtain ⟨files, hfiles, -⟩ := h.listed
      exact ⟨files, hfiles⟩
    · exact hlist layer' dir' ((h.dir_other hlayer).trans hdir)
  · intro hlist layer' dir' hdir
    by_cases hlayer : layer' = layer
    · rw [hlayer, h.dir_self] at hdir
      cases hdir
      exact hskills
    · exact hlist layer' dir' ((h.dir_other hlayer).symm.trans hdir)

theorem shown_other {other : Text} (hne : other ≠ name) : fs'.shown other = fs.shown other := by
  unfold FsConfigStore.shown
  rw [h.skillIn_other (.inr hne), h.skillIn_other (.inr hne)]

theorem shown_self : fs'.shown name =
    (fs.hiddenBy layer name).or (some ⟨layer, FileKind.skill.pathOf name⟩) := by
  unfold FsConfigStore.shown
  cases layer with
  | workspace =>
    rw [h.skillIn_self]
    rfl
  | global =>
    rw [h.skillIn_self, h.skillIn_other (.inl (by decide))]
    rfl

theorem othersRead_iff : fs'.OthersRead serde name ↔ fs.OthersRead serde name := by
  have hread : ∀ other path, other ≠ name → fs.shown other = some path →
      FsConfigStore.readItem (parseSkillFile serde.files) fs' (other, path) =
        FsConfigStore.readItem (parseSkillFile serde.files) fs (other, path) := by
    intro other path hne hshown
    rcases Option.or_eq_some_iff.1 hshown with hworkspace | ⟨-, hglobal⟩
    · exact h.readItem_other (.inr hne) hworkspace _ _
    · exact h.readItem_other (.inr hne) hglobal _ _
  constructor
  · intro hothers other path hne hshown
    rw [← hread other path hne hshown]
    exact hothers other path hne ((h.shown_other hne).trans hshown)
  · intro hothers other path hne hshown
    rw [h.shown_other hne] at hshown
    rw [hread other path hne hshown]
    exact hothers other path hne hshown

end NewFile

/-! ## What is read of it -/

theorem keepsFront_iff {α : Type} {yaml : FileSerde} {read : Text → Except Text α} {front : Json}
    {text : Text} (h : yaml.toStr front = .ok text) :
    yaml.KeepsFront read front ↔ Rejoins read text := by
  constructor
  · intro hkeeps
    exact hkeeps text h
  · intro hrejoins text' htext
    rw [h] at htext
    rw [← Except.ok.inj htext]
    exact hrejoins

theorem readBack_agent_iff [DecidableEq V] (hyaml : serde.files.ReadsFront) {item : Agent}
    (h : (FsConfigStore.call serde ⟨layer, .createAgent item⟩).exec fs = (.ok (), fs')) :
    (Created.agent item).ReadBack serde fs' layer ↔ (Created.agent item).Safe serde fs layer := by
  obtain ⟨text, dir, t, hcontent, hnew⟩ := newFile_of_exec (fun _ => rfl) h
  obtain ⟨front, hfront, htext⟩ := bind_eq_ok.1 hcontent
  have hprinted : serde.files.toStr item.front = .ok front := mapError_eq_ok.1 hfront
  have hread := hyaml.agent _ _ _ hprinted (ofJson_agentFront item)
  show FsConfigStore.readItem (parseAgentFile serde.files) fs'
    (item.name, ⟨layer, FileKind.agent.pathOf item.name⟩) = .ok item.trimmed ↔
      LineFeedsOnly item.systemPrompt ∧ serde.files.KeepsFront serde.files.agent item.front
  rw [hnew.readItem_self, ← Except.ok.inj htext, keepsFront_iff hprinted]
  exact parseAgentFile_written (hyaml.printed _ _ hprinted) hread _

theorem readBack_skill_iff [DecidableEq V] (hyaml : serde.files.ReadsFront) {info : SkillMeta}
    {body : Text}
    (h : (FsConfigStore.call serde ⟨layer, .createSkill info body⟩).exec fs = (.ok (), fs')) :
    (Created.skill info body).ReadBack serde fs' layer ↔
      (Created.skill info body).Safe serde fs layer := by
  obtain ⟨text, dir, t, hcontent, hnew⟩ := newFile_of_exec (fun _ => rfl) h
  obtain ⟨front, hfront, htext⟩ := bind_eq_ok.1 hcontent
  have hprinted : serde.files.toStr info.front = .ok front := mapError_eq_ok.1 hfront
  have hread := hyaml.skill _ _ _ hprinted (ofJson_skillFront info)
  have hplain := hyaml.printed _ _ hprinted
  have hlisted : FsConfigStore.readItem (parseSkillFile serde.files) fs'
      (info.name, ⟨layer, FileKind.skill.pathOf info.name⟩) = .ok info ↔
        serde.files.KeepsFront serde.files.skill info.front := by
    rw [hnew.readItem_self, ← Except.ok.inj htext, keepsFront_iff hprinted]
    exact parseSkillFile_written hplain hread _
  have hloaded : FsConfigStore.readItem (fun _ => skillBody) fs'
      (info.name, ⟨layer, FileKind.skill.pathOf info.name⟩) = .ok (trim body) ↔
        LineFeedsOnly body := by
    rw [hnew.readItem_self, ← Except.ok.inj htext]
    exact skillBody_written hplain _
  show ((∃ items, fs'.listSkills serde = .ok items ∧ info ∈ items) ∧
    fs'.loadSkill info.name = .ok (trim body)) ↔ fs.Listable ∧ fs.OthersRead serde info.name ∧
      fs.KeepsSkill serde info body (fs.hiddenBy layer info.name)
  rw [FsConfigStore.listSkills_iff, FsConfigStore.loadSkill_iff, hnew.listable_iff,
    hnew.othersRead_iff, hnew.shown_self]
  cases hhidden : fs.hiddenBy layer info.name with
  | none =>
    rw [Option.none_or]
    constructor
    · intro hback
      obtain ⟨⟨hlist, hothers, path, hpath, hinfo⟩, -, path', hpath', hbody⟩ := hback
      rw [← Option.some.inj hpath] at hinfo
      rw [← Option.some.inj hpath'] at hbody
      exact ⟨hlist, hothers, hloaded.1 hbody, hlisted.1 hinfo⟩
    · intro hsafe
      obtain ⟨hlist, hothers, hbody, hfront⟩ := hsafe
      exact ⟨⟨hlist, hothers, _, rfl, hlisted.2 hfront⟩, hlist, _, rfl, hloaded.2 hbody⟩
  | some path =>
    have hworkspace : layer = .global ∧ fs.skillIn .workspace info.name = some path := by
      cases layer with
      | global => exact ⟨rfl, hhidden⟩
      | workspace => cases hhidden
    have hne : Layer.workspace ≠ layer := by
      rw [hworkspace.1]
      decide
    have hsame := hnew.readItem_other (.inl hne) hworkspace.2 (parseSkillFile serde.files)
      info.name
    have hbody := hnew.readItem_other (.inl hne) hworkspace.2 (fun _ => skillBody) info.name
    have hkeeps : fs.KeepsSkill serde info body (some path) ↔
        FsConfigStore.readItem (parseSkillFile serde.files) fs' (info.name, path) = .ok info ∧
          FsConfigStore.readItem (fun _ => skillBody) fs' (info.name, path) = .ok (trim body) := by
      rw [hsame, hbody]
      rfl
    rw [Option.some_or, hkeeps]
    constructor
    · intro hback
      obtain ⟨⟨hlist, hothers, path', hpath, hinfo⟩, -, path'', hpath', hread⟩ := hback
      rw [← Option.some.inj hpath] at hinfo
      rw [← Option.some.inj hpath'] at hread
      exact ⟨hlist, hothers, hinfo, hread⟩
    · intro hsafe
      obtain ⟨hlist, hothers, hinfo, hread⟩ := hsafe
      exact ⟨⟨hlist, hothers, path, rfl, hinfo⟩, hlist, path, rfl, hread⟩

/-- What is created is read back when it is safe. -/
theorem readBack_iff [DecidableEq V] (hyaml : serde.files.ReadsFront) {created : Created}
    (h : (FsConfigStore.call serde ⟨layer, created.op⟩).exec fs = (.ok (), fs')) :
    created.ReadBack serde fs' layer ↔ created.Safe serde fs layer := by
  cases created with
  | agent item => exact readBack_agent_iff hyaml h
  | skill info body => exact readBack_skill_iff hyaml h

/-! ## An agent -/

/-- An agent with this text. -/
def plainAgent (systemPrompt : Text) : Agent :=
  ⟨['a'], none, .primary, ['m'], [], .auto, systemPrompt⟩

def plainFront : Text := "mode: primary\nmodel: m\nskills: auto\n".toList

def isPlainFront : Json → Bool
  | .obj [(mode, .str primary), (model, .str m), (skills, .str auto)] =>
    mode == "mode".toList && primary == "primary".toList && model == "model".toList && m == ['m'] &&
      skills == "skills".toList && auto == "auto".toList
  | _ => false

/-- YAML as far as these agents need it. -/
def plainSerde : StoreSerde Unit Unit where
  config := selectionSerde.config
  files :=
    { toStr := fun value => if isPlainFront value then .ok plainFront else .error []
      agent := fun text =>
        if text = plainFront ∨ text = plainFront.dropLast then .ok (plainAgent []).raw
        else .error []
      skill := fun _ => .error []
      toolset := fun _ => .error [] }
  asStr := fun _ => none

theorem eq_of_isPlainFront {value : Json} (h : isPlainFront value = true) :
    value = (plainAgent []).front := by
  unfold isPlainFront at h
  split at h
  · simp only [Bool.and_eq_true, beq_iff_eq] at h
    obtain ⟨⟨⟨⟨⟨rfl, rfl⟩, rfl⟩, rfl⟩, rfl⟩, rfl⟩ := h
    rfl
  · cases h

theorem readsFront_plainSerde : plainSerde.files.ReadsFront := by
  have hcases : ∀ {value text}, plainSerde.files.toStr value = .ok text →
      value = (plainAgent []).front ∧ text = plainFront := by
    intro value text h
    have hprinted : (if isPlainFront value then Except.ok plainFront else .error []) =
        .ok text := h
    split at hprinted
    · rename_i hvalue
      exact ⟨eq_of_isPlainFront hvalue, (Except.ok.inj hprinted).symm⟩
    · cases hprinted
  refine ⟨?_, ?_, ?_⟩
  · intro fields text h
    rw [(hcases h).2]
    refine ⟨⟨["mode: primary".toList, "model: m".toList, "skills: auto".toList], rfl, ?_⟩, ?_⟩
    · decide
    · decide
  · intro value text raw h hraw
    obtain ⟨hvalue, htext⟩ := hcases h
    rw [hvalue, ofJson_agentFront] at hraw
    rw [htext, ← Option.some.inj hraw]
    show (if plainFront = plainFront ∨ plainFront = plainFront.dropLast then
      Except.ok (plainAgent []).raw else .error []) = _
    rw [if_pos (.inl rfl)]
  · intro value text raw h hraw
    rw [(hcases h).1] at hraw
    cases hraw

theorem readBack_plainAgent : ∃ fs',
    (FsConfigStore.call plainSerde ⟨.global, (Created.agent (plainAgent ['x'])).op⟩).exec
      emptyStore = (.ok (), fs') ∧
        (Created.agent (plainAgent ['x'])).ReadBack plainSerde fs' .global := by
  have hcall : (FsConfigStore.call plainSerde ⟨.global,
      (Created.agent (plainAgent ['x'])).op⟩).exec emptyStore = (.ok (), _) := rfl
  refine ⟨_, hcall, (readBack_iff readsFront_plainSerde hcall).2 ⟨?_, ?_⟩⟩
  · unfold LineFeedsOnly
    decide
  · intro text htext
    cases htext
    unfold Rejoins
    rfl

/-- CR LF in the text of an agent becomes LF. -/
theorem readBack_fails : ¬ ∀ (V E : Type) [DecidableEq V] (serde : StoreSerde V E)
    (fs fs' : FsConfigStore) (layer : Layer) (created : Created), serde.files.ReadsFront →
      (FsConfigStore.call serde ⟨layer, created.op⟩).exec fs = (.ok (), fs') →
        created.ReadBack serde fs' layer := by
  intro hall
  have hback := hall Unit Unit plainSerde emptyStore _ .global
    (.agent (plainAgent "x\r\ny".toList)) readsFront_plainSerde rfl
  have hprompt := congrArg Agent.systemPrompt (Except.ok.inj hback)
  revert hprompt
  decide

end Vanyline.Cfgstore
