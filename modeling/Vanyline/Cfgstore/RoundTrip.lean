import Vanyline.Cfgstore.Mutators

/-!
# Files that have just been written

An agent or a skill that the store has written is read with its lines put together again.

* `parseAgentFile_written`, `parseSkillFile_written` and `skillBody_written` say when what is read
  of a file that has just been written is what was to be written.
* `Written` is what the creation of a file makes of a tree (`FileKind.exec_createFile_ok`).
* `lookup_resolve` says which skill is found when both layers are listed.
-/

namespace Vanyline.Cfgstore

open Vanyline.Lib
open Vanyline.Lib.TextLines (lines joinLines trim)

/-! ## Files that have just been written -/

/-- No line of the trimmed text but the last one ends with a carriage return. -/
def LineFeedsOnly (body : Text) : Prop := ¬['\r', '\n'] <:+: trim body

/-- The library reads the lines of the text, put together again, as it reads the text. -/
def Rejoins {α : Type} (read : Text → Except Text α) (text : Text) : Prop :=
  read (joinLines (lines text)) = read text

def Agent.raw (a : Agent) : RawAgentFrontmatter :=
  ⟨a.description, a.mode, a.model, a.toolsets, a.skills⟩

/-- The agent as it should be read. -/
def Agent.trimmed (a : Agent) : Agent := { a with systemPrompt := trim a.systemPrompt }

variable {yaml : FileSerde}

theorem parseAgentFile_written {a : Agent} {text : Text} (h : Printed text)
    (hread : yaml.agent text = .ok a.raw) (path : Text) :
    parseAgentFile yaml a.name path (withFrontmatter text a.systemPrompt) = .ok a.trimmed ↔
      LineFeedsOnly a.systemPrompt ∧ Rejoins yaml.agent text := by
  unfold parseAgentFile LineFeedsOnly Rejoins
  rw [splitFrontmatter_written h, ← TextLines.joinLines_lines_iff, hread]
  show ((yaml.agent (joinLines (lines text))).mapError (parseError path) >>= _) = _ ↔ _
  rw [bind_eq_ok]
  constructor
  · rintro ⟨raw, hraw, hagent⟩
    have hsame := Except.ok.inj hagent
    rw [Agent.trimmed, Agent.mk.injEq] at hsame
    obtain ⟨-, hdescription, hmode, hmodel, htoolsets, hskills, hprompt⟩ := hsame
    refine ⟨hprompt, ?_⟩
    rw [mapError_eq_ok.1 hraw]
    apply congrArg Except.ok
    rw [Agent.raw, ← hdescription, ← hmode, ← hmodel, ← htoolsets, ← hskills]
  · rintro ⟨hbody, hfront⟩
    refine ⟨a.raw, ?_, ?_⟩
    · rw [hfront]
      rfl
    · apply congrArg Except.ok
      rw [hbody]
      rfl

theorem parseSkillFile_written {info : SkillMeta} {body text : Text} (h : Printed text)
    (hread : yaml.skill text = .ok ⟨info.description⟩) (path : Text) :
    parseSkillFile yaml info.name path (withFrontmatter text body) = .ok info ↔
      Rejoins yaml.skill text := by
  unfold parseSkillFile Rejoins
  rw [splitFrontmatter_written h, hread]
  show ((yaml.skill (joinLines (lines text))).mapError (parseError path) >>= _) = _ ↔ _
  rw [bind_eq_ok]
  constructor
  · rintro ⟨raw, hraw, hskill⟩
    have hsame := Except.ok.inj hskill
    rw [mapError_eq_ok.1 hraw, ← hsame]
  · intro hfront
    refine ⟨⟨info.description⟩, ?_, rfl⟩
    rw [hfront]
    rfl

theorem skillBody_written {body text : Text} (h : Printed text) (path : Text) :
    skillBody path (withFrontmatter text body) = .ok (trim body) ↔ LineFeedsOnly body := by
  unfold skillBody LineFeedsOnly
  rw [splitFrontmatter_written h, ← TextLines.joinLines_lines_iff]
  exact ⟨fun hsame => Except.ok.inj hsame, fun hsame => congrArg Except.ok hsame⟩

/-! ## The tree after a creation -/

/-- The file is there, and only directories are new beside it. -/
structure Written (path : DirPath) (text : Text) (t t' : Tree) : Prop where
  file : t'.node path = some (.file (some text))
  kept : ∀ q node, q ≠ path → t.node q = some node → t'.node q = some node
  fresh : ∀ q node, q ≠ path → t.node q = none → t'.node q = some node → node = .dir

namespace Written

variable {path q : DirPath} {text : Text} {t t' : Tree}

/-- The other files are those that were there. -/
theorem file_iff (h : Written path text t t') (hne : q ≠ path) (content : Option Text) :
    t'.node q = some (.file content) ↔ t.node q = some (.file content) := by
  constructor
  · intro hfile
    cases hnode : t.node q with
    | none => cases h.fresh q _ hne hnode hfile
    | some node => rw [← hfile, h.kept q node hne hnode]
  · exact h.kept q _ hne

theorem isFile_eq (h : Written path text t t') (hne : q ≠ path) : t'.isFile q = t.isFile q := by
  rw [Bool.eq_iff_iff, DirTree.isFile_iff, DirTree.isFile_iff]
  exact exists_congr fun content => h.file_iff hne content

theorem readToString_eq (h : Written path text t t') (hne : q ≠ path) (hfile : t.isFile q = true) :
    readToString q t' = readToString q t := by
  obtain ⟨content, hcontent⟩ := DirTree.isFile_iff.1 hfile
  unfold readToString
  rw [DirTree.readFile_eq_ok.2 hcontent,
    DirTree.readFile_eq_ok.2 ((h.file_iff hne content).2 hcontent)]

theorem readToString_self (h : Written path text t t') : readToString path t' = .ok text := by
  unfold readToString
  rw [DirTree.readFile_eq_ok.2 h.file]
  rfl

end Written

/-- A creation that succeeds has listed the names of the layer and written the file. -/
theorem FileKind.exec_createFile_ok {kind : FileKind} {name : Text}
    {content : Except CfgStoreError Text} {layer : Layer} {t t' : Tree} {u : Unit}
    (h : (kind.createFile name content layer).exec t = (.ok u, t')) :
    ∃ files text, kind.list t = .ok files ∧ files.lookup name = none ∧ content = .ok text ∧
      Written (kind.pathOf name) text t t' := by
  unfold FileKind.createFile at h
  obtain ⟨files, t₁, hread, hrest⟩ := Effect.exec_bind_ok.1 h
  obtain ⟨hlist, rfl⟩ := Effect.exec_read_ok.1 hread
  cases hlookup : files.lookup name with
  | some path =>
    rw [hlookup] at hrest
    cases hrest
  | none =>
    rw [hlookup, if_neg nofun] at hrest
    obtain ⟨text, t₂, hlift, hwrite⟩ := Effect.exec_bind_ok.1 hrest
    obtain ⟨htext, rfl⟩ := Effect.exec_read_ok.1 hlift
    rw [io, Effect.exec_mapError_ok] at hwrite
    obtain ⟨u', t₃, hdirs, hchange⟩ := Effect.exec_bind_ok.1 hwrite
    have hmade := DirTree.exec_createDirAll_ok hdirs
    obtain ⟨-, hfile, hsame⟩ := DirTree.write_eq_ok (Effect.exec_change_ok.1 hchange)
    refine ⟨files, text, hlist, hlookup, htext, hfile, ?_, ?_⟩
    · intro q node hne hnode
      rw [hsame q hne]
      exact hmade.kept q node hnode
    · intro q node hne hnone hnode
      rw [hsame q hne] at hnode
      exact (hmade.fresh q node hnone hnode).2

/-! ## The listing of skills -/

variable {V E : Type} {serde : StoreSerde V E} {fs fs' : FsConfigStore}

namespace FsConfigStore

/-- The skill of a layer. -/
def skillIn (fs : FsConfigStore) (layer : Layer) (name : Text) : Option FilePath :=
  match fs.dir layer with
  | some dir =>
    if dir.tree.isFile (FileKind.skill.pathOf name) then some ⟨layer, FileKind.skill.pathOf name⟩
    else none
  | none => none

/-- The skills of every layer can be listed. -/
def Listable (fs : FsConfigStore) : Prop :=
  ∀ layer dir, fs.dir layer = some dir → ∃ files, FileKind.skill.list dir.tree = .ok files

theorem lookup_mapValues_list {dir : LayerDir} {files : SortedMap Text DirPath} (layer : Layer)
    (hdir : fs.dir layer = some dir) (h : FileKind.skill.list dir.tree = .ok files) (name : Text) :
    (files.mapValues (FilePath.mk layer)).lookup name = fs.skillIn layer name := by
  have hlookup : files.lookup name = if dir.tree.isFile (FileKind.skill.pathOf name) then
      some (FileKind.skill.pathOf name) else none := lookup_listLayerSkillDirs h name
  rw [SortedMap.lookup_mapValues, hlookup, skillIn, hdir]
  dsimp only
  split_ifs <;> rfl

theorem resolve_skill : (∃ files, resolve .skill fs = .ok files) ↔ fs.Listable := by
  unfold resolve
  constructor
  · rintro ⟨files, h⟩ layer dir hdir
    obtain ⟨global, hglobal, hrest⟩ := bind_eq_ok.1 h
    cases layer with
    | global =>
      cases hdir
      exact ⟨global, hglobal⟩
    | workspace =>
      have hws : fs.workspaceDir = some dir := hdir
      rw [hws] at hrest
      obtain ⟨workspace, hworkspace, -⟩ := bind_eq_ok.1 hrest
      exact ⟨workspace, hworkspace⟩
  · intro h
    obtain ⟨global, hglobal⟩ := h .global fs.globalDir rfl
    rw [hglobal]
    cases hws : fs.workspaceDir with
    | none => exact ⟨_, rfl⟩
    | some dir =>
      obtain ⟨workspace, hworkspace⟩ := h .workspace dir hws
      refine ⟨(global.mapValues (FilePath.mk .global)).extend
        (workspace.mapValues (FilePath.mk .workspace)), ?_⟩
      show (do return SortedMap.extend _ ((← FileKind.skill.list dir.tree).mapValues _)) = _
      rw [hworkspace]
      rfl

/-- A skill of the workspace hides the global one. -/
theorem lookup_resolve {files : SortedMap Text FilePath} (h : resolve .skill fs = .ok files)
    (name : Text) :
    files.lookup name = (fs.skillIn .workspace name).or (fs.skillIn .global name) := by
  unfold resolve at h
  obtain ⟨global, hglobal, hrest⟩ := bind_eq_ok.1 h
  have hlookup := lookup_mapValues_list .global rfl hglobal name
  cases hws : fs.workspaceDir with
  | none =>
    rw [hws] at hrest
    cases hrest
    have hnone : fs.skillIn .workspace name = none := by
      rw [skillIn, show fs.dir .workspace = none from hws]
    rw [hlookup, hnone, Option.none_or]
  | some dir =>
    rw [hws] at hrest
    obtain ⟨workspace, hworkspace, hfiles⟩ := bind_eq_ok.1 hrest
    cases hfiles
    rw [SortedMap.lookup_extend, hlookup, lookup_mapValues_list .workspace hws hworkspace]

end FsConfigStore

end Vanyline.Cfgstore
