import Vanyline.Cfgstore.LayerFiles
import Vanyline.Cfgstore.Patches

/-!
# The mutators of the store

Every mutator works on one layer, as an `Effect` on its tree: an error leaves what has been
written until then.

* The mutators of `config.yaml` apply their `Op` to what the file says and write it again.
* `createFile`, `updateFile` and `deleteFile` are shared by toolsets, agents and skills.  A
  skill has a directory of its own, and `deleteSkill` removes that too.
* `call` checks the name, takes the directory of the layer and runs the mutator there.
-/

namespace Vanyline.Cfgstore

open Vanyline.Lib
open Vanyline.Lib.TextLines (trim)

/-- A mutator of the tree of one layer. -/
abbrev Mutator := Effect Tree CfgStoreError Unit

/-- A step that does not look at the tree. -/
def lift {α : Type} (x : Except CfgStoreError α) : Effect Tree CfgStoreError α := .read fun _ => x

def io {α : Type} (m : Effect Tree IoError α) : Effect Tree CfgStoreError α := m.mapError ioError

variable {V E : Type}

/-! ## Mutators of `config.yaml` -/

def writeConfigLayer (serde : Serde V E) (path : Text) (raw : RawConfigFile V) : Mutator := do
  io (DirTree.createDirAll [])
  let content ← lift ((serde.toStr raw).mapError fun e =>
    .writeError ("Failed to serialize ".toList ++ display path [configYaml] ++ ": ".toList ++ e))
  io (.change (DirTree.write [configYaml] (some content)))

def mutateConfig [DecidableEq V] (serde : Serde V E) (path : Text) (layer : Layer) (op : Op) :
    Mutator := do
  let raw ← Effect.read fun t => LayerDir.loadConfigLayer serde ⟨path, t⟩
  let raw ← lift (op.apply serde layer raw)
  writeConfigLayer serde path raw

/-! ## Mutators of files -/

namespace FileKind

def notFound (kind : FileKind) (name : Text) (layer : Layer) : CfgStoreError :=
  .notFound kind.text name layer

/-- The file of a name, which must be there. -/
def find (kind : FileKind) (name : Text) (layer : Layer) :
    Effect Tree CfgStoreError DirPath := do
  let files ← Effect.read kind.list
  match files.lookup name with
  | some path => pure path
  | none => throw (kind.notFound name layer)

def createFile (kind : FileKind) (name : Text) (content : Except CfgStoreError Text)
    (layer : Layer) : Mutator := do
  let files ← Effect.read kind.list
  if (files.lookup name).isSome then throw (.nameConflict kind.text name layer)
  else
    let content ← lift content
    io (do
      DirTree.createDirAll (kind.dirOf name)
      Effect.change (DirTree.write (kind.pathOf name) (some content)))

/-- The file is read, and what `rewrite` makes of it is written. -/
def updateFile (kind : FileKind) (name : Text) (rewrite : Text → Text → Except CfgStoreError Text)
    (path : Text) (layer : Layer) : Mutator := do
  let file ← kind.find name layer
  let content ← io (.read (readToString file))
  let content ← lift (rewrite (display path file) content)
  io (.change (DirTree.write file (some content)))

def deleteFile (kind : FileKind) (name : Text) (layer : Layer) : Mutator := do
  let file ← kind.find name layer
  io (.change (DirTree.removeFile file))

end FileKind

variable (yaml : FileSerde)

def createToolset (item : Toolset) : Layer → Mutator :=
  FileKind.toolset.createFile item.name (toolsetText yaml item)

def createAgent (item : Agent) : Layer → Mutator :=
  FileKind.agent.createFile item.name (agentToMd yaml item)

def createSkill (info : SkillMeta) (body : Text) : Layer → Mutator :=
  FileKind.skill.createFile info.name (skillToMd yaml info body)

def deleteToolset : Text → Layer → Mutator := FileKind.toolset.deleteFile

def deleteAgent : Text → Layer → Mutator := FileKind.agent.deleteFile

/-- The file is removed first, and its directory afterwards. -/
def deleteSkill (name : Text) (layer : Layer) : Mutator := do
  let file ← FileKind.skill.find name layer
  io (.change (DirTree.removeFile file))
  io (.change (DirTree.removeDir file.dropLast))

def rewriteToolset (name : Text) (patch : Json) (path content : Text) :
    Except CfgStoreError Text := do
  let toolset ← parseToolsetFile yaml name path content
  let fields ← asPatch patch
  toolsetText yaml (← fields.foldlM patchToolset toolset)

def rewriteAgent (name : Text) (patch : Json) (path content : Text) :
    Except CfgStoreError Text := do
  let agent ← parseAgentFile yaml name path content
  let fields ← asPatch patch
  agentToMd yaml (← fields.foldlM patchAgent agent)

def rewriteSkill (name : Text) (patch : Json) (path content : Text) :
    Except CfgStoreError Text := do
  let info ← parseSkillFile yaml name path content
  let body ← skillBody path content
  let fields ← asPatch patch
  let skill ← fields.foldlM patchSkill { info, body }
  skillToMd yaml skill.info skill.body

def updateToolset (name : Text) (patch : Json) : Text → Layer → Mutator :=
  FileKind.toolset.updateFile name (rewriteToolset yaml name patch)

def updateAgent (name : Text) (patch : Json) : Text → Layer → Mutator :=
  FileKind.agent.updateFile name (rewriteAgent yaml name patch)

def updateSkill (name : Text) (patch : Json) : Text → Layer → Mutator :=
  FileKind.skill.updateFile name (rewriteSkill yaml name patch)

/-! ## Calls -/

/-- A method of the store that writes, with its arguments. -/
inductive StoreOp
  | config (op : Op)
  | createToolset (item : Toolset)
  | updateToolset (name : Text) (patch : Json)
  | deleteToolset (name : Text)
  | createAgent (item : Agent)
  | updateAgent (name : Text) (patch : Json)
  | deleteAgent (name : Text)
  | createSkill (info : SkillMeta) (body : Text)
  | updateSkill (name : Text) (patch : Json)
  | deleteSkill (name : Text)

structure StoreCall where
  layer : Layer
  op : StoreOp

namespace StoreOp

def validate : StoreOp → Except CfgStoreError Unit
  | config op => op.validate
  | createToolset item => validateName item.name
  | createAgent item => validateName item.name
  | createSkill info _ => validateName info.name
  | updateToolset name _ | updateAgent name _ | updateSkill name _ => validateName name
  | deleteToolset name | deleteAgent name | deleteSkill name => validateName name

/-- What the method does to the tree of the layer at a path. -/
def mutate [DecidableEq V] (serde : StoreSerde V E) (path : Text) (layer : Layer) :
    StoreOp → Mutator
  | config op => mutateConfig serde.config path layer op
  | createToolset item => Cfgstore.createToolset serde.files item layer
  | updateToolset name patch => Cfgstore.updateToolset serde.files name patch path layer
  | deleteToolset name => Cfgstore.deleteToolset name layer
  | createAgent item => Cfgstore.createAgent serde.files item layer
  | updateAgent name patch => Cfgstore.updateAgent serde.files name patch path layer
  | deleteAgent name => Cfgstore.deleteAgent name layer
  | createSkill info body => Cfgstore.createSkill serde.files info body layer
  | updateSkill name patch => Cfgstore.updateSkill serde.files name patch path layer
  | deleteSkill name => Cfgstore.deleteSkill name layer

end StoreOp

namespace FsConfigStore

def layerDir (layer : Layer) (fs : FsConfigStore) : Except CfgStoreError LayerDir :=
  match fs.dir layer with
  | some dir => .ok dir
  | none => .error (.config "no workspace layer configured".toList)

def setTree (fs : FsConfigStore) (t : Tree) : Layer → FsConfigStore
  | .global => { fs with globalDir.tree := t }
  | .workspace => { fs with workspaceDir := fs.workspaceDir.map fun dir => { dir with tree := t } }

/-- A mutator in the tree of a layer. -/
def inLayer (dir : LayerDir) (layer : Layer) (m : Mutator) :
    Effect FsConfigStore CfgStoreError Unit :=
  m.zoom (fun _ => dir.tree) fun fs t => fs.setTree t layer

def call [DecidableEq V] (serde : StoreSerde V E) (c : StoreCall) :
    Effect FsConfigStore CfgStoreError Unit := do
  Effect.read fun _ => c.op.validate
  let dir ← Effect.read (layerDir c.layer)
  inLayer dir c.layer (c.op.mutate serde dir.path c.layer)

end FsConfigStore

/-! ## What a call does -/

variable {serde : StoreSerde V E}

theorem FsConfigStore.setTree_self {fs : FsConfigStore} {layer : Layer} {dir : LayerDir}
    (h : fs.dir layer = some dir) : fs.setTree dir.tree layer = fs := by
  cases layer with
  | global =>
    cases h
    rfl
  | workspace =>
    have hws : fs.workspaceDir = some dir := h
    obtain ⟨globalDir, workspaceDir⟩ := fs
    cases hws
    rfl

theorem FsConfigStore.dir_setTree_self {fs : FsConfigStore} {layer : Layer} {t : Tree} :
    (fs.setTree t layer).dir layer = (fs.dir layer).map fun dir => { dir with tree := t } := by
  cases layer <;> rfl

theorem FsConfigStore.dir_setTree_of_ne {fs : FsConfigStore} {layer layer' : Layer} {t : Tree}
    (h : layer' ≠ layer) : (fs.setTree t layer).dir layer' = fs.dir layer' := by
  cases layer <;> cases layer' <;> first | rfl | exact absurd rfl h

/-- A call that is not refused at once runs its mutator in the layer. -/
theorem FsConfigStore.exec_call [DecidableEq V] {fs fs' : FsConfigStore} {c : StoreCall}
    {r : Except CfgStoreError Unit} (h : (call serde c).exec fs = (r, fs')) :
    (∃ e, r = .error e ∧ fs' = fs ∧
      (c.op.validate = .error e ∨ fs.dir c.layer = none)) ∨
    ∃ dir t, c.op.validate = .ok () ∧ fs.dir c.layer = some dir ∧
      (c.op.mutate serde dir.path c.layer).exec dir.tree = (r, t) ∧ fs' = fs.setTree t c.layer := by
  unfold call at h
  rw [Effect.exec_bind, Effect.exec_read] at h
  cases hvalid : c.op.validate with
  | error e =>
    rw [hvalid] at h
    cases h
    exact .inl ⟨e, rfl, rfl, .inl rfl⟩
  | ok u =>
    rw [hvalid] at h
    dsimp only at h
    rw [Effect.exec_bind, Effect.exec_read, layerDir] at h
    cases hdir : fs.dir c.layer with
    | none =>
      rw [hdir] at h
      cases h
      exact .inl ⟨_, rfl, rfl, .inr rfl⟩
    | some dir =>
      rw [hdir] at h
      cases h
      exact .inr ⟨dir, _, rfl, rfl, rfl, rfl⟩

end Vanyline.Cfgstore
