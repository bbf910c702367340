import Vanyline.Cfgstore.Mutators

/-!
# What a failed write leaves behind

A call that ends with an error should leave the store as it was, and with it what is listed and
loaded afterwards.

* The files of toolsets and agents are written and removed in one step, which is the last one
  (`atomic_createFile`, `atomic_updateFile`, `atomic_deleteFile`).
* `deleteSkill` removes the `SKILL.md` and then fails when the directory has something else in
  it.
* A `config.yaml` is printed after its directory has been made.
* `unchanged_iff` has the exact condition (`StoreOp.Whole`).
-/

namespace Vanyline.Cfgstore

open Vanyline.Lib

variable {V E : Type}

/-! ## Mutators that fail before they write -/

theorem readOnly_lift {α : Type} (x : Except CfgStoreError α) : Effect.ReadOnly (lift x) :=
  Effect.readOnly_read _

theorem Effect.ReadOnly.io {α : Type} {m : Effect Tree IoError α} (h : Effect.ReadOnly m) :
    Effect.ReadOnly (Cfgstore.io m) := by
  intro t
  have hread := h t
  show (Effect.exec (m.mapError ioError) t).2 = t
  cases hexec : (m.mapError ioError).exec t with
  | mk result t' =>
    cases result with
    | ok a => exact h.eq (Effect.exec_mapError_ok.1 hexec)
    | error e =>
      obtain ⟨e', herr, -⟩ := Effect.exec_mapError_error.1 hexec
      exact h.eq herr

namespace FileKind

theorem readOnly_find (kind : FileKind) (name : Text) (layer : Layer) :
    Effect.ReadOnly (kind.find name layer) := by
  refine Effect.ReadOnly.bind (Effect.readOnly_read _) fun files => ?_
  split
  · exact Effect.readOnly_pure _
  · exact Effect.readOnly_throw _

theorem atomic_createFile (kind : FileKind) (name : Text) (content : Except CfgStoreError Text)
    (layer : Layer) : Effect.Atomic (kind.createFile name content layer) := by
  refine Effect.Atomic.bind (Effect.readOnly_read _) fun files => ?_
  split_ifs
  · exact (Effect.readOnly_throw _).atomic
  · refine Effect.Atomic.bind (readOnly_lift content) fun text => ?_
    apply Effect.Atomic.mapError
    exact DirTree.atomic_createDirAll_write (kind.dirOf name) (kind.fileName name) (some text)

theorem atomic_updateFile (kind : FileKind) (name : Text)
    (rewrite : Text → Text → Except CfgStoreError Text) (path : Text) (layer : Layer) :
    Effect.Atomic (kind.updateFile name rewrite path layer) := by
  refine Effect.Atomic.bind (kind.readOnly_find name layer) fun file => ?_
  refine Effect.Atomic.bind (Effect.ReadOnly.io (Effect.readOnly_read _)) fun content => ?_
  refine Effect.Atomic.bind (readOnly_lift _) fun text => ?_
  exact (Effect.atomic_change _).mapError ioError

theorem atomic_deleteFile (kind : FileKind) (name : Text) (layer : Layer) :
    Effect.Atomic (kind.deleteFile name layer) := by
  refine Effect.Atomic.bind (kind.readOnly_find name layer) fun file => ?_
  exact (Effect.atomic_change _).mapError ioError

end FileKind

theorem exec_io_change_ok {f : Tree → Except IoError Tree} {t t' : Tree} {u : Unit} :
    (io (Effect.change f)).exec t = (.ok u, t') ↔ f t = .ok t' := by
  rw [io, Effect.exec_mapError_ok, Effect.exec_change_ok]

theorem exec_io_change_error {f : Tree → Except IoError Tree} {t t' : Tree} {e : CfgStoreError} :
    (io (Effect.change f)).exec t = (.error e, t') ↔
      (∃ err, f t = .error err) ∧ e = .io ∧ t' = t := by
  rw [io, Effect.exec_mapError_error]
  constructor
  · rintro ⟨err, hchange, rfl⟩
    obtain ⟨herr, hsame⟩ := Effect.exec_change_error.1 hchange
    exact ⟨⟨err, herr⟩, rfl, hsame⟩
  · rintro ⟨⟨err, herr⟩, rfl, rfl⟩
    exact ⟨err, Effect.exec_change_error.2 ⟨herr, rfl⟩, rfl⟩

/-- An error of the mutator leaves this tree as it is. -/
def Mutator.Keeps (m : Mutator) (t : Tree) : Prop :=
  ∀ e t', m.exec t = (.error e, t') → t' = t

theorem Effect.Atomic.keeps {m : Mutator} (h : Effect.Atomic m) (t : Tree) : m.Keeps t :=
  fun e t' herr => h t t' e herr

/-! ## Deleting a skill -/

def skillDir (name : Text) : DirPath := [FileKind.skill.subdir, name]

def skillFile (name : Text) : DirPath := [FileKind.skill.subdir, name, skillMd]

theorem exec_find_skill {name : Text} {layer : Layer} {t : Tree}
    (h : t.isFile (skillFile name) = true) :
    (FileKind.skill.find name layer).exec t = (.ok (skillFile name), t) := by
  obtain ⟨content, hcontent⟩ := DirTree.isFile_iff.1 h
  have hfile : t.node (skillDir name ++ [skillMd]) = some (.file content) := hcontent
  have hdir : t.node ([FileKind.skill.subdir] ++ [name]) = some .dir := DirTree.isDir_of_child hfile
  have hskills : t.node [FileKind.skill.subdir] = some .dir := DirTree.isDir_of_child hdir
  have hlist : FileKind.skill.list t = .ok (.ofList
      ((t.names [FileKind.skill.subdir]).filterMap (skillEntry [FileKind.skill.subdir] t))) := by
    show listLayerSkillDirs [FileKind.skill.subdir] t = _
    rw [listLayerSkillDirs, namesIn_of_isDir hskills]
    rfl
  have hlookup := lookup_listLayerSkillDirs hlist name
  rw [if_pos (show t.isFile ([FileKind.skill.subdir] ++ [name, skillMd]) = true from h)] at hlookup
  unfold FileKind.find
  rw [Effect.exec_bind, Effect.exec_read, hlist]
  dsimp only
  rw [hlookup]
  rfl

theorem isFile_of_find_skill {name : Text} {layer : Layer} {t t' : Tree} {p : DirPath}
    (h : (FileKind.skill.find name layer).exec t = (.ok p, t')) :
    t.isFile (skillFile name) = true ∧ p = skillFile name ∧ t' = t := by
  have hsame := (FileKind.skill.readOnly_find name layer).eq h
  unfold FileKind.find at h
  obtain ⟨files, t₁, hread, hfind⟩ := Effect.exec_bind_ok.1 h
  obtain ⟨hlist, rfl⟩ := Effect.exec_read_ok.1 hread
  have hlookup := lookup_listLayerSkillDirs hlist name
  cases hfound : files.lookup name with
  | none =>
    rw [hfound] at hfind
    cases hfind
  | some path =>
    rw [hfound] at hfind hlookup
    cases hfind
    split_ifs at hlookup with hfile
    exact ⟨hfile, Option.some.inj hlookup, rfl⟩

/-- The deletion of a skill keeps the tree when it fails, if there is nothing beside the
`SKILL.md`. -/
theorem keeps_deleteSkill_iff {name : Text} {layer : Layer} {t : Tree} :
    Mutator.Keeps (deleteSkill name layer) t ↔
      (t.isFile (skillFile name) = true → ∀ other ∈ t.names (skillDir name), other = skillMd) := by
  have hchild : ∀ other, skillDir name ++ [other] = skillFile name ↔ other = skillMd := by
    intro other
    simp [skillDir, skillFile]
  have hdirne : skillDir name ≠ skillFile name := by simp [skillDir, skillFile]
  constructor
  · intro hkeeps hfile other hother
    by_contra hne
    obtain ⟨content, hcontent⟩ := DirTree.isFile_iff.1 hfile
    obtain ⟨t₁, hremove⟩ := DirTree.exists_removeFile hcontent
    obtain ⟨-, hgone, hkept⟩ := DirTree.removeFile_eq_ok hremove
    obtain ⟨node, hnode⟩ := DirTree.mem_names.1 hother
    have hother₁ : t₁.node (skillDir name ++ [other]) = some node := by
      rw [hkept _ fun heq => hne ((hchild other).1 heq)]
      exact hnode
    have hfull : ∃ err, t₁.removeDir (skillDir name) = .error err := by
      cases hdir : t₁.removeDir (skillDir name) with
      | error err => exact ⟨err, rfl⟩
      | ok t₂ =>
        obtain ⟨-, hempty, -⟩ := DirTree.removeDir_eq_ok hdir
        have hmem := DirTree.mem_names.2 ⟨node, hother₁⟩
        rw [hempty] at hmem
        cases hmem
    have hexec : (deleteSkill name layer).exec t = (.error .io, t₁) := by
      unfold deleteSkill
      rw [Effect.exec_bind_of_ok (exec_find_skill hfile),
        Effect.exec_bind_of_ok (exec_io_change_ok (u := ()).2 hremove)]
      exact exec_io_change_error.2 ⟨hfull, rfl, rfl⟩
    have hsame := hkeeps _ _ hexec
    rw [hsame, hcontent] at hgone
    cases hgone
  · intro halone e t' hexec
    unfold deleteSkill at hexec
    rcases Effect.exec_bind_error.1 hexec with herr | ⟨p, t₁, hfind, hrest⟩
    · exact (FileKind.skill.readOnly_find name layer).eq herr
    obtain ⟨hfile, rfl, rfl⟩ := isFile_of_find_skill hfind
    rcases Effect.exec_bind_error.1 hrest with herr | ⟨u, t₂, hremove, hlast⟩
    · exact (exec_io_change_error.1 herr).2.2
    obtain ⟨⟨content, hcontent⟩, hgone, hkept⟩ :=
      DirTree.removeFile_eq_ok (exec_io_change_ok.1 hremove)
    obtain ⟨⟨err, herr⟩, -⟩ := exec_io_change_error.1 hlast
    have hdir : t₂.node (skillDir name) = some .dir := by
      have hfile : t₁.node (skillDir name ++ [skillMd]) = some (.file content) := hcontent
      rw [hkept _ hdirne]
      exact DirTree.isDir_of_child hfile
    have hempty : t₂.names (skillDir name) = [] := by
      rw [List.eq_nil_iff_forall_not_mem]
      intro other hother
      obtain ⟨node, hnode⟩ := DirTree.mem_names.1 hother
      by_cases hskill : other = skillMd
      · rw [(hchild other).2 hskill, hgone] at hnode
        cases hnode
      · rw [hkept _ fun heq => hskill ((hchild other).1 heq)] at hnode
        exact hskill (halone hfile other (DirTree.mem_names.2 ⟨node, hnode⟩))
    obtain ⟨t₃, hok⟩ := DirTree.exists_removeDir hdir hempty
    have herr' : t₂.removeDir (skillDir name) = .error err := herr
    rw [hok] at herr'
    cases herr'

/-! ## Writing `config.yaml` -/

variable {serde : StoreSerde V E}

/-- A layer without a directory has an empty configuration. -/
theorem loadConfigLayer_of_none {config : Serde V E} {path : Text} {t : Tree}
    (h : t.node [] = none) :
    LayerDir.loadConfigLayer config ⟨path, t⟩ = .ok .empty := by
  have hnotDir : t.node [] ≠ some .dir := by
    rw [h]
    exact nofun
  have hfile : t.node [configYaml] = none := DirTree.lookup_child_of_not_dir hnotDir configYaml
  have hmissing : t.missing [configYaml] = .notFound := by
    unfold DirTree.missing
    rw [if_neg]
    simp [DirTree.isFile, h, hfile]
  have hread : readToString [configYaml] t = .error .notFound := by
    unfold readToString DirTree.readFile
    rw [hfile, hmissing]
    rfl
  unfold LayerDir.loadConfigLayer
  rw [hread]

/-- The write of a `config.yaml` keeps the tree when it fails, if there is a directory or the file
can be printed. -/
theorem keeps_writeConfigLayer {config : Serde V E} {path : Text} {raw : RawConfigFile V} {t : Tree}
    (h : t.node [] = none → ∃ text, config.toStr raw = .ok text) :
    Mutator.Keeps (writeConfigLayer config path raw) t := by
  intro e t' hexec
  unfold writeConfigLayer at hexec
  rcases Effect.exec_bind_error.1 hexec with herr | ⟨u, t₁, hdirs, hrest⟩
  · exact (DirTree.atomic_createDirAll []).mapError ioError _ _ _ herr
  rw [io, Effect.exec_mapError_ok] at hdirs
  have hmade := DirTree.exec_createDirAll_ok hdirs
  rcases Effect.exec_bind_error.1 hrest with herr | ⟨text, t₂, hprint, hwrite⟩
  · obtain ⟨herr, rfl⟩ : (config.toStr raw).mapError _ = .error e ∧ t' = t₁ := by
      have hread : (Except.mapError _ (config.toStr raw), t₁) = (.error e, t') := herr
      exact ⟨congrArg Prod.fst hread, (congrArg Prod.snd hread).symm⟩
    cases hroot : t.node [] with
    | none =>
      obtain ⟨text, htext⟩ := h hroot
      rw [htext] at herr
      cases herr
    | some node =>
      have hdir : t.node [] = some .dir := by
        rw [hroot, ← hmade.kept _ _ hroot]
        exact hmade.made
      have hsame := (DirTree.exec_createDirAll_of_isDir hdir).symm.trans hdirs
      exact (congrArg Prod.snd hsame).symm
  · obtain ⟨-, rfl⟩ := Effect.exec_read_ok.1 hprint
    obtain ⟨⟨err, herr⟩, -, rfl⟩ := exec_io_change_error.1 hwrite
    apply DirTree.atomic_createDirAll_write [] configYaml (some text) t t' err
    rw [Effect.exec_bind_of_ok hdirs]
    exact Effect.exec_change_error.2 ⟨herr, rfl⟩

variable [DecidableEq V]

theorem keeps_mutateConfig_iff {config : Serde V E} {path : Text} {layer : Layer} {op : Op}
    {t : Tree} : Mutator.Keeps (mutateConfig config path layer op) t ↔
      (t.node [] = none → ∀ raw, op.apply config layer .empty = .ok raw →
        ∃ text, config.toStr raw = .ok text) := by
  constructor
  · intro hkeeps hroot raw happly
    cases hprint : config.toStr raw with
    | ok text => exact ⟨text, rfl⟩
    | error e =>
      obtain ⟨t₁, hdirs, hmade⟩ : ∃ t₁, (DirTree.createDirAll []).exec t = (.ok (), t₁) ∧
          DirTree.MadeDirs [] t t₁ := DirTree.exec_createFrom_fresh hroot (.inl rfl)
      have hio : (io (DirTree.createDirAll [])).exec t = (.ok (), t₁) :=
        Effect.exec_mapError_ok.2 hdirs
      have hexec : ∃ err, (mutateConfig config path layer op).exec t = (.error err, t₁) := by
        unfold mutateConfig writeConfigLayer
        rw [Effect.exec_bind, Effect.exec_read, loadConfigLayer_of_none hroot]
        dsimp only
        rw [Effect.exec_bind, lift, Effect.exec_read, happly]
        dsimp only
        rw [Effect.exec_bind_of_ok hio, Effect.exec_bind, lift, Effect.exec_read, hprint]
        exact ⟨_, rfl⟩
      obtain ⟨err, hexec⟩ := hexec
      have hmadeRoot := hmade.made
      rw [hkeeps _ _ hexec] at hmadeRoot
      exact absurd (hroot.symm.trans hmadeRoot) nofun
  · intro hprints e t' hexec
    unfold mutateConfig at hexec
    rcases Effect.exec_bind_error.1 hexec with herr | ⟨raw, t₁, hload, hrest⟩
    · exact (Effect.readOnly_read _).eq herr
    obtain ⟨hload, rfl⟩ := Effect.exec_read_ok.1 hload
    rcases Effect.exec_bind_error.1 hrest with herr | ⟨raw', t₂, hlift, hwrite⟩
    · exact (readOnly_lift _).eq herr
    obtain ⟨happly, rfl⟩ := Effect.exec_read_ok.1 hlift
    refine keeps_writeConfigLayer (fun hroot => ?_) e t' hwrite
    rw [loadConfigLayer_of_none hroot] at hload
    cases hload
    exact hprints hroot raw' happly

/-! ## The store -/

/-- Nothing is left half done if this fails: the directory of a skill that is deleted has
nothing beside the `SKILL.md`, and a `config.yaml` for which a directory is made can be
printed. -/
def StoreOp.Whole (serde : StoreSerde V E) (layer : Layer) (t : Tree) : StoreOp → Prop
  | .config op => t.node [] = none → ∀ raw, op.apply serde.config layer .empty = .ok raw →
      ∃ text, serde.config.toStr raw = .ok text
  | .deleteSkill name => t.isFile (skillFile name) = true →
      ∀ other ∈ t.names (skillDir name), other = skillMd
  | _ => True

theorem StoreOp.keeps_iff (op : StoreOp) (path : Text) (layer : Layer) (t : Tree) :
    Mutator.Keeps (op.mutate serde path layer) t ↔ op.Whole serde layer t := by
  cases op with
  | config op => exact keeps_mutateConfig_iff
  | deleteSkill name => exact keeps_deleteSkill_iff
  | createToolset | createAgent | createSkill =>
    exact iff_of_true (Effect.Atomic.keeps (FileKind.atomic_createFile _ _ _ _) t) trivial
  | updateToolset | updateAgent | updateSkill =>
    exact iff_of_true (Effect.Atomic.keeps (FileKind.atomic_updateFile _ _ _ _ _) t) trivial
  | deleteToolset | deleteAgent =>
    exact iff_of_true (Effect.Atomic.keeps (FileKind.atomic_deleteFile _ _ _) t) trivial

/-- An error of the call leaves the store as it is. -/
def StoreCall.Unchanged (serde : StoreSerde V E) (c : StoreCall) (fs : FsConfigStore) : Prop :=
  ∀ e fs', (FsConfigStore.call serde c).exec fs = (.error e, fs') → fs' = fs

theorem FsConfigStore.exec_call_of_valid (serde : StoreSerde V E) {fs : FsConfigStore}
    {c : StoreCall} {dir : LayerDir}
    (hvalid : c.op.validate = .ok ()) (hdir : fs.dir c.layer = some dir) :
    (call serde c).exec fs =
      (((c.op.mutate serde dir.path c.layer).exec dir.tree).1,
        fs.setTree ((c.op.mutate serde dir.path c.layer).exec dir.tree).2 c.layer) := by
  unfold call
  rw [Effect.exec_bind, Effect.exec_read, hvalid]
  dsimp only
  rw [Effect.exec_bind, Effect.exec_read, layerDir, hdir]
  rfl

theorem StoreCall.Unchanged.whole {c : StoreCall} {fs : FsConfigStore}
    (hunchanged : c.Unchanged serde fs) (hvalid : c.op.validate = .ok ()) {dir : LayerDir}
    (hdir : fs.dir c.layer = some dir) : c.op.Whole serde c.layer dir.tree := by
  rw [← StoreOp.keeps_iff c.op dir.path]
  intro e t' hexec
  have hcall := FsConfigStore.exec_call_of_valid serde hvalid hdir
  rw [hexec] at hcall
  have hsame := congrArg (FsConfigStore.dir · c.layer) (hunchanged e _ hcall)
  rw [FsConfigStore.dir_setTree_self, hdir] at hsame
  exact congrArg LayerDir.tree (Option.some.inj hsame)

/-- A call that fails changes nothing, if and only if nothing can be left half done in its
layer, or it is refused before it gets there. -/
theorem StoreCall.unchanged_iff (c : StoreCall) (fs : FsConfigStore) :
    c.Unchanged serde fs ↔ (c.op.validate = .ok () → ∀ dir, fs.dir c.layer = some dir →
      c.op.Whole serde c.layer dir.tree) := by
  constructor
  · intro hunchanged hvalid dir hdir
    exact hunchanged.whole hvalid hdir
  · intro hwhole e fs' hexec
    rcases FsConfigStore.exec_call hexec with
      ⟨-, -, hsame, -⟩ | ⟨dir, t, hvalid, hdir, hmutate, rfl⟩
    · exact hsame
    · have hkeeps := (StoreOp.keeps_iff c.op dir.path c.layer dir.tree).2 (hwhole hvalid dir hdir)
      rw [hkeeps e t hmutate]
      exact FsConfigStore.setTree_self hdir

/-- A library that has nothing to read and to print. -/
def idleSerde : StoreSerde Unit Unit where
  config :=
    { string := fun _ => ()
      toJson := fun _ => .ok .null
      key := fun _ => .error []
      toValue := fun _ => ()
      fromValue := fun _ _ => .ok ()
      fromStr := fun _ => .error []
      toStr := fun _ => .error [] }
  files :=
    { toStr := fun _ => .error []
      agent := fun _ => .error []
      skill := fun _ => .error []
      toolset := fun _ => .error [] }
  asStr := fun _ => none

/-- A skill whose directory has a script beside the `SKILL.md`. -/
def scriptTree : Tree :=
  (Effect.exec (do
    DirTree.createDirAll (skillDir ['s'])
    Effect.change (DirTree.write (skillFile ['s']) (some []))
    Effect.change (DirTree.write (skillDir ['s'] ++ [['x']]) (some []))) .empty).2

/-- The deletion of this skill fails, and its `SKILL.md` is gone. -/
theorem deleteSkill_half_done : ¬ ∀ (V E : Type) [DecidableEq V] (serde : StoreSerde V E)
    (c : StoreCall) (fs : FsConfigStore), c.Unchanged serde fs := by
  intro h
  have hunchanged := h Unit Unit idleSerde ⟨.global, .deleteSkill ['s']⟩ ⟨⟨[], scriptTree⟩, none⟩
  have hwhole : scriptTree.isFile (skillFile ['s']) = true →
      ∀ other ∈ scriptTree.names (skillDir ['s']), other = skillMd :=
    hunchanged.whole rfl rfl
  have hother := hwhole (by decide +kernel) ['x'] (by decide +kernel)
  exact absurd hother (by decide)

end Vanyline.Cfgstore
