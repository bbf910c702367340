import Mathlib.Data.List.AList
import Mathlib.Data.List.Infix
import Vanyline.Lib.Effect

/-!
# Trees of directories and files

A `DirTree` is what a file system has at a place: nothing, a file, or a directory with what is
below it.  A path is the list of names from that place down.  The contents of files are a type
parameter.

An operation fails only when the tree makes it fail: something is missing, is of the other
sort or is not empty.

* `node_write`, `node_removeFile` and `node_removeDir` say what the operations that succeed
  make of every path, and `MadeDirs` says so for `createDirAll`.
* `createDirAll` makes the missing directories from the top down, and is still atomic: once
  one is new, everything below it is free (`exec_createFrom_fresh`).
* `atomic_createDirAll_write` is about a file that is written into a directory that may have
  been made for it.
-/

namespace Vanyline.Lib

abbrev DirPath := List (List Char)

inductive DirNode (α : Type)
  | dir
  | file (content : α)
  deriving DecidableEq

inductive IoError
  | notFound
  | notADirectory
  | isADirectory
  | alreadyExists
  | directoryNotEmpty
  | invalidData
  deriving DecidableEq

namespace DirTree

/-- Is there a directory at the path? -/
def dirIn {α : Type} (nodes : AList fun _ : DirPath => DirNode α) (path : DirPath) : Bool :=
  match nodes.lookup path with
  | some .dir => true
  | _ => false

/-- Everything but the top lies in a directory. -/
def Nested {α : Type} (nodes : AList fun _ : DirPath => DirNode α) : Prop :=
  ∀ path, path ≠ [] → (nodes.lookup path).isSome → dirIn nodes path.dropLast = true

end DirTree

structure DirTree (α : Type) where
  nodes : AList fun _ : DirPath => DirNode α
  nested : DirTree.Nested nodes

namespace DirTree

variable {α : Type}

def empty : DirTree α := ⟨∅, fun _ _ h => by simp at h⟩

def node (t : DirTree α) (path : DirPath) : Option (DirNode α) := t.nodes.lookup path

def isDir (t : DirTree α) (path : DirPath) : Bool := dirIn t.nodes path

def isFile (t : DirTree α) (path : DirPath) : Bool :=
  match t.node path with
  | some (.file _) => true
  | _ => false

/-- The name of a path in a directory. -/
def childName (dir path : DirPath) : Option (List Char) :=
  if path.dropLast = dir then path.getLast? else none

/-- The names in a directory. -/
def names (t : DirTree α) (dir : DirPath) : List (List Char) :=
  t.nodes.keys.filterMap (childName dir)

/-- The error at a path that has nothing. -/
def missing (t : DirTree α) (path : DirPath) : IoError :=
  if path.inits.any t.isFile then .notADirectory else .notFound

/-! ## Reading -/

theorem dirIn_iff {nodes : AList fun _ : DirPath => DirNode α} {path : DirPath} :
    dirIn nodes path = true ↔ nodes.lookup path = some .dir := by
  unfold dirIn
  split
  · rename_i h
    exact ⟨fun _ => h, fun _ => rfl⟩
  · rename_i h
    exact ⟨fun hf => (by cases hf), fun hd => absurd hd h⟩

theorem isDir_iff {t : DirTree α} {path : DirPath} :
    t.isDir path = true ↔ t.node path = some .dir := dirIn_iff

theorem isFile_iff {t : DirTree α} {path : DirPath} :
    t.isFile path = true ↔ ∃ c, t.node path = some (.file c) := by
  unfold isFile
  split
  · rename_i c h
    exact ⟨fun _ => ⟨c, h⟩, fun _ => rfl⟩
  · rename_i h
    exact ⟨fun hf => (by cases hf), fun ⟨c, hc⟩ => absurd hc (h c)⟩

/-- What lies in a directory has that directory above it. -/
theorem isDir_of_child {t : DirTree α} {dir : DirPath} {name : List Char} {nd : DirNode α}
    (h : t.node (dir ++ [name]) = some nd) : t.node dir = some .dir := by
  have hsome : (t.nodes.lookup (dir ++ [name])).isSome = true := by
    rw [show t.nodes.lookup (dir ++ [name]) = some nd from h]
    rfl
  have hnested := t.nested (dir ++ [name]) (by simp) hsome
  rw [List.dropLast_concat, dirIn_iff] at hnested
  exact hnested

theorem childName_eq_some {dir path : DirPath} {name : List Char} :
    childName dir path = some name ↔ path = dir ++ [name] := by
  unfold childName
  constructor
  · intro h
    split_ifs at h with hdir
    have hpath := List.dropLast_append_getLast? name h
    rw [← hpath, hdir]
  · rintro rfl
    rw [List.dropLast_concat, if_pos rfl, List.getLast?_concat]

theorem mem_names {t : DirTree α} {dir : DirPath} {name : List Char} :
    name ∈ t.names dir ↔ ∃ nd, t.node (dir ++ [name]) = some nd := by
  unfold names
  rw [List.mem_filterMap]
  constructor
  · rintro ⟨path, hpath, hname⟩
    rw [childName_eq_some] at hname
    subst hname
    exact Option.isSome_iff_exists.1 (AList.lookup_isSome.2 hpath)
  · rintro ⟨nd, hnd⟩
    refine ⟨dir ++ [name], ?_, childName_eq_some.2 rfl⟩
    exact AList.lookup_isSome.1 (Option.isSome_iff_exists.2 ⟨nd, hnd⟩)

def readFile (path : DirPath) (t : DirTree α) : Except IoError α :=
  match t.node path with
  | some (.file c) => .ok c
  | some .dir => .error .isADirectory
  | none => .error (t.missing path)

def readDir (path : DirPath) (t : DirTree α) : Except IoError (List (List Char)) :=
  match t.node path with
  | some .dir => .ok (t.names path)
  | some (.file _) => .error .notADirectory
  | none => .error (t.missing path)

/-! ## Changing -/

theorem Nested.insert {nodes : AList fun _ : DirPath => DirNode α} (h : Nested nodes)
    {path : DirPath} {nd : DirNode α} (hparent : path = [] ∨ dirIn nodes path.dropLast = true)
    (hdir : dirIn nodes path = true → nd = .dir) : Nested (nodes.insert path nd) := by
  have hkeep : ∀ q, q ≠ path → dirIn (nodes.insert path nd) q = dirIn nodes q := by
    intro q hq
    unfold dirIn
    rw [AList.lookup_insert_ne hq]
  have hgrow : ∀ q, dirIn nodes q = true → dirIn (nodes.insert path nd) q = true := by
    intro q hq
    by_cases heq : q = path
    · subst heq
      rw [dirIn_iff, AList.lookup_insert, hdir hq]
    · rw [hkeep q heq]
      exact hq
  intro q hq hsome
  by_cases heq : q = path
  · subst heq
    exact hgrow _ (hparent.resolve_left hq)
  · rw [AList.lookup_insert_ne heq] at hsome
    exact hgrow _ (h q hq hsome)

theorem Nested.erase {nodes : AList fun _ : DirPath => DirNode α} (h : Nested nodes)
    {path : DirPath} (hfree : ∀ name, nodes.lookup (path ++ [name]) = none) :
    Nested (nodes.erase path) := by
  intro q hq hsome
  have hne : q ≠ path := by
    intro heq
    subst heq
    rw [AList.lookup_erase] at hsome
    cases hsome
  rw [AList.lookup_erase_ne hne] at hsome
  have hdir := h q hq hsome
  have hparent : q.dropLast ≠ path := by
    intro heq
    have hfree := hfree (q.getLast hq)
    rw [← heq, List.dropLast_append_getLast hq] at hfree
    rw [hfree] at hsome
    cases hsome
  unfold dirIn
  rw [AList.lookup_erase_ne hparent]
  exact hdir

/-- Nothing lies below what is no directory. -/
theorem lookup_child_of_not_dir {t : DirTree α} {path : DirPath}
    (h : t.node path ≠ some .dir) (name : List Char) : t.nodes.lookup (path ++ [name]) = none := by
  cases hchild : t.nodes.lookup (path ++ [name]) with
  | none => rfl
  | some nd => exact absurd (isDir_of_child hchild) h

/-- One directory, if it is not there yet. -/
def createDir (path : DirPath) (t : DirTree α) : Except IoError (DirTree α) :=
  match t.node path with
  | some .dir => .ok t
  | some (.file _) => .error .alreadyExists
  | none =>
    if h : path = [] ∨ dirIn t.nodes path.dropLast = true then
      .ok ⟨t.nodes.insert path .dir, t.nested.insert h fun _ => rfl⟩
    else .error (t.missing path)

/-- The directories from a path down. -/
def createFrom (dir : DirPath) : DirPath → Effect (DirTree α) IoError Unit
  | [] => .change (createDir dir)
  | name :: rest => do
    Effect.change (createDir dir)
    createFrom (dir ++ [name]) rest

def createDirAll (path : DirPath) : Effect (DirTree α) IoError Unit := createFrom [] path

def write (path : DirPath) (content : α) (t : DirTree α) : Except IoError (DirTree α) :=
  if hdir : t.isDir path = true then .error .isADirectory
  else if h : path = [] ∨ dirIn t.nodes path.dropLast = true then
    .ok ⟨t.nodes.insert path (.file content), t.nested.insert h fun hd => absurd hd hdir⟩
  else .error (t.missing path)

def removeFile (path : DirPath) (t : DirTree α) : Except IoError (DirTree α) :=
  match h : t.node path with
  | some (.file _) =>
    .ok ⟨t.nodes.erase path, t.nested.erase (lookup_child_of_not_dir (by rw [h]; simp))⟩
  | some .dir => .error .isADirectory
  | none => .error (t.missing path)

theorem lookup_child_of_names {t : DirTree α} {path : DirPath} (h : t.names path = [])
    (name : List Char) : t.nodes.lookup (path ++ [name]) = none := by
  cases hchild : t.nodes.lookup (path ++ [name]) with
  | none => rfl
  | some nd =>
    have hmem : name ∈ t.names path := mem_names.2 ⟨nd, hchild⟩
    rw [h] at hmem
    cases hmem

def removeDir (path : DirPath) (t : DirTree α) : Except IoError (DirTree α) :=
  match t.node path with
  | some .dir =>
    if h : t.names path = [] then .ok ⟨t.nodes.erase path, t.nested.erase (lookup_child_of_names h)⟩
    else .error .directoryNotEmpty
  | some (.file _) => .error .notADirectory
  | none => .error (t.missing path)

/-! ## What the operations do -/

theorem readFile_eq_ok {t : DirTree α} {path : DirPath} {c : α} :
    t.readFile path = .ok c ↔ t.node path = some (.file c) := by
  unfold readFile
  split
  · rename_i c' h
    rw [h, Except.ok.injEq, Option.some.injEq, DirNode.file.injEq]
  · rename_i h
    rw [h]
    exact ⟨fun hf => (by cases hf), fun hf => (by cases hf)⟩
  · rename_i h
    rw [h]
    exact ⟨fun hf => (by cases hf), fun hf => (by cases hf)⟩

theorem readDir_eq_ok {t : DirTree α} {path : DirPath} {names : List (List Char)} :
    t.readDir path = .ok names ↔ t.node path = some .dir ∧ names = t.names path := by
  unfold readDir
  split
  · rename_i h
    rw [h, Except.ok.injEq, eq_comm]
    exact ⟨fun heq => ⟨rfl, heq⟩, And.right⟩
  · rename_i c h
    rw [h]
    exact ⟨fun hf => (by cases hf), fun hf => (by cases hf.1)⟩
  · rename_i h
    rw [h]
    exact ⟨fun hf => (by cases hf), fun hf => (by cases hf.1)⟩

theorem createDir_of_isDir {t : DirTree α} {path : DirPath} (h : t.node path = some .dir) :
    t.createDir path = .ok t := by
  unfold createDir
  rw [h]

theorem createDir_of_isFile {t : DirTree α} {path : DirPath} {c : α}
    (h : t.node path = some (.file c)) : t.createDir path = .error .alreadyExists := by
  unfold createDir
  rw [h]

/-- A directory that is made is all that is new. -/
theorem createDir_of_none {t : DirTree α} {path : DirPath} (h : t.node path = none)
    (hparent : path = [] ∨ t.node path.dropLast = some .dir) :
    ∃ t', t.createDir path = .ok t' ∧ t'.node path = some .dir ∧
      ∀ q, q ≠ path → t'.node q = t.node q := by
  have hparent' : path = [] ∨ dirIn t.nodes path.dropLast = true :=
    hparent.imp_right dirIn_iff.2
  refine ⟨⟨t.nodes.insert path .dir, t.nested.insert hparent' fun _ => rfl⟩, ?_, ?_, ?_⟩
  · unfold createDir
    rw [h]
    exact dif_pos hparent'
  · exact AList.lookup_insert _
  · intro q hq
    exact AList.lookup_insert_ne hq

theorem write_eq_ok {t t' : DirTree α} {path : DirPath} {c : α} (h : t.write path c = .ok t') :
    t.node path ≠ some .dir ∧ t'.node path = some (.file c) ∧
      ∀ q, q ≠ path → t'.node q = t.node q := by
  unfold write at h
  split_ifs at h with hdir hparent
  cases h
  refine ⟨fun hd => hdir (isDir_iff.2 hd), AList.lookup_insert _, ?_⟩
  intro q hq
  exact AList.lookup_insert_ne hq

theorem exists_write {t : DirTree α} {path : DirPath} (c : α) (hdir : t.node path ≠ some .dir)
    (hparent : path = [] ∨ t.node path.dropLast = some .dir) : ∃ t', t.write path c = .ok t' := by
  unfold write
  rw [dif_neg fun hd => hdir (isDir_iff.1 hd), dif_pos (hparent.imp_right dirIn_iff.2)]
  exact ⟨_, rfl⟩

theorem removeFile_eq_ok {t t' : DirTree α} {path : DirPath} (h : t.removeFile path = .ok t') :
    (∃ c, t.node path = some (.file c)) ∧ t'.node path = none ∧
      ∀ q, q ≠ path → t'.node q = t.node q := by
  unfold removeFile at h
  split at h
  · rename_i c hc
    cases h
    refine ⟨⟨c, hc⟩, AList.lookup_erase _ _, ?_⟩
    intro q hq
    exact AList.lookup_erase_ne hq
  · cases h
  · cases h

theorem exists_removeFile {t : DirTree α} {path : DirPath} {c : α}
    (h : t.node path = some (.file c)) : ∃ t', t.removeFile path = .ok t' := by
  unfold removeFile
  split
  · exact ⟨_, rfl⟩
  · rename_i hd
    rw [h] at hd
    cases hd
  · rename_i hn
    rw [h] at hn
    cases hn

theorem removeDir_eq_ok {t t' : DirTree α} {path : DirPath} (h : t.removeDir path = .ok t') :
    t.node path = some .dir ∧ t.names path = [] ∧ t'.node path = none ∧
      ∀ q, q ≠ path → t'.node q = t.node q := by
  unfold removeDir at h
  split at h
  · rename_i hdir
    split_ifs at h with hempty
    cases h
    refine ⟨hdir, hempty, AList.lookup_erase _ _, ?_⟩
    intro q hq
    exact AList.lookup_erase_ne hq
  · cases h
  · cases h

theorem exists_removeDir {t : DirTree α} {path : DirPath} (h : t.node path = some .dir)
    (hempty : t.names path = []) : ∃ t', t.removeDir path = .ok t' := by
  unfold removeDir
  rw [h]
  exact ⟨_, dif_pos hempty⟩

/-! ## Directories on the way to a path -/

/-- Only directories on the way to the path are new, and it is one now. -/
structure MadeDirs (path : DirPath) (t t' : DirTree α) : Prop where
  kept : ∀ q nd, t.node q = some nd → t'.node q = some nd
  fresh : ∀ q nd, t.node q = none → t'.node q = some nd → q <+: path ∧ nd = .dir
  made : t'.node path = some .dir

theorem MadeDirs.refl {path : DirPath} {t : DirTree α} (h : t.node path = some .dir) :
    MadeDirs path t t := by
  refine ⟨fun _ _ hq => hq, ?_, h⟩
  intro q nd hnone hq
  rw [hnone] at hq
  cases hq

theorem MadeDirs.trans {path rest : DirPath} {t₁ t₂ t₃ : DirTree α} (h : MadeDirs path t₁ t₂)
    (h' : MadeDirs (path ++ rest) t₂ t₃) : MadeDirs (path ++ rest) t₁ t₃ := by
  refine ⟨fun q nd hq => h'.kept q nd (h.kept q nd hq), ?_, h'.made⟩
  intro q nd hnone hq
  cases hmid : t₂.node q with
  | none => exact h'.fresh q nd hmid hq
  | some nd' =>
    obtain ⟨hle, hdir⟩ := h.fresh q nd' hnone hmid
    subst hdir
    have heq := (h'.kept q .dir hmid).symm.trans hq
    cases heq
    exact ⟨hle.trans (List.prefix_append ..), rfl⟩

theorem MadeDirs.of_createDir {path : DirPath} {t t' : DirTree α} (hnone : t.node path = none)
    (hmade : t'.node path = some .dir) (hkeep : ∀ q, q ≠ path → t'.node q = t.node q) :
    MadeDirs path t t' := by
  refine ⟨?_, ?_, hmade⟩
  · intro q nd hq
    have hne : q ≠ path := by
      intro heq
      subst heq
      rw [hnone] at hq
      cases hq
    rw [hkeep q hne]
    exact hq
  · intro q nd hq hq'
    by_cases heq : q = path
    · subst heq
      rw [hmade, Option.some.injEq] at hq'
      exact ⟨List.prefix_rfl, hq'.symm⟩
    · rw [hkeep q heq, hq] at hq'
      cases hq'

/-- Below a directory that is made everything is free, so nothing can fail. -/
theorem exec_createFrom_fresh {rest dir : DirPath} {t : DirTree α} (hnone : t.node dir = none)
    (hparent : dir = [] ∨ t.node dir.dropLast = some .dir) :
    ∃ t', (createFrom dir rest).exec t = (.ok (), t') ∧ MadeDirs (dir ++ rest) t t' := by
  induction rest generalizing dir t with
  | nil =>
    obtain ⟨t', hcreate, hmade, hkeep⟩ := createDir_of_none hnone hparent
    rw [List.append_nil]
    exact ⟨t', Effect.exec_change_ok.2 hcreate, MadeDirs.of_createDir hnone hmade hkeep⟩
  | cons name rest ih =>
    obtain ⟨t₁, hcreate, hmade, hkeep⟩ := createDir_of_none hnone hparent
    have hchild : t₁.node (dir ++ [name]) = none := by
      rw [hkeep _ (by simp)]
      exact lookup_child_of_not_dir (by rw [hnone]; simp) name
    obtain ⟨t₂, hexec, hdirs⟩ := ih hchild (.inr (by rw [List.dropLast_concat]; exact hmade))
    rw [List.append_assoc, List.singleton_append] at hdirs
    refine ⟨t₂, ?_, (MadeDirs.of_createDir hnone hmade hkeep).trans hdirs⟩
    have hmake := Effect.exec_change_ok (u := ()).2 hcreate
    rw [createFrom, Effect.exec_bind_of_ok hmake]
    exact hexec

/-- The directories are made, or a file is in the way and nothing is. -/
theorem exec_createFrom {rest dir : DirPath} {t : DirTree α}
    (hparent : dir = [] ∨ t.node dir.dropLast = some .dir) :
    (∃ t', (createFrom dir rest).exec t = (.ok (), t') ∧ MadeDirs (dir ++ rest) t t') ∨
      ∃ e, (createFrom dir rest).exec t = (.error e, t) := by
  induction rest generalizing dir with
  | nil =>
    cases hnode : t.node dir with
    | none => exact .inl (exec_createFrom_fresh hnode hparent)
    | some nd =>
      cases nd with
      | file c => exact .inr ⟨_, Effect.exec_change_error.2 ⟨createDir_of_isFile hnode, rfl⟩⟩
      | dir =>
        refine .inl ⟨t, Effect.exec_change_ok.2 (createDir_of_isDir hnode), ?_⟩
        rw [List.append_nil]
        exact MadeDirs.refl hnode
  | cons name rest ih =>
    cases hnode : t.node dir with
    | none => exact .inl (exec_createFrom_fresh hnode hparent)
    | some nd =>
      cases nd with
      | file c =>
        have hfail := Effect.exec_change_error.2 ⟨createDir_of_isFile hnode, rfl⟩
        exact .inr ⟨_, Effect.exec_bind_of_error hfail⟩
      | dir =>
        have hsame := Effect.exec_change_ok (u := ()).2 (createDir_of_isDir hnode)
        have happ : dir ++ name :: rest = dir ++ [name] ++ rest := by simp
        rw [createFrom, Effect.exec_bind_of_ok hsame, happ]
        exact ih (.inr (by rw [List.dropLast_concat]; exact hnode))

theorem isDir_of_append {t : DirTree α} {path rest : DirPath}
    (h : t.node (path ++ rest) = some .dir) : t.node path = some .dir := by
  induction rest using List.reverseRecOn with
  | nil =>
    rw [List.append_nil] at h
    exact h
  | append_singleton rest name ih =>
    rw [← List.append_assoc] at h
    exact ih (isDir_of_child h)

theorem exec_createFrom_of_isDir {rest dir : DirPath} {t : DirTree α}
    (h : t.node (dir ++ rest) = some .dir) : (createFrom dir rest).exec t = (.ok (), t) := by
  have hsame := Effect.exec_change_ok (u := ()).2 (createDir_of_isDir (isDir_of_append h))
  induction rest generalizing dir with
  | nil => exact hsame
  | cons name rest ih =>
    have happ : dir ++ name :: rest = dir ++ [name] ++ rest := by simp
    rw [happ] at h
    rw [createFrom, Effect.exec_bind_of_ok hsame]
    exact ih h (Effect.exec_change_ok.2 (createDir_of_isDir (isDir_of_append h)))

theorem exec_createDirAll (path : DirPath) (t : DirTree α) :
    (∃ t', (createDirAll path).exec t = (.ok (), t') ∧ MadeDirs path t t') ∨
      ∃ e, (createDirAll path).exec t = (.error e, t) :=
  exec_createFrom (.inl rfl)

theorem exec_createDirAll_ok {path : DirPath} {t t' : DirTree α} {u : Unit}
    (h : (createDirAll path).exec t = (.ok u, t')) : MadeDirs path t t' := by
  rcases exec_createDirAll path t with
    ⟨t₁, hexec, hdirs⟩ | ⟨e, hexec⟩
  · have heq := hexec.symm.trans h
    cases heq
    exact hdirs
  · have heq := hexec.symm.trans h
    cases heq

theorem exec_createDirAll_of_isDir {path : DirPath} {t : DirTree α}
    (h : t.node path = some .dir) : (createDirAll path).exec t = (.ok (), t) :=
  exec_createFrom_of_isDir h

theorem atomic_createDirAll (path : DirPath) :
    Effect.Atomic (createDirAll (α := α) path) := by
  intro t t' e h
  rcases exec_createDirAll path t with
    ⟨t₁, hexec, -⟩ | ⟨e', hexec⟩
  · have heq := hexec.symm.trans h
    cases heq
  · have heq := hexec.symm.trans h
    cases heq
    rfl

/-- A file that is written into a directory, which is made for it if it is missing.  The write
fails only at a directory of that name, and then the directory was there before. -/
theorem atomic_createDirAll_write (dir : DirPath) (name : List Char) (c : α) :
    Effect.Atomic (do createDirAll dir; Effect.change (write (dir ++ [name]) c)) := by
  intro t t' e h
  rcases Effect.exec_bind_error.1 h with herr | ⟨u, t₁, hok, herr⟩
  · exact atomic_createDirAll dir t t' e herr
  obtain ⟨hwrite, hsame⟩ := Effect.exec_change_error.1 herr
  subst hsame
  have hdirs := exec_createDirAll_ok hok
  have hblocked : t'.node (dir ++ [name]) = some .dir := by
    by_contra hfree
    obtain ⟨t₂, ht₂⟩ := exists_write c hfree
      (.inr (by rw [List.dropLast_concat]; exact hdirs.made))
    rw [hwrite] at ht₂
    cases ht₂
  have hbefore : t.node (dir ++ [name]) = some .dir := by
    cases hnode : t.node (dir ++ [name]) with
    | none =>
      obtain ⟨hle, -⟩ := hdirs.fresh _ _ hnode hblocked
      have hlength := hle.length_le
      rw [List.length_append, List.length_singleton] at hlength
      omega
    | some nd => exact (hdirs.kept _ _ hnode).symm.trans hblocked
  have hexec := exec_createDirAll_of_isDir (isDir_of_child hbefore)
  have heq := hexec.symm.trans hok
  cases heq
  rfl

end DirTree

end Vanyline.Lib
