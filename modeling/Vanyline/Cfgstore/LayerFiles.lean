import Vanyline.Cfgstore.Formats
import Vanyline.Lib.DirTree

/-!
# The layers as directories

`FsConfigStore` is the store with both of its layers, each of them a tree of directories and
files below its path.

* `listLayerFiles` and `listLayerSkillDirs` find the files of one layer, by name.  The
  listings of both layers are merged, and a file of the workspace hides the global one of its
  name.
* `list` has the listings of the configuration, of toolsets, agents and skills; `loadSkill`
  and `defaultAgent` are the other reads.
* `lookup_listLayerSkillDirs` says which skills are found in a tree.
-/

namespace Vanyline.Cfgstore

open Vanyline.Lib

/-- The content of a file, if it is UTF-8. -/
abbrev Tree := DirTree (Option Text)

structure LayerDir where
  path : Text
  tree : Tree

structure FsConfigStore where
  globalDir : LayerDir
  workspaceDir : Option LayerDir

/-- What the YAML and JSON libraries do for the store. -/
structure StoreSerde (V E : Type) where
  config : Serde V E
  files : FileSerde
  /-- `yaml_serde::Value::as_str`. -/
  asStr : V → Option Text

def FsConfigStore.dir (fs : FsConfigStore) : Layer → Option LayerDir
  | .global => some fs.globalDir
  | .workspace => fs.workspaceDir

/-! ## Reading files -/

def readToString (path : DirPath) (t : Tree) : Except IoError Text := do
  match ← t.readFile path with
  | some text => return text
  | none => .error .invalidData

/-- How a path below a layer is shown. -/
def display (dir : Text) (path : DirPath) : Text :=
  path.foldl (fun text name => text ++ '/' :: name) dir

def ioError (_ : IoError) : CfgStoreError := .io

variable {V E : Type}

/-- The `config.yaml` of a layer, which need not have one. -/
def LayerDir.loadConfigLayer (serde : Serde V E) (dir : LayerDir) :
    Except CfgStoreError (RawConfigFile V) :=
  match readToString [configYaml] dir.tree with
  | .ok content =>
    match serde.fromStr content with
    | .ok doc => .ok doc.raw
    | .error e =>
      .error (.config
        ("Failed to parse ".toList ++ display dir.path [configYaml] ++ ": ".toList ++ e))
  | .error .notFound => .ok .empty
  | .error _ => .error .io

/-! ## Finding files -/

/-- What is before the last dot of a name, and what is behind it. -/
def splitLastDot : Text → Option (Text × Text)
  | [] => none
  | c :: rest =>
    match splitLastDot rest with
    | some (before, after) => some (c :: before, after)
    | none => if c = '.' then some ([], rest) else none

/-- `file_stem` of a name with this extension.  A dot at the beginning begins no extension. -/
def fileStem (ext name : Text) : Option Text :=
  match splitLastDot name with
  | some (before, after) => if before ≠ [] ∧ after = ext then some before else none
  | none => none

/-- The names in a directory, which need not be there. -/
def namesIn (dir : DirPath) (t : Tree) : Except CfgStoreError (List Text) :=
  match t.readDir dir with
  | .ok names => .ok names
  | .error .notFound => .ok []
  | .error _ => .error .io

def listLayerFiles (dir : DirPath) (ext : Text) (t : Tree) :
    Except CfgStoreError (SortedMap Text DirPath) := do
  let names ← namesIn dir t
  return .ofList (names.filterMap fun name =>
    if t.isFile (dir ++ [name]) then (fileStem ext name).map fun stem => (stem, dir ++ [name])
    else none)

def skillMd : Text := "SKILL.md".toList

/-- A skill, if the name is that of one. -/
def skillEntry (dir : DirPath) (t : Tree) (name : Text) : Option (Text × DirPath) :=
  if t.isDir (dir ++ [name]) && t.isFile (dir ++ [name, skillMd]) then
    some (name, dir ++ [name, skillMd])
  else none

def listLayerSkillDirs (dir : DirPath) (t : Tree) :
    Except CfgStoreError (SortedMap Text DirPath) := do
  let names ← namesIn dir t
  return .ofList (names.filterMap (skillEntry dir t))

/-- What has a file of its own. -/
inductive FileKind
  | toolset
  | agent
  | skill
  deriving DecidableEq

namespace FileKind

def text : FileKind → Text
  | .toolset => "toolset".toList
  | .agent => "agent".toList
  | .skill => "skill".toList

def subdir : FileKind → Text
  | .toolset => "toolsets".toList
  | .agent => "agents".toList
  | .skill => "skills".toList

def list : FileKind → Tree → Except CfgStoreError (SortedMap Text DirPath)
  | .toolset => listLayerFiles [toolset.subdir] "yaml".toList
  | .agent => listLayerFiles [agent.subdir] "md".toList
  | .skill => listLayerSkillDirs [skill.subdir]

/-- The directory of the file of a name. -/
def dirOf : FileKind → Text → DirPath
  | .toolset, _ => [toolset.subdir]
  | .agent, _ => [agent.subdir]
  | .skill, name => [skill.subdir, name]

def fileName : FileKind → Text → Text
  | .toolset, name => name ++ ".yaml".toList
  | .agent, name => name ++ ".md".toList
  | .skill, _ => skillMd

/-- The path of the file of a name. -/
def pathOf (kind : FileKind) (name : Text) : DirPath := kind.dirOf name ++ [kind.fileName name]

end FileKind

/-! ## The reads of the store -/

structure FilePath where
  layer : Layer
  path : DirPath
  deriving DecidableEq

namespace FsConfigStore

/-- The file of a name, of both layers. -/
def resolve (kind : FileKind) (fs : FsConfigStore) :
    Except CfgStoreError (SortedMap Text FilePath) := do
  let global := (← kind.list fs.globalDir.tree).mapValues (FilePath.mk .global)
  match fs.workspaceDir with
  | some dir => return global.extend ((← kind.list dir.tree).mapValues (FilePath.mk .workspace))
  | none => return global

/-- The text of a file, and how its path is shown. -/
def readPath (fs : FsConfigStore) (p : FilePath) : Except CfgStoreError (Text × Text) :=
  match fs.dir p.layer with
  | some dir => do
    let content ← (readToString p.path dir.tree).mapError ioError
    return (display dir.path p.path, content)
  | none => .error .io

/-- What is made of the file of a name. -/
def readItem {α : Type} (parse : Text → Text → Text → Except CfgStoreError α) (fs : FsConfigStore)
    (entry : Text × FilePath) : Except CfgStoreError α := do
  let (path, content) ← fs.readPath entry.2
  parse entry.1 path content

/-- The files of a listing are read one after the other, and the first error ends it. -/
def readAll {α : Type} (parse : Text → Text → Text → Except CfgStoreError α) (fs : FsConfigStore) :
    List (Text × FilePath) → Except CfgStoreError (List α)
  | [] => .ok []
  | entry :: rest => do
    let item ← readItem parse fs entry
    return item :: (← readAll parse fs rest)

def listFiles {α : Type} (kind : FileKind) (parse : Text → Text → Text → Except CfgStoreError α)
    (fs : FsConfigStore) : Except CfgStoreError (List α) := do
  let files ← fs.resolve kind
  fs.readAll parse files.entries

variable (serde : StoreSerde V E)

def loadMergedConfig (fs : FsConfigStore) : Except CfgStoreError (RawConfigFile V) := do
  let global ← fs.globalDir.loadConfigLayer serde.config
  match fs.workspaceDir with
  | some dir => return mergeConfigLayers global (some (← dir.loadConfigLayer serde.config))
  | none => return mergeConfigLayers global none

def listEntries (kind : Kind) (fs : FsConfigStore) : Except CfgStoreError (List (Text × E)) := do
  let merged ← fs.loadMergedConfig serde
  decodeAll serde.config kind (merged.get kind.section).sorted

def listProviders : FsConfigStore → Except CfgStoreError (List (Text × E)) :=
  listEntries serde .provider

def listModels : FsConfigStore → Except CfgStoreError (List (Text × E)) := listEntries serde .model

def listMcpServers : FsConfigStore → Except CfgStoreError (List (Text × E)) :=
  listEntries serde .mcpServer

def listToolsets : FsConfigStore → Except CfgStoreError (List Toolset) :=
  listFiles .toolset (parseToolsetFile serde.files)

def listAgents : FsConfigStore → Except CfgStoreError (List Agent) :=
  listFiles .agent (parseAgentFile serde.files)

def listSkills : FsConfigStore → Except CfgStoreError (List SkillMeta) :=
  listFiles .skill (parseSkillFile serde.files)

def loadSkill (name : Text) (fs : FsConfigStore) : Except CfgStoreError Text := do
  let files ← fs.resolve .skill
  match files.lookup name with
  | some p => readItem (fun _ => skillBody) fs (name, p)
  | none => .error (.unknownReference "skill".toList name)

def defaultAgent (fs : FsConfigStore) : Except CfgStoreError (Option Text) := do
  let merged ← fs.loadMergedConfig serde
  match merged.defaults.lookup "agent".toList with
  | none => return none
  | some (.other v) =>
    match serde.asStr v with
    | some name => return some name
    | none => .error (.config "defaults.agent must be a string".toList)
  | some (.mapping _) => .error (.config "defaults.agent must be a string".toList)

end FsConfigStore

/-! ## What is found -/

/-- In a directory that is missing nothing is found. -/
theorem namesIn_eq_ok {dir : DirPath} {t : Tree} {names : List Text}
    (h : namesIn dir t = .ok names) : names = t.names dir := by
  unfold namesIn at h
  split at h
  · rename_i hread
    cases h
    exact (DirTree.readDir_eq_ok.1 hread).2
  · rename_i hread
    cases h
    cases hnames : t.names dir with
    | nil => rfl
    | cons name more =>
      have hmem : name ∈ t.names dir := by
        rw [hnames]
        exact List.mem_cons_self
      obtain ⟨node, hnode⟩ := DirTree.mem_names.1 hmem
      rw [DirTree.readDir_eq_ok.2 ⟨DirTree.isDir_of_child hnode, rfl⟩] at hread
      cases hread
  · cases h

theorem namesIn_of_isDir {dir : DirPath} {t : Tree} (h : t.node dir = some .dir) :
    namesIn dir t = .ok (t.names dir) := by
  rw [namesIn, DirTree.readDir_eq_ok.2 ⟨h, rfl⟩]

/-- The skills are the directories with a `SKILL.md`. -/
theorem lookup_listLayerSkillDirs {dir : DirPath} {t : Tree} {files : SortedMap Text DirPath}
    (h : listLayerSkillDirs dir t = .ok files) (name : Text) :
    files.lookup name =
      if t.isFile (dir ++ [name, skillMd]) then some (dir ++ [name, skillMd]) else none := by
  obtain ⟨names, hnames, hfiles⟩ := bind_eq_ok.1 h
  cases hfiles
  have hmem : ∀ key path, (key, path) ∈ names.filterMap (skillEntry dir t) ↔
      t.isFile (dir ++ [key, skillMd]) = true ∧ path = dir ++ [key, skillMd] := by
    intro key path
    rw [namesIn_eq_ok hnames, List.mem_filterMap]
    constructor
    · rintro ⟨child, -, hchild⟩
      unfold skillEntry at hchild
      split_ifs at hchild with hskill
      cases hchild
      exact ⟨(Bool.and_eq_true _ _ ▸ hskill).2, rfl⟩
    · rintro ⟨hfile, rfl⟩
      obtain ⟨content, hcontent⟩ := DirTree.isFile_iff.1 hfile
      have hpath : dir ++ [key, skillMd] = dir ++ [key] ++ [skillMd] := by simp
      rw [hpath] at hcontent
      have hdir := DirTree.isDir_of_child hcontent
      refine ⟨key, DirTree.mem_names.2 ⟨.dir, hdir⟩, ?_⟩
      rw [skillEntry, DirTree.isDir_iff.2 hdir, hfile]
      rfl
  have hunique : ∀ key path path', (key, path) ∈ names.filterMap (skillEntry dir t) →
      (key, path') ∈ names.filterMap (skillEntry dir t) → path = path' := by
    intro key path path' hpath hpath'
    rw [((hmem key path).1 hpath).2, ((hmem key path').1 hpath').2]
  split_ifs with hfile
  · exact (SortedMap.lookup_ofList_eq_some hunique).2 ((hmem _ _).2 ⟨hfile, rfl⟩)
  · cases hlookup : (SortedMap.ofList _).lookup name with
    | none => rfl
    | some path =>
      have hfound := (hmem _ _).1 ((SortedMap.lookup_ofList_eq_some hunique).1 hlookup)
      exact absurd hfound.1 hfile

theorem splitLastDot_eq_none {name : Text} (h : '.' ∉ name) : splitLastDot name = none := by
  induction name with
  | nil => rfl
  | cons c rest ih =>
    rw [List.mem_cons, not_or] at h
    rw [splitLastDot, ih h.2]
    exact if_neg (Ne.symm h.1)

theorem splitLastDot_append {before after : Text} (h : '.' ∉ after) :
    splitLastDot (before ++ '.' :: after) = some (before, after) := by
  induction before with
  | nil =>
    rw [List.nil_append, splitLastDot, splitLastDot_eq_none h]
    exact if_pos rfl
  | cons c before ih => rw [List.cons_append, splitLastDot, ih]

theorem eq_append_of_splitLastDot {name before after : Text}
    (h : splitLastDot name = some (before, after)) : name = before ++ '.' :: after := by
  induction name generalizing before with
  | nil => cases h
  | cons c rest ih =>
    unfold splitLastDot at h
    split at h
    · rename_i hrest
      cases h
      rw [ih hrest, List.cons_append]
    · split at h
      · rename_i hc
        cases h
        rw [hc, List.nil_append]
      · cases h

/-- A file has a stem, and a stem has one file. -/
theorem fileStem_eq_some {ext name stem : Text} (hext : '.' ∉ ext) :
    fileStem ext name = some stem ↔ stem ≠ [] ∧ name = stem ++ '.' :: ext := by
  unfold fileStem
  constructor
  · intro h
    split at h
    · rename_i before after hsplit
      split_ifs at h with hstem
      cases h
      exact ⟨hstem.1, by rw [eq_append_of_splitLastDot hsplit, hstem.2]⟩
    · cases h
  · rintro ⟨hstem, rfl⟩
    rw [splitLastDot_append hext]
    exact if_pos ⟨hstem, rfl⟩

/-- The files of a directory are found by their stems. -/
theorem lookup_listLayerFiles {dir : DirPath} {ext : Text} {t : Tree}
    {files : SortedMap Text DirPath} (hext : '.' ∉ ext) (h : listLayerFiles dir ext t = .ok files)
    {name : Text} (hname : name ≠ []) :
    files.lookup name = if t.isFile (dir ++ [name ++ '.' :: ext]) then
      some (dir ++ [name ++ '.' :: ext]) else none := by
  obtain ⟨names, hnames, hfiles⟩ := bind_eq_ok.1 h
  cases hfiles
  have hmem : ∀ key path, (key, path) ∈ (names.filterMap fun name =>
      if t.isFile (dir ++ [name]) then (fileStem ext name).map fun stem => (stem, dir ++ [name])
      else none) ↔ key ≠ [] ∧ t.isFile (dir ++ [key ++ '.' :: ext]) = true ∧
        path = dir ++ [key ++ '.' :: ext] := by
    intro key path
    rw [namesIn_eq_ok hnames, List.mem_filterMap]
    constructor
    · rintro ⟨child, -, hchild⟩
      split_ifs at hchild with hfile
      obtain ⟨stem, hstem, heq⟩ := Option.map_eq_some_iff.1 hchild
      cases heq
      obtain ⟨hne, rfl⟩ := (fileStem_eq_some hext).1 hstem
      exact ⟨hne, hfile, rfl⟩
    · rintro ⟨hne, hfile, rfl⟩
      obtain ⟨content, hcontent⟩ := DirTree.isFile_iff.1 hfile
      refine ⟨key ++ '.' :: ext, DirTree.mem_names.2 ⟨_, hcontent⟩, ?_⟩
      rw [if_pos hfile, (fileStem_eq_some hext).2 ⟨hne, rfl⟩]
      rfl
  have hunique : ∀ key path path', (key, path) ∈ (names.filterMap fun name =>
      if t.isFile (dir ++ [name]) then (fileStem ext name).map fun stem => (stem, dir ++ [name])
      else none) → (key, path') ∈ (names.filterMap fun name =>
      if t.isFile (dir ++ [name]) then (fileStem ext name).map fun stem => (stem, dir ++ [name])
      else none) → path = path' := by
    intro key path path' hpath hpath'
    rw [((hmem key path).1 hpath).2.2, ((hmem key path').1 hpath').2.2]
  split_ifs with hfile
  · exact (SortedMap.lookup_ofList_eq_some hunique).2 ((hmem _ _).2 ⟨hname, hfile, rfl⟩)
  · cases hlookup : (SortedMap.ofList _).lookup name with
    | none => rfl
    | some path =>
      have hfound := (hmem _ _).1 ((SortedMap.lookup_ofList_eq_some hunique).1 hlookup)
      exact absurd hfound.2.1 hfile

namespace FsConfigStore

/-- A listing is read when each of its files is. -/
theorem readAll_eq_ok {α : Type} {parse : Text → Text → Text → Except CfgStoreError α}
    {fs : FsConfigStore} {entries : List (Text × FilePath)} {items : List α} :
    readAll parse fs entries = .ok items ↔
      List.Forall₂ (fun entry item => readItem parse fs entry = .ok item) entries items := by
  induction entries generalizing items with
  | nil =>
    rw [List.forall₂_nil_left_iff]
    exact ⟨fun h => (Except.ok.inj h).symm, fun h => congrArg Except.ok h.symm⟩
  | cons entry rest ih =>
    rw [readAll, bind_eq_ok, List.forall₂_cons_left_iff]
    constructor
    · rintro ⟨item, hitem, hrest⟩
      obtain ⟨more, hmore, hitems⟩ := bind_eq_ok.1 hrest
      exact ⟨item, more, hitem, ih.1 hmore, (Except.ok.inj hitems).symm⟩
    · rintro ⟨item, more, hitem, hmore, rfl⟩
      exact ⟨item, hitem, bind_eq_ok.2 ⟨more, ih.2 hmore, rfl⟩⟩

/-- Every item of a listing was read of one of its files. -/
theorem exists_of_mem_readAll {α : Type} {parse : Text → Text → Text → Except CfgStoreError α}
    {fs : FsConfigStore} {entries : List (Text × FilePath)} {items : List α}
    (h : readAll parse fs entries = .ok items) {item : α} (hitem : item ∈ items) :
    ∃ entry ∈ entries, readItem parse fs entry = .ok item := by
  have hread := readAll_eq_ok.1 h
  clear h
  induction hread with
  | nil => cases hitem
  | @cons entry first entries items hfirst _ ih =>
    rcases List.mem_cons.1 hitem with rfl | hmem
    · exact ⟨entry, List.mem_cons_self, hfirst⟩
    · rcases ih hmem with ⟨other, hother, hread⟩
      exact ⟨other, List.mem_cons_of_mem _ hother, hread⟩

end FsConfigStore

end Vanyline.Cfgstore
