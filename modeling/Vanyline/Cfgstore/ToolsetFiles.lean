import Vanyline.Cfgstore.RoundTrip

/-!
# Toolsets are read as they were written

A toolset selects tools of several servers.  The store holds the selections as a list of pairs, and
a file holds them as a map with the servers as keys.

* `RawToolsetFile.ofJson` is what the derived implementation reads of a value, and
  `ofJson_toolsetToYamlJson` what it reads of the written form.
* `toolsetIn` is the toolset that a layer has under a name, and `asked` the one that a call wants
  to write.
* A toolset that is written is read back with all of its selections if and only if no server is
  selected twice (`toolset_kept_iff`).  Of two selections of a server the last one is kept
  (`toolset_kept_fails`).
-/

namespace Vanyline.Cfgstore

open Vanyline.Lib

/-! ## What is read of a value -/

/-- An optional text, which is `None` by default. -/
def optionalText : Option Json → Option (Option Text)
  | none | some .null => some none
  | some (.str text) => some (some text)
  | some _ => none

def textItem : Json → Option Text
  | .str text => some text
  | _ => none

/-- A list of texts, which is empty by default. -/
def textList : Option Json → Option (List Text)
  | none => some []
  | some (.arr items) => items.mapM textItem
  | some _ => none

/-- The lists of a map, which is empty by default. -/
def toolMap : Option Json → Option (SortedMap Text (List Text))
  | none => some .empty
  | some (.obj fields) => do
    let entries ← fields.mapM fun field => do return (field.1, ← textList (some field.2))
    return .ofList entries
  | some _ => none

/-- The section of the tools: the local ones, and those of the servers. -/
def toolsSection : Option Json → Option (List Text × SortedMap Text (List Text))
  | none => some ([], .empty)
  | some (.obj fields) => do
    return (← textList (Json.get "local" (.obj fields)), ← toolMap (Json.get "mcp" (.obj fields)))
  | some _ => none

/-- What the derived implementation reads: other fields are passed over. -/
def RawToolsetFile.ofJson : Json → Option RawToolsetFile
  | .obj fields => do
    let description ← optionalText (Json.get "description" (.obj fields))
    let prompt ← optionalText (Json.get "prompt" (.obj fields))
    let tools ← toolsSection (Json.get "tools" (.obj fields))
    return { description, prompt, localTools := tools.1, mcp := tools.2 }
  | _ => none

/-- YAML that has been printed is read as the value that it was printed from. -/
def FileSerde.ReadsToolsets (yaml : FileSerde) : Prop :=
  ∀ value text raw, yaml.toStr value = .ok text → RawToolsetFile.ofJson value = some raw →
    yaml.toolset text = .ok raw

theorem mapM_textItem (texts : List Text) : (texts.map Json.str).mapM textItem = some texts := by
  induction texts with
  | nil => rfl
  | cons text texts ih =>
    rw [List.map_cons, List.mapM_cons, ih]
    rfl

theorem mapM_textList (entries : List (Text × List Text)) :
    (entries.map fun entry => (entry.1, Json.arr (entry.2.map .str))).mapM
      (fun field => do return (field.1, ← textList (some field.2))) = some entries := by
  induction entries with
  | nil => rfl
  | cons entry entries ih =>
    rw [List.map_cons, List.mapM_cons, ih, textList, mapM_textItem]
    rfl

/-- The entries of a map give the map. -/
theorem ofList_entries (map : SortedMap Text (List Text)) : SortedMap.ofList map.entries = map := by
  apply SortedMap.ext_lookup
  intro key
  rw [SortedMap.lookup_ofList, SortedMap.lookup_reverse_entries]

theorem get_object_append (key : String) (front back : List (String × Json)) :
    (Json.object (front ++ back)).get key =
      ((Json.object front).get key).or ((Json.object back).get key) := by
  rw [Json.object, List.map_append]
  exact List.lookup_append

theorem get_optionField_self (key : String) (value : Option Json) :
    (Json.object (optionField key value)).get key = value := by
  cases value with
  | none => rfl
  | some value => exact Json.get_object_self key value []

theorem get_optionField_ne {key other : String} (h : (key.toList == other.toList) = false)
    (value : Option Json) : (Json.object (optionField other value)).get key = none := by
  cases value with
  | none => rfl
  | some value => exact Json.get_object_ne h value []

theorem optionalText_map (text : Option Text) : optionalText (text.map .str) = some text := by
  cases text with
  | none => rfl
  | some text => rfl

/-- The toolset as its file holds it. -/
def Toolset.raw (t : Toolset) : RawToolsetFile :=
  ⟨t.description, t.prompt, t.localTools, mcpMap t.mcp⟩

theorem textList_written (texts : List Text) :
    textList (if texts.isEmpty then none else some (.arr (texts.map .str))) = some texts := by
  cases texts with
  | nil => rfl
  | cons text texts => exact mapM_textItem (text :: texts)

theorem toolMap_written (mcp : List McpSelection) :
    toolMap (if mcp.isEmpty then none else some (.obj ((mcpMap mcp).entries.map fun entry =>
      (entry.1, .arr (entry.2.map .str))))) = some (mcpMap mcp) := by
  cases mcp with
  | nil => rfl
  | cons sel mcp =>
    rw [if_neg (by simp), toolMap, mapM_textList]
    exact congrArg some (ofList_entries _)

/-- The section of the tools in the written form. -/
def Toolset.toolFields (t : Toolset) : List (String × Json) :=
  optionField "local" (if t.localTools.isEmpty then none
    else some (.arr (t.localTools.map .str))) ++
  optionField "mcp" (if t.mcp.isEmpty then none
    else some (.obj ((mcpMap t.mcp).entries.map fun entry => (entry.1, .arr (entry.2.map .str)))))

theorem toolsSection_written (t : Toolset) :
    toolsSection (some (Json.object t.toolFields)) = some (t.localTools, mcpMap t.mcp) := by
  have hlocal : (Json.object t.toolFields).get "local" = if t.localTools.isEmpty then none
      else some (.arr (t.localTools.map .str)) := by
    rw [Toolset.toolFields, get_object_append, get_optionField_self, get_optionField_ne (by decide),
      Option.or_none]
  have hmcp : (Json.object t.toolFields).get "mcp" = if t.mcp.isEmpty then none
      else some (.obj ((mcpMap t.mcp).entries.map fun entry =>
        (entry.1, .arr (entry.2.map .str)))) := by
    rw [Toolset.toolFields, get_object_append, get_optionField_self, get_optionField_ne (by decide),
      Option.none_or]
  show ((textList ((Json.object t.toolFields).get "local")).bind fun localTools =>
    (toolMap ((Json.object t.toolFields).get "mcp")).bind fun mcp => some (localTools, mcp)) = _
  rw [hlocal, hmcp, textList_written, toolMap_written]
  rfl

/-- The written form is read as the toolset, but for the selections that the map has lost. -/
theorem ofJson_toolsetToYamlJson (t : Toolset) :
    RawToolsetFile.ofJson (toolsetToYamlJson t) = some t.raw := by
  have hdescription : (toolsetToYamlJson t).get "description" = t.description.map .str := by
    unfold toolsetToYamlJson
    rw [get_object_append, get_object_append, get_optionField_self,
      get_optionField_ne (by decide), Json.get_object_ne (by decide)]
    cases t.description with
    | none => rfl
    | some text => rfl
  have hprompt : (toolsetToYamlJson t).get "prompt" = t.prompt.map .str := by
    unfold toolsetToYamlJson
    rw [get_object_append, get_object_append, get_optionField_self,
      get_optionField_ne (by decide), Json.get_object_ne (by decide)]
    cases t.prompt with
    | none => rfl
    | some text => rfl
  have htools : (toolsetToYamlJson t).get "tools" = some (Json.object t.toolFields) := by
    unfold toolsetToYamlJson
    rw [get_object_append, get_object_append, get_optionField_ne (by decide),
      get_optionField_ne (by decide), Option.none_or, Option.none_or]
    exact Json.get_object_self "tools" _ []
  show ((optionalText ((toolsetToYamlJson t).get "description")).bind fun description =>
    (optionalText ((toolsetToYamlJson t).get "prompt")).bind fun prompt =>
      (toolsSection ((toolsetToYamlJson t).get "tools")).bind fun tools =>
        some (RawToolsetFile.mk description prompt tools.1 tools.2)) = _
  rw [hdescription, hprompt, htools, optionalText_map, optionalText_map, toolsSection_written]
  rfl

/-! ## The toolset of a layer -/

/-- The toolset of the file that has been found. -/
def FsConfigStore.readFound (yaml : FileSerde) (layer : Layer) (name : Text) (fs : FsConfigStore) :
    Option DirPath → Except CfgStoreError Toolset
  | some path => readItem (parseToolsetFile yaml) fs (name, ⟨layer, path⟩)
  | none => .error (FileKind.toolset.notFound name layer)

/-- The toolset that a layer has under a name. -/
def FsConfigStore.toolsetIn (yaml : FileSerde) (layer : Layer) (name : Text) (fs : FsConfigStore) :
    Except CfgStoreError Toolset := do
  let dir ← layerDir layer fs
  let files ← FileKind.toolset.list dir.tree
  fs.readFound yaml layer name (files.lookup name)

/-- The same toolset, with its selections in any order. -/
structure Toolset.Same (t back : Toolset) : Prop where
  name : back.name = t.name
  description : back.description = t.description
  prompt : back.prompt = t.prompt
  localTools : back.localTools = t.localTools
  mcp : back.mcp.Perm t.mcp

/-- The layer gives the toolset back. -/
def FsConfigStore.Keeps (yaml : FileSerde) (fs : FsConfigStore) (layer : Layer) (t : Toolset) :
    Prop :=
  ∃ back, fs.toolsetIn yaml layer t.name = .ok back ∧ t.Same back

/-- The toolset that a call wants to write. -/
def StoreCall.asked (yaml : FileSerde) (fs : FsConfigStore) (c : StoreCall) : Option Toolset :=
  match c.op with
  | .createToolset item => some item
  | .updateToolset name patch => Except.toOption do
    let old ← fs.toolsetIn yaml c.layer name
    let fields ← asPatch patch
    fields.foldlM patchToolset old
  | _ => none

def serverOf (item : Json) : Option Text := (item.get "server").bind textItem

def serversOf : Json → List Text
  | .arr items => items.filterMap serverOf
  | _ => []

/-- The servers that a patch selects tools of. -/
def patchedServers : Json → List Text
  | .obj fields => (fields.reverse.lookup "mcp".toList).elim [] serversOf
  | _ => []

/-- No server is selected twice. -/
def StoreOp.ServersDistinct : StoreOp → Prop
  | .createToolset item => (item.mcp.map McpSelection.server).Nodup
  | .updateToolset _ patch => (patchedServers patch).Nodup
  | _ => True

variable {yaml : FileSerde} {fs fs' : FsConfigStore} {layer : Layer} {dir : LayerDir}
  {name text : Text}

theorem bind_eq_of_ok {ε α β : Type} {x : Except ε α} {f : α → Except ε β} {a : α}
    (h : x = .ok a) : x >>= f = f a := by
  rw [h]
  rfl

/-- The listing of a layer finds the file of a name. -/
theorem lookup_toolsets {t : Tree} {files : SortedMap Text DirPath} (hname : name ≠ [])
    (h : FileKind.toolset.list t = .ok files) :
    files.lookup name = if t.isFile (FileKind.toolset.pathOf name) then
      some (FileKind.toolset.pathOf name) else none :=
  lookup_listLayerFiles (by decide) h hname

theorem readItem_of_file {α : Type} {parse : Text → Text → Text → Except CfgStoreError α}
    (hdir : fs.dir layer = some dir) {path : DirPath}
    (hread : readToString path dir.tree = .ok text) :
    FsConfigStore.readItem parse fs (name, ⟨layer, path⟩) =
      parse name (display dir.path path) text := by
  unfold FsConfigStore.readItem FsConfigStore.readPath
  rw [hdir]
  dsimp only
  rw [hread]
  rfl

theorem toolsetIn_of_file (hdir : fs.dir layer = some dir) (hname : name ≠ [])
    (hfile : dir.tree.node (FileKind.toolset.pathOf name) = some (.file (some text))) :
    fs.toolsetIn yaml layer name =
      parseToolsetFile yaml name (display dir.path (FileKind.toolset.pathOf name)) text := by
  have hlist : ∃ files, FileKind.toolset.list dir.tree = .ok files :=
    ⟨_, bind_eq_ok.2 ⟨_, namesIn_of_isDir (DirTree.isDir_of_child hfile), rfl⟩⟩
  obtain ⟨files, hlist⟩ := hlist
  have hlookup := lookup_toolsets hname hlist
  rw [if_pos (DirTree.isFile_iff.2 ⟨_, hfile⟩)] at hlookup
  have hread : readToString (FileKind.toolset.pathOf name) dir.tree = .ok text := by
    unfold readToString
    rw [DirTree.readFile_eq_ok.2 hfile]
    rfl
  have hlayer : FsConfigStore.layerDir layer fs = .ok dir := by
    unfold FsConfigStore.layerDir
    rw [hdir]
  unfold FsConfigStore.toolsetIn
  rw [bind_eq_of_ok hlayer, bind_eq_of_ok hlist, hlookup]
  exact readItem_of_file hdir hread

/-! ## Selections and the map of the file -/

def McpSelection.ofEntry (entry : Text × List Text) : McpSelection := ⟨entry.1, entry.2⟩

theorem McpSelection.ofEntry_injective : Function.Injective McpSelection.ofEntry := by
  rintro ⟨server, tools⟩ ⟨server', tools'⟩ h
  cases h
  rfl

/-- The map has all selections exactly if no server is selected twice. -/
theorem mcpMap_perm_iff (mcp : List McpSelection) :
    ((mcpMap mcp).entries.map McpSelection.ofEntry).Perm mcp ↔
      (mcp.map McpSelection.server).Nodup := by
  have hmcp : mcp = (mcp.map fun sel => (sel.server, sel.tools)).map McpSelection.ofEntry := by
    rw [List.map_map]
    exact (List.map_id mcp).symm
  have hservers : (mcp.map fun sel => (sel.server, sel.tools)).map Prod.fst =
      mcp.map McpSelection.server := by
    rw [List.map_map]
    rfl
  rw [← hservers, ← SortedMap.entries_ofList_perm]
  conv_lhs => rw [hmcp]
  rw [List.map_perm_map_iff McpSelection.ofEntry_injective, ← hmcp]
  rfl

theorem nodup_servers (map : SortedMap Text (List Text)) :
    ((map.entries.map McpSelection.ofEntry).map McpSelection.server).Nodup := by
  rw [List.map_map]
  exact map.nodup_keys

/-- A toolset that has been written to its file. -/
theorem keeps_of_written (hyaml : yaml.ReadsToolsets) {t : Toolset}
    (hdir : fs.dir layer = some dir) (hname : t.name ≠ []) (htext : toolsetText yaml t = .ok text)
    (hfile : dir.tree.node (FileKind.toolset.pathOf t.name) = some (.file (some text))) :
    fs.Keeps yaml layer t ↔ (t.mcp.map McpSelection.server).Nodup := by
  have hprinted : yaml.toStr (toolsetToYamlJson t) = .ok text := mapError_eq_ok.1 htext
  have hraw := hyaml _ _ _ hprinted (ofJson_toolsetToYamlJson t)
  have hread : fs.toolsetIn yaml layer t.name = .ok ⟨t.name, t.description, t.prompt,
      t.localTools, (mcpMap t.mcp).entries.map McpSelection.ofEntry⟩ := by
    rw [toolsetIn_of_file hdir hname hfile, parseToolsetFile, hraw]
    rfl
  rw [← mcpMap_perm_iff]
  constructor
  · rintro ⟨back, hback, hsame⟩
    rw [hread] at hback
    cases hback
    exact hsame.mcp
  · intro hperm
    exact ⟨_, hread, rfl, rfl, rfl, rfl, hperm⟩

/-! ## Patches -/

section Patch

variable {t new : Toolset}

/-- A field of a patch leaves the name, and the selections unless it is for them. -/
theorem patchToolset_cases {field : Text × Json} (h : patchToolset t field = .ok new) :
    new.name = t.name ∧ (field.1 ≠ "mcp".toList ∧ new.mcp = t.mcp ∨
      field.1 = "mcp".toList ∧ patchMcp field.2 = .ok new.mcp) := by
  unfold patchToolset at h
  split_ifs at h with hdescription hprompt hlocal hmcp
  · obtain ⟨description, -, hnew⟩ := bind_eq_ok.1 h
    cases hnew
    exact ⟨rfl, Or.inl ⟨by rw [hdescription]; decide, rfl⟩⟩
  · obtain ⟨prompt, -, hnew⟩ := bind_eq_ok.1 h
    cases hnew
    exact ⟨rfl, Or.inl ⟨by rw [hprompt]; decide, rfl⟩⟩
  · obtain ⟨localTools, -, hnew⟩ := bind_eq_ok.1 h
    cases hnew
    exact ⟨rfl, Or.inl ⟨by rw [hlocal]; decide, rfl⟩⟩
  · obtain ⟨mcp, hvalue, hnew⟩ := bind_eq_ok.1 h
    cases hnew
    exact ⟨rfl, Or.inr ⟨hmcp, hvalue⟩⟩
  · cases h
    exact ⟨rfl, Or.inl ⟨hmcp, rfl⟩⟩

/-- The last field for the selections counts. -/
theorem foldlM_patchToolset {fields : List (Text × Json)}
    (h : fields.foldlM patchToolset t = .ok new) :
    new.name = t.name ∧ (fields.reverse.lookup "mcp".toList = none ∧ new.mcp = t.mcp ∨
      ∃ value, fields.reverse.lookup "mcp".toList = some value ∧ patchMcp value = .ok new.mcp) := by
  induction fields using List.reverseRecOn generalizing new with
  | nil =>
    cases h
    exact ⟨rfl, Or.inl ⟨rfl, rfl⟩⟩
  | append_singleton fields field ih =>
    rw [List.foldlM_append] at h
    obtain ⟨middle, hmiddle, hlast⟩ := bind_eq_ok.1 h
    rw [List.foldlM_cons] at hlast
    obtain ⟨last, hfield, hnew⟩ := bind_eq_ok.1 hlast
    cases hnew
    obtain ⟨hname, hrest⟩ := ih hmiddle
    obtain ⟨hname', hcase⟩ := patchToolset_cases hfield
    refine ⟨hname'.trans hname, ?_⟩
    rw [List.reverse_append, List.reverse_singleton, List.singleton_append, List.lookup_cons]
    rcases hcase with ⟨hne, hsame⟩ | ⟨heq, hvalue⟩
    · rw [beq_false_of_ne (Ne.symm hne), hsame]
      exact hrest
    · rw [heq, beq_self_eq_true]
      exact Or.inr ⟨field.2, rfl, hvalue⟩

theorem serverOf_patched {item : Json} {sel : McpSelection} (h : patchMcpEntry item = .ok sel) :
    serverOf item = some sel.server := by
  unfold patchMcpEntry at h
  split at h
  · rename_i server hserver
    obtain ⟨tools, -, hsel⟩ := bind_eq_ok.1 h
    cases hsel
    rw [serverOf, hserver]
    rfl
  · cases h

theorem serversOf_patched {value : Json} {mcp : List McpSelection} (h : patchMcp value = .ok mcp) :
    serversOf value = mcp.map McpSelection.server := by
  unfold patchMcp at h
  split at h
  · cases h
    rfl
  · rename_i items
    show items.filterMap serverOf = _
    induction items generalizing mcp with
    | nil =>
      cases h
      rfl
    | cons item items ih =>
      rw [List.mapM_cons] at h
      obtain ⟨sel, hsel, hrest⟩ := bind_eq_ok.1 h
      obtain ⟨sels, hsels, hmcp⟩ := bind_eq_ok.1 hrest
      cases hmcp
      rw [List.filterMap_cons_some (serverOf_patched hsel), ih hsels, List.map_cons]
  · cases h

/-- A toolset that has been read selects no server twice, and a patch those that it says. -/
theorem nodup_patched {fields : List (Text × Json)} (h : fields.foldlM patchToolset t = .ok new)
    (hold : (t.mcp.map McpSelection.server).Nodup) :
    (new.mcp.map McpSelection.server).Nodup ↔ (patchedServers (.obj fields)).Nodup := by
  obtain ⟨-, ⟨hlookup, hsame⟩ | ⟨value, hlookup, hvalue⟩⟩ := foldlM_patchToolset h
  · rw [patchedServers, hlookup, hsame]
    exact iff_of_true hold List.nodup_nil
  · rw [patchedServers, hlookup, ← serversOf_patched hvalue]
    rfl

end Patch

/-! ## Calls -/

theorem parseToolsetFile_eq_ok {path : Text} {t : Toolset}
    (h : parseToolsetFile yaml name path text = .ok t) :
    t.name = name ∧ (t.mcp.map McpSelection.server).Nodup := by
  obtain ⟨raw, -, ht⟩ := bind_eq_ok.1 h
  cases ht
  exact ⟨rfl, nodup_servers raw.mcp⟩

/-- An update that succeeds has found and read a file, and written it. -/
theorem FileKind.exec_updateFile_ok {kind : FileKind} {path : Text}
    {rewrite : Text → Text → Except CfgStoreError Text} {t t' : Tree} {u : Unit}
    (h : (kind.updateFile name rewrite path layer).exec t = (.ok u, t')) :
    ∃ files file content text, kind.list t = .ok files ∧ files.lookup name = some file ∧
      readToString file t = .ok content ∧ rewrite (display path file) content = .ok text ∧
      t.write file (some text) = .ok t' := by
  unfold FileKind.updateFile at h
  obtain ⟨file, t₁, hfind, hrest⟩ := Effect.exec_bind_ok.1 h
  unfold FileKind.find at hfind
  obtain ⟨files, t₂, hread, hfound⟩ := Effect.exec_bind_ok.1 hfind
  obtain ⟨hlist, rfl⟩ := Effect.exec_read_ok.1 hread
  cases hlookup : files.lookup name with
  | none =>
    rw [hlookup] at hfound
    cases hfound
  | some found =>
    rw [hlookup] at hfound
    cases hfound
    obtain ⟨content, t₃, hcontent, hafter⟩ := Effect.exec_bind_ok.1 hrest
    rw [io, Effect.exec_mapError_ok] at hcontent
    obtain ⟨hcontent, rfl⟩ := Effect.exec_read_ok.1 hcontent
    obtain ⟨text, t₄, hlift, hwrite⟩ := Effect.exec_bind_ok.1 hafter
    obtain ⟨htext, rfl⟩ := Effect.exec_read_ok.1 hlift
    rw [io, Effect.exec_mapError_ok] at hwrite
    exact ⟨files, file, content, text, hlist, hlookup, hcontent, htext,
      Effect.exec_change_ok.1 hwrite⟩

theorem ne_nil_of_validateName (h : validateName name = .ok ()) : name ≠ [] := by
  intro hnil
  subst hnil
  cases h

variable {V E : Type} [DecidableEq V] {serde : StoreSerde V E}

/-- The toolset that an update wants to write is the patched one, and it is what is written. -/
theorem asked_update {patch : Json} {t : Tree} {toolset : Toolset} {u : Unit}
    (hdir : fs.dir layer = some dir) (hname : name ≠ [])
    (hasked : StoreCall.asked yaml fs ⟨layer, .updateToolset name patch⟩ = some toolset)
    (hexec : (updateToolset yaml name patch dir.path layer).exec dir.tree = (.ok u, t)) :
    toolset.name = name ∧ (∃ text, toolsetText yaml toolset = .ok text ∧
      t.node (FileKind.toolset.pathOf name) = some (.file (some text))) ∧
      ((toolset.mcp.map McpSelection.server).Nodup ↔ (patchedServers patch).Nodup) := by
  obtain ⟨files, file, content, text, hlist, hlookup, hread, hrewrite, hwrite⟩ :=
    FileKind.exec_updateFile_ok hexec
  obtain ⟨old, hold, hpatched⟩ := bind_eq_ok.1 hrewrite
  obtain ⟨fields, hfields, hrest⟩ := bind_eq_ok.1 hpatched
  obtain ⟨new, hnew, htext⟩ := bind_eq_ok.1 hrest
  have hlayer : FsConfigStore.layerDir layer fs = .ok dir := by
    unfold FsConfigStore.layerDir
    rw [hdir]
  have hfound : fs.toolsetIn yaml layer name = .ok old := by
    unfold FsConfigStore.toolsetIn
    rw [bind_eq_of_ok hlayer, bind_eq_of_ok hlist, hlookup]
    exact (readItem_of_file hdir hread).trans hold
  have hsame : toolset = new := by
    unfold StoreCall.asked at hasked
    dsimp only at hasked
    rw [bind_eq_of_ok hfound, bind_eq_of_ok hfields, hnew] at hasked
    exact (Option.some.inj hasked).symm
  have hpath : file = FileKind.toolset.pathOf name := by
    rw [lookup_toolsets hname hlist] at hlookup
    split at hlookup
    · exact (Option.some.inj hlookup).symm
    · cases hlookup
  have hobj : patch = .obj fields := by
    unfold asPatch at hfields
    split at hfields
    · cases hfields
      rfl
    · cases hfields
  subst hsame hpath hobj
  obtain ⟨holdName, hnodup⟩ := parseToolsetFile_eq_ok hold
  refine ⟨(foldlM_patchToolset hnew).1.trans holdName, ⟨text, htext, ?_⟩, ?_⟩
  · exact (DirTree.write_eq_ok hwrite).2.1
  · exact nodup_patched hnew hnodup

/-- A toolset that the store has accepted is read back with all of its selections, if and only if
no server is selected twice. -/
theorem toolset_kept_iff (hyaml : serde.files.ReadsToolsets) {c : StoreCall} {toolset : Toolset}
    (hasked : c.asked serde.files fs = some toolset)
    (hcall : (FsConfigStore.call serde c).exec fs = (.ok (), fs')) :
    fs'.Keeps serde.files c.layer toolset ↔ c.op.ServersDistinct := by
  rcases FsConfigStore.exec_call hcall with ⟨e, herror, -⟩ | ⟨dir, t, hvalid, hdir, hexec, rfl⟩
  · cases herror
  have hdir' : (fs.setTree t c.layer).dir c.layer = some { dir with tree := t } := by
    rw [FsConfigStore.dir_setTree_self, hdir]
    rfl
  rcases c with ⟨layer, op⟩
  cases op with
  | createToolset item =>
    cases hasked
    obtain ⟨files, text, -, -, htext, hwritten⟩ := FileKind.exec_createFile_ok hexec
    exact keeps_of_written hyaml hdir' (ne_nil_of_validateName hvalid) htext hwritten.file
  | updateToolset name patch =>
    have hname := ne_nil_of_validateName hvalid
    obtain ⟨rfl, ⟨text, htext, hfile⟩, hservers⟩ := asked_update hdir hname hasked hexec
    exact (keeps_of_written hyaml hdir' hname htext hfile).trans hservers
  | _ => cases hasked

/-- A toolset with one selection, and one with two of the same server. -/
def oneSelection : Toolset := ⟨['a'], none, none, [], [⟨['s'], [['u']]⟩]⟩

def twoSelections : Toolset := ⟨['a'], none, none, [], [⟨['s'], [['t']]⟩, ⟨['s'], [['u']]⟩]⟩

def selectionYaml : Text := "tools:\n  mcp:\n    s:\n    - u\n".toList

def isSelection : Json → Bool
  | .obj [(tools, .obj [(mcp, .obj [(server, .arr [.str tool])])])] =>
    tools == "tools".toList && mcp == "mcp".toList && server == ['s'] && tool == ['u']
  | _ => false

/-- YAML as far as these toolsets need it. -/
def selectionSerde : StoreSerde Unit Unit where
  config :=
    { string := fun _ => ()
      toJson := fun _ => .ok .null
      key := fun _ => .error []
      toValue := fun _ => ()
      fromValue := fun _ _ => .ok ()
      fromStr := fun _ => .error []
      toStr := fun _ => .error [] }
  files :=
    { toStr := fun value => if isSelection value then .ok selectionYaml else .error []
      agent := fun _ => .error []
      skill := fun _ => .error []
      toolset := fun text => if text = selectionYaml then .ok oneSelection.raw else .error [] }
  asStr := fun _ => none

theorem eq_of_isSelection {value : Json} (h : isSelection value = true) :
    value = toolsetToYamlJson oneSelection := by
  unfold isSelection at h
  split at h
  · simp only [Bool.and_eq_true, beq_iff_eq] at h
    obtain ⟨⟨⟨rfl, rfl⟩, rfl⟩, rfl⟩ := h
    rfl
  · cases h

theorem readsToolsets_selectionSerde : selectionSerde.files.ReadsToolsets := by
  intro value text raw htext hraw
  have hprinted : (if isSelection value then Except.ok selectionYaml else .error []) =
      .ok text := htext
  show (if text = selectionYaml then Except.ok oneSelection.raw else .error []) = .ok raw
  split at hprinted
  · rename_i hvalue
    cases hprinted
    rw [eq_of_isSelection hvalue, ofJson_toolsetToYamlJson] at hraw
    rw [if_pos rfl]
    exact congrArg Except.ok (Option.some.inj hraw)
  · cases hprinted

def emptyStore : FsConfigStore := ⟨⟨[], .empty⟩, none⟩

theorem toolset_kept_one : ∃ fs',
    (FsConfigStore.call selectionSerde ⟨.global, .createToolset oneSelection⟩).exec emptyStore =
      (.ok (), fs') ∧ fs'.Keeps selectionSerde.files .global oneSelection := by
  have hcall : (FsConfigStore.call selectionSerde ⟨.global, .createToolset oneSelection⟩).exec
      emptyStore = (.ok (), _) := rfl
  have hdistinct : [['s']].Nodup := by decide
  exact ⟨_, hcall, (toolset_kept_iff readsToolsets_selectionSerde rfl hcall).2 hdistinct⟩

/-- Of two selections of a server the first one is lost. -/
theorem toolset_kept_fails : ¬ ∀ (V E : Type) [DecidableEq V] (serde : StoreSerde V E)
    (fs fs' : FsConfigStore) (c : StoreCall) (toolset : Toolset), serde.files.ReadsToolsets →
      c.asked serde.files fs = some toolset →
        (FsConfigStore.call serde c).exec fs = (.ok (), fs') →
          fs'.Keeps serde.files c.layer toolset := by
  intro hall
  have hkeeps := hall Unit Unit selectionSerde emptyStore _ ⟨.global, .createToolset twoSelections⟩
    twoSelections readsToolsets_selectionSerde rfl rfl
  obtain ⟨back, hback, hsame⟩ := hkeeps
  cases hback
  have hlength : 1 = 2 := hsame.mcp.length_eq
  cases hlength

end Vanyline.Cfgstore
