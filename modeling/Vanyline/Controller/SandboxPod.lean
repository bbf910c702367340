import Vanyline.Controller.Reconcilers
import Vanyline.Lib.JsonValue
import Vanyline.Lib.SortedMap
import Mathlib.Data.Char
import Mathlib.Data.List.Lex

/-!
# The Pod of a Sandbox

`build_sandbox_pod` puts the volumes, the mounts and the environment of the container together from
lists that do not know of each other: what every Pod has, the caches of the Project, the toolchains
and their language servers.

The Pod is modelled with everything that depends on the Sandbox, the Project and the context.  Its
ports, its probes and its security context are constants, and the resources are passed on as they
are.  The JSON text of `VNL_LSP_TOOLCHAINS` comes from a serializer that may fail.
-/

namespace Vanyline.Controller.SandboxPod

open Vanyline.Lib

/-! ## Resources -/

structure LspSpec where
  image : Name
  bin : Name
  args : List Name

structure Toolchain where
  name : Name
  image : Name
  env : SortedMap Name Name
  lsp : Option LspSpec

/-- A Sandbox, with what its Pod is made of. -/
structure Sandbox extends Api.Sandbox where
  toolchains : List Toolchain
  image : Option Name

/-- A Project, with what the Pod needs of it; without a status there are no languages. -/
structure Project extends Api.Project where
  defaultBranch : Option Name
  caches : Option (List Name)
  languages : List Name

structure SandboxPodContext where
  ownerName : Name
  ownerPvcName : Name
  ownerServiceAccount : Name
  tokenIssuer : Name
  defaultImage : Name
  toolchainImageRust : Name
  toolchainImageNode : Name
  toolchainImageDocker : Name
  toolchainImagePython : Name
  lspImageRust : Name
  lspImageNode : Name
  lspImageDocker : Name
  lspImagePython : Name

/-! ## Pods -/

inductive VolumeSource
  | persistentVolumeClaim (claimName : Name)
  | image (reference pullPolicy : Name)

structure Volume where
  name : Name
  source : VolumeSource

structure VolumeMount where
  name : Name
  mountPath : Name
  subPath : Option Name

structure EnvVar where
  name : Name
  value : Name

structure Pod where
  name : Name
  ns : Option Name
  labels : SortedMap Name Name
  owner : Api.Kind × Name
  serviceAccountName : Name
  image : Name
  env : List EnvVar
  volumeMounts : List VolumeMount
  volumes : List Volume

/-! ## Paths and caches -/

def basePath : Name := "/usr/local/sbin:/usr/local/bin:/usr/sbin:/usr/bin:/sbin:/bin".toList

def homeMountPath : Name := "/home/vanyline".toList

def workspaceMountPath : Name := "/workspace".toList

def toolchainRoot (name : Name) : Name := "/toolchains/".toList ++ name

def effectivePvcName (project : Project) : Name := projectPvcName project.name

def bareRepoPath : Name := "repo.git".toList

def worktreePath (sandboxName : Name) : Name := "worktrees/".toList ++ sandboxName

def cacheDirName (cache : Name) : Name :=
  if cache = "pnpm".toList then "pnpm-store".toList else cache

def cachePath (cache : Name) : Name := "cache/".toList ++ cacheDirName cache

def effectiveCaches (project : Project) : List Name :=
  project.caches.getD ["cargo".toList, "pnpm".toList, "pip".toList]

/-- The variable that tells a tool where its cache is. -/
def cacheEnvVar (cache : Name) : Option EnvVar :=
  let path := "/project-cache/".toList ++ cacheDirName cache
  if cache = "cargo".toList then some ⟨"CARGO_HOME".toList, path⟩
  else if cache = "pnpm".toList then some ⟨"npm_config_store_dir".toList, path⟩
  else if cache = "pip".toList then some ⟨"PIP_CACHE_DIR".toList, path⟩
  else none

/-! ## The environment of the toolchains -/

/-- `str::replace` for a text `old` that is not empty; so many characters of the last match are
left to skip. -/
def replace (old new : Name) : Nat → Name → Name
  | _, [] => []
  | skip + 1, _ :: text => replace old new skip text
  | 0, c :: text =>
    if old.isPrefixOf (c :: text) then new ++ replace old new (old.length - 1) text
    else c :: replace old new 0 text

def standardLibraryPath : Name :=
  ("\x7broot\x7d/usr/lib/x86_64-linux-gnu:\x7broot\x7d/usr/lib/aarch64-linux-gnu:" ++
    "\x7broot\x7d/usr/local/lib").toList

def toolchainPreset (name : Name) : Option (SortedMap Name Name) :=
  if name = "rust".toList then
    some (.ofList
      [("PATH".toList, "\x7broot\x7d/usr/local/cargo/bin:\x7broot\x7d/usr/bin".toList),
        ("LD_LIBRARY_PATH".toList, standardLibraryPath),
        ("RUSTUP_HOME".toList, "\x7broot\x7d/usr/local/rustup".toList)])
  else if name = "node".toList ∨ name = "docker".toList then
    some (.ofList
      [("PATH".toList, "\x7broot\x7d/usr/local/bin".toList),
        ("LD_LIBRARY_PATH".toList, standardLibraryPath)])
  else if name = "python".toList then
    some (.ofList
      [("PATH".toList, "\x7broot\x7d/usr/local/bin:/home/vanyline/.local/bin".toList),
        ("LD_LIBRARY_PATH".toList, standardLibraryPath),
        ("PYTHONUSERBASE".toList, "/home/vanyline/.local".toList),
        ("PIP_USER".toList, "1".toList)])
  else none

/-- An explicit environment replaces the preset as a whole. -/
def resolveToolchainEnv (toolchain : Toolchain) : SortedMap Name Name :=
  let root := toolchainRoot toolchain.name
  let raw :=
    if toolchain.env.entries.isEmpty then (toolchainPreset toolchain.name).getD .empty
    else toolchain.env
  raw.mapValues (replace "\x7broot\x7d".toList root 0)

/-- What the toolchains set, on the way through them. -/
structure Aggregate where
  pathSegments : List Name
  ldSegments : List Name
  others : SortedMap Name Name

def Aggregate.add (acc : Aggregate) (key value : Name) : Aggregate :=
  if key = "PATH".toList then { acc with pathSegments := acc.pathSegments ++ [value] }
  else if key = "LD_LIBRARY_PATH".toList then { acc with ldSegments := acc.ldSegments ++ [value] }
  else { acc with others := acc.others.update key fun _ => value }

def Aggregate.addToolchain (acc : Aggregate) (toolchain : Toolchain) : Aggregate :=
  (resolveToolchainEnv toolchain).entries.foldl (fun acc entry => acc.add entry.1 entry.2) acc

def aggregateToolchains (toolchains : List Toolchain) : Aggregate :=
  toolchains.foldl .addToolchain ⟨[], [], .empty⟩

def joinPaths (segments : List Name) : Name := List.intercalate ":".toList segments

def aggregateToolchainEnv (toolchains : List Toolchain) : List EnvVar :=
  let acc := aggregateToolchains toolchains
  [⟨"PATH".toList, joinPaths (acc.pathSegments ++ [basePath])⟩] ++
    (if acc.ldSegments.isEmpty then []
      else [⟨"LD_LIBRARY_PATH".toList, joinPaths acc.ldSegments⟩]) ++
    acc.others.entries.map fun entry => ⟨entry.1, entry.2⟩

/-! ## What the aggregate holds -/

/-- The value of a variable in the environment of the last toolchain that sets it. -/
def toolchainValue (toolchains : List Toolchain) (key : Name) : Option Name :=
  toolchains.reverse.findSome? fun toolchain => (resolveToolchainEnv toolchain).lookup key

/-- The values of a variable in the environments of the toolchains, in their order. -/
def toolchainValues (toolchains : List Toolchain) (key : Name) : List Name :=
  toolchains.filterMap fun toolchain => (resolveToolchainEnv toolchain).lookup key

/-- The two variables that are put together from segments. -/
def Joined (key : Name) : Prop := key = "PATH".toList ∨ key = "LD_LIBRARY_PATH".toList

instance (key : Name) : Decidable (Joined key) := inferInstanceAs (Decidable (_ ∨ _))

theorem path_ne_ld : "PATH".toList ≠ "LD_LIBRARY_PATH".toList := by decide

section Aggregate

variable (acc : Aggregate)

theorem pathSegments_foldl_add (entries : List (Name × Name)) :
    (entries.foldl (fun acc entry => acc.add entry.1 entry.2) acc).pathSegments =
      acc.pathSegments ++ entries.filterMap fun entry =>
        if entry.1 = "PATH".toList then some entry.2 else none := by
  induction entries generalizing acc with
  | nil => exact (List.append_nil _).symm
  | cons entry entries ih =>
      rw [List.foldl_cons, ih, List.filterMap_cons, Aggregate.add]
      split_ifs
      · exact List.append_assoc ..
      · rfl
      · rfl

theorem ldSegments_foldl_add (entries : List (Name × Name)) :
    (entries.foldl (fun acc entry => acc.add entry.1 entry.2) acc).ldSegments =
      acc.ldSegments ++ entries.filterMap fun entry =>
        if entry.1 = "LD_LIBRARY_PATH".toList then some entry.2 else none := by
  induction entries generalizing acc with
  | nil => exact (List.append_nil _).symm
  | cons entry entries ih =>
      rw [List.foldl_cons, ih, List.filterMap_cons, Aggregate.add]
      split_ifs with hpath hld
      · exact absurd (hpath.symm.trans hld) path_ne_ld
      · rfl
      · exact List.append_assoc ..
      · rfl

theorem others_add (k value key : Name) : (acc.add k value).others.lookup key =
    if ¬ Joined k ∧ key = k then some value else acc.others.lookup key := by
  by_cases hjoined : Joined k
  · rw [if_neg fun h => h.1 hjoined]
    rcases hjoined with hpath | hld
    · rw [Aggregate.add, if_pos hpath]
    · rw [Aggregate.add, if_neg fun h => path_ne_ld (h.symm.trans hld), if_pos hld]
  · rw [Aggregate.add, if_neg fun h => hjoined (.inl h), if_neg fun h => hjoined (.inr h),
      SortedMap.lookup_update]
    by_cases hkey : key = k
    · rw [if_pos hkey, if_pos ⟨hjoined, hkey⟩]
    · rw [if_neg hkey, if_neg fun h => hkey h.2]

theorem others_foldl_add_of_joined (entries : List (Name × Name)) {key : Name} (h : Joined key) :
    (entries.foldl (fun acc entry => acc.add entry.1 entry.2) acc).others.lookup key =
      acc.others.lookup key := by
  induction entries generalizing acc with
  | nil => rfl
  | cons entry entries ih =>
      rw [List.foldl_cons, ih, others_add, if_neg]
      intro hadded
      exact hadded.1 (hadded.2 ▸ h)

/-- Any other variable is put into the map, where its last value counts. -/
theorem others_foldl_add (entries : List (Name × Name)) (map : SortedMap Name Name) {key : Name}
    (h : ¬ Joined key) (hacc : acc.others.lookup key = map.lookup key) :
    (entries.foldl (fun acc entry => acc.add entry.1 entry.2) acc).others.lookup key =
      (entries.foldl (fun map entry => map.update entry.1 fun _ => entry.2) map).lookup key := by
  induction entries generalizing acc map with
  | nil => exact hacc
  | cons entry entries ih =>
      rw [List.foldl_cons, List.foldl_cons]
      apply ih
      rw [others_add, SortedMap.lookup_update, hacc]
      by_cases hkey : key = entry.1
      · rw [if_pos hkey, if_pos ⟨hkey ▸ h, hkey⟩]
      · rw [if_neg hkey, if_neg fun hadded => hkey hadded.2]

theorem others_addToolchain (toolchain : Toolchain) (key : Name) :
    (acc.addToolchain toolchain).others.lookup key =
      if Joined key then acc.others.lookup key
      else ((resolveToolchainEnv toolchain).lookup key).or (acc.others.lookup key) := by
  split_ifs with h
  · exact others_foldl_add_of_joined acc _ h
  · rw [← SortedMap.lookup_extend]
    exact others_foldl_add acc _ acc.others h rfl

theorem segments_aggregateToolchains (toolchains : List Toolchain) :
    (aggregateToolchains toolchains).pathSegments = toolchainValues toolchains "PATH".toList ∧
      (aggregateToolchains toolchains).ldSegments =
        toolchainValues toolchains "LD_LIBRARY_PATH".toList := by
  suffices h : ∀ acc : Aggregate, (toolchains.foldl .addToolchain acc).pathSegments =
      acc.pathSegments ++ toolchainValues toolchains "PATH".toList ∧
      (toolchains.foldl .addToolchain acc).ldSegments =
        acc.ldSegments ++ toolchainValues toolchains "LD_LIBRARY_PATH".toList from h _
  induction toolchains with
  | nil => exact fun acc => ⟨(List.append_nil _).symm, (List.append_nil _).symm⟩
  | cons toolchain rest ih =>
      intro acc
      have hvalues : ∀ key, toolchainValues (toolchain :: rest) key =
          ((resolveToolchainEnv toolchain).lookup key).toList ++ toolchainValues rest key := by
        intro key
        unfold toolchainValues
        cases h : (resolveToolchainEnv toolchain).lookup key with
        | none =>
            rw [List.filterMap_cons, h]
            rfl
        | some value =>
            rw [List.filterMap_cons, h]
            rfl
      rw [List.foldl_cons, (ih _).1, (ih _).2, hvalues, hvalues]
      unfold Aggregate.addToolchain
      rw [pathSegments_foldl_add, ldSegments_foldl_add, SortedMap.filterMap_key,
        SortedMap.filterMap_key, List.append_assoc, List.append_assoc]
      exact ⟨rfl, rfl⟩

theorem others_aggregateToolchains (toolchains : List Toolchain) (key : Name) :
    (aggregateToolchains toolchains).others.lookup key =
      if Joined key then none else toolchainValue toolchains key := by
  suffices h : ∀ acc : Aggregate, (toolchains.foldl .addToolchain acc).others.lookup key =
      if Joined key then acc.others.lookup key
      else (toolchainValue toolchains key).or (acc.others.lookup key) by
    rw [aggregateToolchains, h, SortedMap.lookup_empty, Option.or_none]
  induction toolchains with
  | nil => exact fun acc => (ite_self _).symm
  | cons toolchain rest ih =>
      intro acc
      rw [List.foldl_cons, ih, others_addToolchain]
      unfold toolchainValue
      rw [List.reverse_cons, List.findSome?_append, List.findSome?_singleton, Option.or_assoc]
      split_ifs
      · rfl
      · rfl

end Aggregate

/-! ## Toolchains and language servers -/

/-- Names are compared character by character. -/
local instance lawfulName : LawfulBEq Name := inferInstance

/-- The toolchains of the Sandbox, or else one for each language that has one. -/
def effectiveToolchains (sandbox : Sandbox) (project : Project) (ctx : SandboxPodContext) :
    List Toolchain :=
  if !sandbox.toolchains.isEmpty then sandbox.toolchains
  else
    let preset (name : String) (image : Name) : Toolchain := ⟨name.toList, image, .empty, none⟩
    (if "rust".toList ∈ project.languages then [preset "rust" ctx.toolchainImageRust] else []) ++
    (if "js-ts".toList ∈ project.languages ∨ "vue".toList ∈ project.languages then
      [preset "node" ctx.toolchainImageNode] else []) ++
    (if "python".toList ∈ project.languages then [preset "python" ctx.toolchainImagePython]
      else []) ++
    (if "dockerfile".toList ∈ project.languages then [preset "docker" ctx.toolchainImageDocker]
      else [])

def resolveToolchainLsp (toolchain : Toolchain) (ctx : SandboxPodContext) : Option LspSpec :=
  match toolchain.lsp with
  | some lsp => some lsp
  | none =>
    if toolchain.name = "rust".toList then
      some ⟨ctx.lspImageRust, "/toolchains/rust-lsp/usr/local/bin/rust-analyzer".toList, []⟩
    else if toolchain.name = "node".toList then
      some ⟨ctx.lspImageNode,
        "/toolchains/node-lsp/usr/local/bin/typescript-language-server".toList, ["--stdio".toList]⟩
    else if toolchain.name = "docker".toList then
      some ⟨ctx.lspImageDocker, "/toolchains/docker-lsp/usr/local/bin/docker-langserver".toList,
        ["--stdio".toList]⟩
    else if toolchain.name = "python".toList then
      some ⟨ctx.lspImagePython, "/toolchains/python-lsp/usr/local/bin/pyright-langserver".toList,
        ["--stdio".toList]⟩
    else none

/-- A JSON string. -/
def text (s : String) : Json := .str s.toList

def nodeLspComposite (ctx : SandboxPodContext) : LspSpec × List Json :=
  (⟨ctx.lspImageNode, "/toolchains/node-lsp/usr/local/bin/vue-language-server".toList,
      ["--stdio".toList]⟩,
    [.object [("role", text "tsserver-forward"),
      ("bin", text "/toolchains/node-lsp/usr/local/bin/typescript-language-server"),
      ("args", .arr [text "--stdio"]),
      ("initOptions", .object [("plugins", .arr [.object [
        ("name", text "@vue/typescript-plugin"),
        ("location", text
          "/toolchains/node-lsp/usr/local/lib/node_modules/@vue/language-server")]])])]])

def dockerLspComposite (ctx : SandboxPodContext) : LspSpec × List Json :=
  (⟨ctx.lspImageDocker, "/toolchains/docker-lsp/usr/local/bin/docker-langserver".toList,
      ["--stdio".toList]⟩,
    [.object [("role", text "diagnostics-merge"),
      ("bin", text "/toolchains/docker-lsp/usr/local/bin/vnl-hadolint-lsp"), ("args", .arr [])]])

def pythonLspComposite (ctx : SandboxPodContext) : LspSpec × List Json :=
  (⟨ctx.lspImagePython, "/toolchains/python-lsp/usr/local/bin/pyright-langserver".toList,
      ["--stdio".toList]⟩,
    [.object [("role", text "diagnostics-merge"),
      ("bin", text "/toolchains/python-lsp/usr/local/bin/vnl-ruff-lsp"), ("args", .arr [])]])

/-- The toolchains are derived from the languages, and this is one of them. -/
def derivedFrom (sandbox : Sandbox) (project : Project) (language : String) : Bool :=
  sandbox.toolchains.isEmpty && decide (language.toList ∈ project.languages)

/-- The language server of a toolchain, with the servers beside it. -/
def resolveLsp (sandbox : Sandbox) (project : Project) (ctx : SandboxPodContext)
    (toolchain : Toolchain) : Option (LspSpec × List Json) :=
  let volar := derivedFrom sandbox project "vue"
  let hadolint := derivedFrom sandbox project "dockerfile"
  let pyright := derivedFrom sandbox project "python"
  if volar ∧ toolchain.name = "node".toList ∧ toolchain.lsp.isNone then some (nodeLspComposite ctx)
  else if hadolint ∧ toolchain.name = "docker".toList ∧ toolchain.lsp.isNone then
    some (dockerLspComposite ctx)
  else if pyright ∧ toolchain.name = "python".toList ∧ toolchain.lsp.isNone then
    some (pythonLspComposite ctx)
  else (resolveToolchainLsp toolchain ctx).map fun lsp => (lsp, [])

/-- A language server that is mounted for the toolchain of this name. -/
structure MountedLsp where
  toolchain : Name
  spec : LspSpec
  aux : List Json

def mountedLsps (sandbox : Sandbox) (project : Project) (ctx : SandboxPodContext) :
    List MountedLsp :=
  (effectiveToolchains sandbox project ctx).filterMap fun toolchain =>
    (resolveLsp sandbox project ctx toolchain).map fun lsp => ⟨toolchain.name, lsp.1, lsp.2⟩

/-- What `VNL_LSP_TOOLCHAINS` says of a language server. -/
def MountedLsp.entry (lsp : MountedLsp) : Json :=
  .object ([("name", .str lsp.toolchain), ("bin", .str lsp.spec.bin),
    ("args", .arr (lsp.spec.args.map .str))] ++
    if lsp.aux.isEmpty then [] else [("aux", .arr lsp.aux)])

/-! ## The Pod -/

def imageVolume (name image : Name) : Volume := ⟨name, .image image "IfNotPresent".toList⟩

def toolchainVolume (toolchain : Toolchain) : Volume :=
  imageVolume ("toolchain-".toList ++ toolchain.name) toolchain.image

def toolchainMount (toolchain : Toolchain) : VolumeMount :=
  ⟨"toolchain-".toList ++ toolchain.name, toolchainRoot toolchain.name, none⟩

def lspVolume (lsp : MountedLsp) : Volume :=
  imageVolume ("toolchain-".toList ++ lsp.toolchain ++ "-lsp".toList) lsp.spec.image

def lspMount (lsp : MountedLsp) : VolumeMount :=
  ⟨"toolchain-".toList ++ lsp.toolchain ++ "-lsp".toList,
    "/toolchains/".toList ++ lsp.toolchain ++ "-lsp".toList, none⟩

def cacheMount (cache : Name) : VolumeMount :=
  ⟨"workspace".toList, "/project-cache/".toList ++ cacheDirName cache, some (cachePath cache)⟩

def fixedEnv (project : Project) (restateIngressUrl : Option Name) : List EnvVar :=
  [⟨"VNL_SANDBOX_ROOT".toList, homeMountPath ++ "/workspace".toList⟩] ++
    (match project.defaultBranch with
      | some branch => if branch.isEmpty then [] else [⟨"VNL_HEALTH_BASE_REF".toList, branch⟩]
      | none => []) ++
    (match restateIngressUrl with
      | some url => [⟨"VNL_RESTATE_INGRESS_URL".toList, url⟩]
      | none => [])

def cacheEnv (project : Project) : List EnvVar := (effectiveCaches project).filterMap cacheEnvVar

/-- The variables before those of the toolchains. -/
def leadingEnv (project : Project) (restateIngressUrl : Option Name) : List EnvVar :=
  fixedEnv project restateIngressUrl ++ cacheEnv project

def ownerSubject (ns serviceAccount : Name) : Name :=
  "system:serviceaccount:".toList ++ ns ++ ":".toList ++ serviceAccount

/-- The text of `VNL_LSP_TOOLCHAINS`, when there is a language server and the text can be made. -/
def lspToolchains (serialize : List Json → Option Name) (lsps : List MountedLsp) : Option Name :=
  if lsps.isEmpty then none else serialize (lsps.map MountedLsp.entry)

/-- The variables after those of the toolchains. -/
def trailingEnv (serialize : List Json → Option Name) (sandbox : Sandbox)
    (ctx : SandboxPodContext) (lsps : List MountedLsp) : List EnvVar :=
  (match lspToolchains serialize lsps with
    | some json => [⟨"VNL_LSP_TOOLCHAINS".toList, json⟩]
    | none => []) ++
    (match sandbox.ns with
      | some ns => [⟨"VNL_OWNER_SUBJECT".toList, ownerSubject ns ctx.ownerServiceAccount⟩]
      | none => []) ++
    [⟨"VNL_TOKEN_ISSUER".toList, ctx.tokenIssuer⟩]

def podLabels (sandbox : Api.Sandbox) (ownerName : Name) : SortedMap Name Name :=
  .ofList
    [("vanyline.solidite.fr/owner".toList, ownerName),
      ("vanyline.solidite.fr/project".toList, sandbox.project),
      ("vanyline.solidite.fr/sandbox".toList, sandbox.name)]

def buildSandboxPod (serialize : List Json → Option Name) (sandbox : Sandbox) (project : Project)
    (ctx : SandboxPodContext) (restateIngressUrl : Option Name) : Pod :=
  let toolchains := effectiveToolchains sandbox project ctx
  let lsps := mountedLsps sandbox project ctx
  { name := podName sandbox.name
    ns := sandbox.ns
    labels := podLabels sandbox.toSandbox ctx.ownerName
    owner := (.sandbox, sandbox.name)
    serviceAccountName := ctx.ownerServiceAccount
    image := sandbox.image.getD ctx.defaultImage
    env := leadingEnv project restateIngressUrl ++ aggregateToolchainEnv toolchains ++
      trailingEnv serialize sandbox ctx lsps
    volumeMounts :=
      [⟨"home".toList, homeMountPath, none⟩,
        ⟨"workspace".toList, homeMountPath ++ "/workspace".toList,
          some (worktreePath sandbox.name)⟩,
        ⟨"workspace".toList, workspaceMountPath ++ "/".toList ++ bareRepoPath,
          some bareRepoPath⟩] ++
        (effectiveCaches project).map cacheMount ++ toolchains.map toolchainMount ++
        lsps.map lspMount
    volumes :=
      [⟨"home".toList, .persistentVolumeClaim ctx.ownerPvcName⟩,
        ⟨"workspace".toList, .persistentVolumeClaim (effectivePvcName project)⟩] ++
        toolchains.map toolchainVolume ++ lsps.map lspVolume }

end Vanyline.Controller.SandboxPod
