import Vanyline.Controller.SandboxPod

/-!
# The structural rules for Pods

The apiserver wants the names of the volumes, the paths of the mounts and the names of the variables
to be distinct, and each mount to name a volume.

* `mounts_declared`: every mount of the Pod of a Sandbox names one of its volumes.
* `wellFormed_iff` says for which Sandboxes and Projects the rest holds.  The lists that the Pod is
  put together from have free names, and nothing is compared.
* `reconcilePod` submits the Pod without looking at it.  What the apiserver says of it is the result
  (`reconcilePod_submits`).
-/

namespace Vanyline.Controller.SandboxPod

open Vanyline.Lib

/-! ## The rules -/

def Pod.volumeNames (pod : Pod) : List Name := pod.volumes.map Volume.name

def Pod.mountPaths (pod : Pod) : List Name := pod.volumeMounts.map VolumeMount.mountPath

def Pod.envNames (pod : Pod) : List Name := pod.env.map EnvVar.name

structure Pod.WellFormed (pod : Pod) : Prop where
  volumes : pod.volumeNames.Nodup
  declared : ∀ mount ∈ pod.volumeMounts, mount.name ∈ pod.volumeNames
  paths : pod.mountPaths.Nodup
  env : pod.envNames.Nodup

/-- Nothing in the specs has the name of something else in the Pod. -/
structure Separate (serialize : List Json → Option Name) (sandbox : Sandbox) (project : Project)
    (ctx : SandboxPodContext) (restateIngressUrl : Option Name) : Prop where
  toolchains : ((effectiveToolchains sandbox project ctx).map Toolchain.name).Nodup
  lsps : ∀ toolchain ∈ effectiveToolchains sandbox project ctx,
    ∀ lsp ∈ mountedLsps sandbox project ctx, toolchain.name ≠ lsp.toolchain ++ "-lsp".toList
  caches : ((effectiveCaches project).map cacheDirName).Nodup
  env : ∀ var ∈ leadingEnv project restateIngressUrl ++
      trailingEnv serialize sandbox ctx (mountedLsps sandbox project ctx),
    ∀ toolchain ∈ effectiveToolchains sandbox project ctx,
      (resolveToolchainEnv toolchain).lookup var.name = none

section Rules

variable (serialize : List Json → Option Name) (sandbox : Sandbox) (project : Project)
  (ctx : SandboxPodContext) (restateIngressUrl : Option Name)

/-! ## Volumes and mounts -/

/-- The names with a text before, and some of them with one more text after. -/
theorem nodup_prefixed (before after : Name) {names some : List Name} (hsub : some.Sublist names) :
    (names.map (before ++ ·) ++ some.map fun name => before ++ name ++ after).Nodup ↔
      names.Nodup ∧ ∀ name ∈ names, ∀ other ∈ some, name ≠ other ++ after := by
  rw [List.nodup_append, List.nodup_map_iff (List.append_right_injective before)]
  constructor
  · intro h
    refine ⟨h.1, fun name hname other hother heq => ?_⟩
    refine h.2.2 _ (List.mem_map_of_mem hname) _ (List.mem_map_of_mem hother) ?_
    rw [heq, List.append_assoc]
  · intro h
    refine ⟨h.1, ?_, ?_⟩
    · refine (h.1.sublist hsub).map fun a b hab => ?_
      exact List.append_right_injective before (List.append_left_injective after hab)
    · intro a ha b hb heq
      rcases List.mem_map.1 ha with ⟨name, hname, rfl⟩
      rcases List.mem_map.1 hb with ⟨other, hother, rfl⟩
      rw [List.append_assoc] at heq
      exact h.2 name hname other hother (List.append_cancel_left heq)

/-- The toolchains with a language server are among the toolchains, in their order. -/
theorem mountedLsps_sublist : ((mountedLsps sandbox project ctx).map MountedLsp.toolchain).Sublist
    ((effectiveToolchains sandbox project ctx).map Toolchain.name) := by
  unfold mountedLsps
  generalize effectiveToolchains sandbox project ctx = toolchains
  induction toolchains with
  | nil => exact .slnil
  | cons toolchain rest ih =>
      rw [List.filterMap_cons]
      cases resolveLsp sandbox project ctx toolchain with
      | none => exact ih.cons _
      | some lsp => exact ih.cons_cons _

theorem mounts_declared : ∀ mount ∈ (buildSandboxPod serialize sandbox project ctx
      restateIngressUrl).volumeMounts,
    mount.name ∈ (buildSandboxPod serialize sandbox project ctx restateIngressUrl).volumeNames := by
  intro mount hmount
  simp only [buildSandboxPod, Pod.volumeNames, List.map_append, List.map_map, List.mem_append,
    List.mem_map] at hmount ⊢
  rcases hmount with ((hfixed | ⟨cache, -, rfl⟩) | ⟨toolchain, htoolchain, rfl⟩) | ⟨lsp, hlsp, rfl⟩
  · refine .inl (.inl ?_)
    simp only [List.mem_cons, List.not_mem_nil, or_false] at hfixed
    rcases hfixed with rfl | rfl | rfl
    · exact ⟨_, .head _, rfl⟩
    · exact ⟨_, .tail _ (.head _), rfl⟩
    · exact ⟨_, .tail _ (.head _), rfl⟩
  · exact .inl (.inl ⟨_, .tail _ (.head _), rfl⟩)
  · exact .inl (.inr ⟨toolchain, htoolchain, rfl⟩)
  · exact .inr ⟨lsp, hlsp, rfl⟩

/-- Toolchains and language servers have volumes and paths of their own. -/
def Apart : Prop :=
  ((effectiveToolchains sandbox project ctx).map Toolchain.name).Nodup ∧
    ∀ name ∈ (effectiveToolchains sandbox project ctx).map Toolchain.name,
      ∀ other ∈ (mountedLsps sandbox project ctx).map MountedLsp.toolchain,
        name ≠ other ++ "-lsp".toList

theorem nodup_volumeNames : (buildSandboxPod serialize sandbox project ctx
    restateIngressUrl).volumeNames.Nodup ↔ Apart sandbox project ctx := by
  have hnames : (buildSandboxPod serialize sandbox project ctx restateIngressUrl).volumeNames =
      ["home".toList, "workspace".toList] ++
        (((effectiveToolchains sandbox project ctx).map Toolchain.name).map
          ("toolchain-".toList ++ ·) ++
        ((mountedLsps sandbox project ctx).map MountedLsp.toolchain).map
          fun name => "toolchain-".toList ++ name ++ "-lsp".toList) := by
    simp only [buildSandboxPod, Pod.volumeNames, List.map_append, List.map_map, List.append_assoc]
    rfl
  rw [hnames, List.nodup_append, nodup_prefixed _ _ (mountedLsps_sublist sandbox project ctx)]
  constructor
  · exact fun h => h.2.1
  · intro h
    refine ⟨by decide, h, ?_⟩
    intro a ha b hb
    have hb : ∃ rest, b = "toolchain-".toList ++ rest := by
      rcases List.mem_append.1 hb with hb | hb
      · rcases List.mem_map.1 hb with ⟨name, -, rfl⟩
        exact ⟨name, rfl⟩
      · rcases List.mem_map.1 hb with ⟨name, -, rfl⟩
        exact ⟨name ++ "-lsp".toList, List.append_assoc ..⟩
    rcases hb with ⟨rest, rfl⟩
    simp only [List.mem_cons, List.not_mem_nil, or_false] at ha
    rcases ha with rfl | rfl
    · intro heq
      cases heq
    · intro heq
      cases heq

theorem nodup_mountPaths : (buildSandboxPod serialize sandbox project ctx
    restateIngressUrl).mountPaths.Nodup ↔
      ((effectiveCaches project).map cacheDirName).Nodup ∧ Apart sandbox project ctx := by
  have hpaths : (buildSandboxPod serialize sandbox project ctx restateIngressUrl).mountPaths =
      [homeMountPath, homeMountPath ++ "/workspace".toList,
        workspaceMountPath ++ "/".toList ++ bareRepoPath] ++
      (((effectiveCaches project).map cacheDirName).map ("/project-cache/".toList ++ ·) ++
      (((effectiveToolchains sandbox project ctx).map Toolchain.name).map
          ("/toolchains/".toList ++ ·) ++
        ((mountedLsps sandbox project ctx).map MountedLsp.toolchain).map
          fun name => "/toolchains/".toList ++ name ++ "-lsp".toList)) := by
    simp only [buildSandboxPod, Pod.mountPaths, List.map_append, List.map_map, List.append_assoc]
    rfl
  have hroot : ∀ b, b ∈ ((effectiveToolchains sandbox project ctx).map Toolchain.name).map
      ("/toolchains/".toList ++ ·) ++ ((mountedLsps sandbox project ctx).map
        MountedLsp.toolchain).map (fun name => "/toolchains/".toList ++ name ++ "-lsp".toList) →
      ∃ rest, b = "/toolchains/".toList ++ rest := by
    intro b hb
    rcases List.mem_append.1 hb with hb | hb
    · rcases List.mem_map.1 hb with ⟨name, -, rfl⟩
      exact ⟨name, rfl⟩
    · rcases List.mem_map.1 hb with ⟨name, -, rfl⟩
      exact ⟨name ++ "-lsp".toList, List.append_assoc ..⟩
  rw [hpaths, List.nodup_append, List.nodup_append,
    nodup_prefixed _ _ (mountedLsps_sublist sandbox project ctx),
    List.nodup_map_iff (List.append_right_injective _)]
  constructor
  · exact fun h => ⟨h.2.1.1, h.2.1.2.1⟩
  · intro h
    refine ⟨by decide, ⟨h.1, h.2, ?_⟩, ?_⟩
    · intro a ha b hb heq
      rcases List.mem_map.1 ha with ⟨dir, -, rfl⟩
      rcases hroot b hb with ⟨rest, rfl⟩
      cases heq
    · intro a ha b hb
      simp only [List.mem_cons, List.not_mem_nil, or_false] at ha
      rcases List.mem_append.1 hb with hb | hb
      · rcases List.mem_map.1 hb with ⟨dir, -, rfl⟩
        rcases ha with rfl | rfl | rfl
        all_goals
          intro heq
          cases heq
      · rcases hroot b hb with ⟨rest, rfl⟩
        rcases ha with rfl | rfl | rfl
        all_goals
          intro heq
          cases heq

/-! ## Variables -/

/-- The names that `leadingEnv` can set without the caches. -/
def fixedNames : List Name :=
  ["VNL_SANDBOX_ROOT".toList, "VNL_HEALTH_BASE_REF".toList, "VNL_RESTATE_INGRESS_URL".toList]

/-- The caches that have a variable. -/
def cacheTable : List (Name × Name) :=
  [("cargo".toList, "CARGO_HOME".toList), ("pnpm".toList, "npm_config_store_dir".toList),
    ("pip".toList, "PIP_CACHE_DIR".toList)]

/-- The names that `trailingEnv` can set. -/
def trailingNames : List Name :=
  ["VNL_LSP_TOOLCHAINS".toList, "VNL_OWNER_SUBJECT".toList, "VNL_TOKEN_ISSUER".toList]

theorem mem_cacheTable {cache : Name} {var : EnvVar} (h : cacheEnvVar cache = some var) :
    (cache, var.name) ∈ cacheTable := by
  unfold cacheEnvVar at h
  split_ifs at h with hcargo hpnpm hpip
  · cases h
    rw [hcargo]
    decide
  · cases h
    rw [hpnpm]
    decide
  · cases h
    rw [hpip]
    decide

/-- Different caches have different variables. -/
theorem cacheEnvVar_injective {cache cache' : Name} {var var' : EnvVar}
    (h : cacheEnvVar cache = some var) (h' : cacheEnvVar cache' = some var')
    (hname : var.name = var'.name) : cache = cache' := by
  have htable : ∀ row ∈ cacheTable, ∀ row' ∈ cacheTable, row.2 = row'.2 → row.1 = row'.1 := by
    decide
  exact htable _ (mem_cacheTable h) _ (mem_cacheTable h') hname

theorem cacheEnv_names : ∀ var ∈ cacheEnv project, var.name ∈ cacheTable.map Prod.snd := by
  intro var hvar
  rcases List.mem_filterMap.1 hvar with ⟨cache, -, hcache⟩
  exact List.mem_map_of_mem (mem_cacheTable hcache)

theorem nodup_cacheEnv (h : (effectiveCaches project).Nodup) :
    ((cacheEnv project).map EnvVar.name).Nodup := by
  rw [cacheEnv, List.map_filterMap]
  refine h.filterMap fun cache cache' name hcache hcache' => ?_
  rcases Option.map_eq_some_iff.1 hcache with ⟨var, hvar, rfl⟩
  rcases Option.map_eq_some_iff.1 hcache' with ⟨var', hvar', hname⟩
  exact cacheEnvVar_injective hvar hvar' hname.symm

theorem fixedEnv_names :
    ((fixedEnv project restateIngressUrl).map EnvVar.name).Sublist fixedNames := by
  unfold fixedEnv
  rw [List.map_append, List.map_append]
  show List.Sublist _ (["VNL_SANDBOX_ROOT".toList] ++ ["VNL_HEALTH_BASE_REF".toList] ++
    ["VNL_RESTATE_INGRESS_URL".toList])
  refine ((List.Sublist.refl _).append ?_).append ?_
  · split
    · split_ifs
      · exact List.nil_sublist _
      · exact .refl _
    · exact List.nil_sublist _
  · split
    · exact .refl _
    · exact List.nil_sublist _

theorem trailingEnv_names (lsps : List MountedLsp) :
    ((trailingEnv serialize sandbox ctx lsps).map EnvVar.name).Sublist trailingNames := by
  unfold trailingEnv
  rw [List.map_append, List.map_append]
  show List.Sublist _ (["VNL_LSP_TOOLCHAINS".toList] ++ ["VNL_OWNER_SUBJECT".toList] ++
    ["VNL_TOKEN_ISSUER".toList])
  refine (List.Sublist.append ?_ ?_).append (.refl _)
  · split
    · exact .refl _
    · exact List.nil_sublist _
  · split
    · exact .refl _
    · exact List.nil_sublist _

/-- What the controller sets before and after the variables of the toolchains. -/
def controllerNames : List Name := fixedNames ++ cacheTable.map Prod.snd ++ trailingNames

theorem leadingEnv_names : ∀ var ∈ leadingEnv project restateIngressUrl,
    var.name ∈ fixedNames ++ cacheTable.map Prod.snd := by
  intro var hvar
  rw [List.mem_append]
  rcases List.mem_append.1 hvar with hfixed | hcache
  · exact .inl ((fixedEnv_names project restateIngressUrl).subset (List.mem_map_of_mem hfixed))
  · exact .inr (cacheEnv_names project var hcache)

theorem nodup_leadingEnv (h : (effectiveCaches project).Nodup) :
    ((leadingEnv project restateIngressUrl).map EnvVar.name).Nodup := by
  rw [leadingEnv, List.map_append, List.nodup_append]
  refine ⟨?_, nodup_cacheEnv project h, ?_⟩
  · have hnames : fixedNames.Nodup := by decide
    exact hnames.sublist (fixedEnv_names project restateIngressUrl)
  · intro a ha b hb
    have ha := (fixedEnv_names project restateIngressUrl).subset ha
    rcases List.mem_map.1 hb with ⟨var, hvar, rfl⟩
    have hdistinct : ∀ a ∈ fixedNames, ∀ b ∈ cacheTable.map Prod.snd, a ≠ b := by decide
    exact hdistinct a ha _ (cacheEnv_names project var hvar)

theorem names_aggregateToolchainEnv (toolchains : List Toolchain) :
    ∃ joined : List Name, joined.Sublist ["PATH".toList, "LD_LIBRARY_PATH".toList] ∧
      (aggregateToolchainEnv toolchains).map EnvVar.name =
        joined ++ (aggregateToolchains toolchains).others.entries.map Prod.fst := by
  refine ⟨["PATH".toList] ++ if (aggregateToolchains toolchains).ldSegments.isEmpty then []
    else ["LD_LIBRARY_PATH".toList], ?_, ?_⟩
  · split_ifs
    · exact (List.nil_sublist _).cons_cons _
    · exact .refl _
  · unfold aggregateToolchainEnv
    rw [List.map_append, List.map_append, List.map_map]
    congr 2
    split_ifs <;> rfl

/-- A variable that is not joined of segments is there when a toolchain sets it. -/
theorem mem_aggregate_iff (toolchains : List Toolchain) {key : Name} (h : ¬ Joined key) :
    key ∈ (aggregateToolchainEnv toolchains).map EnvVar.name ↔
      ∃ toolchain ∈ toolchains, (resolveToolchainEnv toolchain).lookup key ≠ none := by
  rcases names_aggregateToolchainEnv toolchains with ⟨joined, hjoined, hnames⟩
  have hkey : key ∉ joined := by
    intro hmem
    apply h
    simpa [Joined] using hjoined.subset hmem
  rw [hnames, List.mem_append, or_iff_right hkey, SortedMap.mem_keys_iff,
    others_aggregateToolchains, if_neg h, toolchainValue, List.findSome?_isSome_iff]
  simp [Option.isSome_iff_ne_none]

theorem nodup_aggregate (toolchains : List Toolchain) :
    ((aggregateToolchainEnv toolchains).map EnvVar.name).Nodup := by
  rcases names_aggregateToolchainEnv toolchains with ⟨joined, hjoined, hnames⟩
  rw [hnames, List.nodup_append]
  refine ⟨?_, SortedMap.nodup_keys _, ?_⟩
  · have htwo : ["PATH".toList, "LD_LIBRARY_PATH".toList].Nodup := by decide
    exact htwo.sublist hjoined
  · intro a ha b hb heq
    rw [SortedMap.mem_keys_iff, others_aggregateToolchains, if_pos] at hb
    · cases hb
    · rw [← heq]
      simpa [Joined] using hjoined.subset ha

/-- Two lists that are apart, around a third one. -/
theorem nodup_around {before middle after : List Name} (hbefore : before.Nodup)
    (hmiddle : middle.Nodup) (hafter : after.Nodup) (hapart : ∀ a ∈ before, ∀ b ∈ after, a ≠ b) :
    (before ++ middle ++ after).Nodup ↔ ∀ a ∈ before ++ after, a ∉ middle := by
  rw [List.nodup_append, List.nodup_append]
  constructor
  · intro h a ha hmem
    rcases List.mem_append.1 ha with ha | ha
    · exact h.1.2.2 a ha a hmem rfl
    · exact h.2.2 a (List.mem_append_right _ hmem) a ha rfl
  · intro h
    refine ⟨⟨hbefore, hmiddle, ?_⟩, hafter, ?_⟩
    · intro a ha b hb heq
      exact h a (List.mem_append_left _ ha) (heq ▸ hb)
    · intro a ha b hb heq
      rcases List.mem_append.1 ha with ha | ha
      · exact hapart a ha b hb heq
      · exact h b (List.mem_append_right _ hb) (heq ▸ ha)

theorem controllerNames_of_mem {lsps : List MountedLsp} {var : EnvVar}
    (h : var ∈ leadingEnv project restateIngressUrl ++ trailingEnv serialize sandbox ctx lsps) :
    var.name ∈ controllerNames := by
  rw [controllerNames, List.mem_append]
  rcases List.mem_append.1 h with h | h
  · exact .inl (leadingEnv_names project restateIngressUrl var h)
  · exact .inr ((trailingEnv_names serialize sandbox ctx lsps).subset (List.mem_map_of_mem h))

theorem not_joined_of_controllerNames : ∀ name ∈ controllerNames, ¬ Joined name := by decide

theorem nodup_envNames (hcaches : (effectiveCaches project).Nodup) :
    (buildSandboxPod serialize sandbox project ctx restateIngressUrl).envNames.Nodup ↔
      ∀ var ∈ leadingEnv project restateIngressUrl ++
          trailingEnv serialize sandbox ctx (mountedLsps sandbox project ctx),
        ∀ toolchain ∈ effectiveToolchains sandbox project ctx,
          (resolveToolchainEnv toolchain).lookup var.name = none := by
  have htrailing := trailingEnv_names serialize sandbox ctx (mountedLsps sandbox project ctx)
  have hnodup : trailingNames.Nodup := by decide
  have hdistinct : ∀ a ∈ fixedNames ++ cacheTable.map Prod.snd, ∀ b ∈ trailingNames, a ≠ b := by
    decide
  show ((leadingEnv project restateIngressUrl ++ aggregateToolchainEnv _ ++
    trailingEnv serialize sandbox ctx _).map EnvVar.name).Nodup ↔ _
  rw [List.map_append, List.map_append,
    nodup_around (nodup_leadingEnv project restateIngressUrl hcaches) (nodup_aggregate _)
      (hnodup.sublist htrailing) ?_,
    ← List.map_append, List.forall_mem_map]
  · refine forall₂_congr fun var hvar => ?_
    have hname := controllerNames_of_mem serialize sandbox project ctx restateIngressUrl hvar
    rw [mem_aggregate_iff _ (not_joined_of_controllerNames _ hname)]
    push Not
    rfl
  · intro a ha b hb
    rcases List.mem_map.1 ha with ⟨var, hvar, rfl⟩
    exact hdistinct _ (leadingEnv_names project restateIngressUrl var hvar) b (htrailing.subset hb)

/-! ## All rules -/

theorem wellFormed_iff_separate : (buildSandboxPod serialize sandbox project ctx
    restateIngressUrl).WellFormed ↔ Separate serialize sandbox project ctx restateIngressUrl := by
  have hapart : Apart sandbox project ctx ↔
      ((effectiveToolchains sandbox project ctx).map Toolchain.name).Nodup ∧
        ∀ toolchain ∈ effectiveToolchains sandbox project ctx,
          ∀ lsp ∈ mountedLsps sandbox project ctx,
            toolchain.name ≠ lsp.toolchain ++ "-lsp".toList := by
    simp only [Apart, List.forall_mem_map]
  constructor
  · intro h
    have hpaths := (nodup_mountPaths serialize sandbox project ctx restateIngressUrl).1 h.paths
    have henv := nodup_envNames serialize sandbox project ctx restateIngressUrl hpaths.1.of_map
    exact ⟨(hapart.1 hpaths.2).1, (hapart.1 hpaths.2).2, hpaths.1, henv.1 h.env⟩
  · intro h
    have happart := hapart.2 ⟨h.toolchains, h.lsps⟩
    have henv := nodup_envNames serialize sandbox project ctx restateIngressUrl h.caches.of_map
    exact {
      volumes := (nodup_volumeNames serialize sandbox project ctx restateIngressUrl).2 happart
      declared := mounts_declared serialize sandbox project ctx restateIngressUrl
      paths := (nodup_mountPaths serialize sandbox project ctx restateIngressUrl).2
        ⟨h.caches, happart⟩
      env := henv.2 h.env }

/-! ## The reconciler -/

/-- The requests about Pods, with what is in them. -/
inductive Request
  | getOptPod (ns name : Name)
  | deletePod (ns name : Name)
  | createPod (ns : Name) (pod : Pod)

abbrev Request.erase : Request → Api.Request
  | .getOptPod ns name => .getOptPod ns name
  | .deletePod ns name => .delete .pod ns name
  | .createPod ns pod => .create ns (.owned .pod pod.name pod.ns pod.owner)

abbrev Answer (q : Request) : Type := Api.Answer q.erase

abbrev Reconciling := Program Request Answer Api.ControllerError

def request (q : Request) : Reconciling (Answer q) := Program.request q

/-- Go on with the answer of the apiserver, or end with its error. -/
def orFail {α : Type} (x : Except Api.ApiError α) : Reconciling α := Program.done (kubeResult x)

/-- Suspend the Sandbox, wait for the checkout, or look after the Pod. -/
def reconcilePod (ns : Name) (checkedOut : Bool) : Reconciling Name := do
  if sandbox.suspended then
    if (← orFail (← request (.getOptPod ns (podName sandbox.name)))).isSome then
      orFail (← request (.deletePod ns (podName sandbox.name)))
    return "Suspended".toList
  else if !checkedOut then
    return "Provisioning".toList
  else
    match ← orFail (← request (.getOptPod ns (podName sandbox.name))) with
    | some pod => return SandboxReconciler.podPhase pod
    | none =>
      orFail (← request (.createPod ns
        (buildSandboxPod serialize sandbox project ctx restateIngressUrl)))
      return "Provisioning".toList

/-- Without the contents of the Pod this is the program of the reconciler of Sandboxes. -/
theorem erase_reconcilePod (ns : Name) (checkedOut : Bool) :
    (reconcilePod serialize sandbox project ctx restateIngressUrl ns checkedOut).mapRequests
      Request.erase = SandboxReconciler.reconcilePod sandbox.toSandbox ns checkedOut := by
  unfold reconcilePod SandboxReconciler.reconcilePod
  split_ifs
  · refine congrArg (Program.ask _) (funext fun found => ?_)
    rcases found with e | _ | pod
    · rfl
    · rfl
    · exact congrArg (Program.ask _) (funext fun x => by cases x <;> rfl)
  · rfl
  · refine congrArg (Program.ask _) (funext fun found => ?_)
    rcases found with e | _ | pod
    · rfl
    · exact congrArg (Program.ask _) (funext fun x => by cases x <;> rfl)
    · rfl

/-- A Pod is submitted as it was built, and the answer to that is the result. -/
theorem reconcilePod_submits (ns : Name) (checkedOut : Bool) :
    (reconcilePod serialize sandbox project ctx restateIngressUrl ns checkedOut).Meets
      (fun es r => ∀ ns' pod x, (⟨.createPod ns' pod, x⟩ : Exchange Answer) ∈ es →
        pod = buildSandboxPod serialize sandbox project ctx restateIngressUrl ∧
          r = (kubeResult x).map fun _ => "Provisioning".toList) [] := by
  unfold reconcilePod
  split_ifs
  · intro found
    rcases found with e | _ | pod
    · intro ns' pod x hmem
      rcases hmem with _ | ⟨_, ⟨⟩⟩
    · intro ns' pod x hmem
      rcases hmem with _ | ⟨_, ⟨⟩⟩
    · intro deleted
      rcases deleted with e | _
      · intro ns' pod x hmem
        rcases hmem with _ | ⟨_, _ | ⟨_, ⟨⟩⟩⟩
      · intro ns' pod x hmem
        rcases hmem with _ | ⟨_, _ | ⟨_, ⟨⟩⟩⟩
  · intro ns' pod x hmem
    cases hmem
  · intro found
    rcases found with e | _ | pod
    · intro ns' pod x hmem
      rcases hmem with _ | ⟨_, ⟨⟩⟩
    · intro created
      rcases created with e | _
      · intro ns' pod x hmem
        rcases hmem with _ | ⟨_, _ | ⟨_, ⟨⟩⟩⟩
        exact ⟨rfl, rfl⟩
      · intro ns' pod x hmem
        rcases hmem with _ | ⟨_, _ | ⟨_, ⟨⟩⟩⟩
        exact ⟨rfl, rfl⟩
    · intro ns' pod x hmem
      rcases hmem with _ | ⟨_, ⟨⟩⟩

/-- A Sandbox that is not suspended gets its Pod, whatever the rules say of it. -/
theorem reconcilePod_creates (hsuspended : sandbox.suspended = false) (ns : Name)
    (x : Except Api.ApiError Unit) :
    (reconcilePod serialize sandbox project ctx restateIngressUrl ns true).Path []
      [⟨.createPod ns (buildSandboxPod serialize sandbox project ctx restateIngressUrl), x⟩,
        ⟨.getOptPod ns (podName sandbox.name), .ok none⟩]
      ((kubeResult x).map fun _ => "Provisioning".toList) := by
  unfold reconcilePod
  rw [if_neg (by rw [hsuspended]; decide), if_neg (by decide)]
  refine .ask (.ok none) (.ask x ?_)
  cases x with
  | error e => exact .done
  | ok _ => exact .done

/-- Every mount names a volume.  The other rules hold exactly when nothing in the specs has the name
of something else.  The Pod is submitted as it was built, whether they hold or not, and a refusal is
the result. -/
theorem buildSandboxPod_rules :
    (∀ mount ∈ (buildSandboxPod serialize sandbox project ctx restateIngressUrl).volumeMounts,
      mount.name ∈
        (buildSandboxPod serialize sandbox project ctx restateIngressUrl).volumeNames) ∧
    ((buildSandboxPod serialize sandbox project ctx restateIngressUrl).WellFormed ↔
      Separate serialize sandbox project ctx restateIngressUrl) ∧
    (∀ ns checkedOut es r,
      (reconcilePod serialize sandbox project ctx restateIngressUrl ns checkedOut).Path [] es r →
      ∀ ns' pod x, (⟨.createPod ns' pod, x⟩ : Exchange Answer) ∈ es →
        pod = buildSandboxPod serialize sandbox project ctx restateIngressUrl ∧
          r = (kubeResult x).map fun _ => "Provisioning".toList) ∧
    (sandbox.suspended = false → ∀ ns x,
      (reconcilePod serialize sandbox project ctx restateIngressUrl ns true).Path []
        [⟨.createPod ns (buildSandboxPod serialize sandbox project ctx restateIngressUrl), x⟩,
          ⟨.getOptPod ns (podName sandbox.name), .ok none⟩]
        ((kubeResult x).map fun _ => "Provisioning".toList)) := by
  refine ⟨mounts_declared serialize sandbox project ctx restateIngressUrl,
    wellFormed_iff_separate serialize sandbox project ctx restateIngressUrl, ?_, ?_⟩
  · intro ns checkedOut es r hpath
    exact Program.meets_iff.1 (reconcilePod_submits serialize sandbox project ctx restateIngressUrl
      ns checkedOut) es r hpath
  · exact reconcilePod_creates serialize sandbox project ctx restateIngressUrl

end Rules

/-! ## Two toolchains of one name -/

def twoToolchains : Sandbox :=
  ⟨⟨"s".toList, some "n".toList, "p".toList, false, []⟩,
    [⟨"a".toList, "i".toList, .empty, none⟩, ⟨"a".toList, "j".toList, .empty, none⟩], none⟩

def plainProject : Project :=
  ⟨⟨"p".toList, some "n".toList, "o".toList, [], none⟩, none, some [], []⟩

def plainContext : SandboxPodContext :=
  ⟨[], [], [], [], [], [], [], [], [], [], [], [], []⟩

theorem buildSandboxPod_rules_twoToolchains :
    (reconcilePod (fun _ => none) twoToolchains plainProject plainContext none "n".toList true).Path
      []
      [⟨.createPod "n".toList
          (buildSandboxPod (fun _ => none) twoToolchains plainProject plainContext none), .ok ()⟩,
        ⟨.getOptPod "n".toList (podName twoToolchains.name), .ok none⟩]
      (.ok "Provisioning".toList) :=
  (buildSandboxPod_rules (fun _ => none) twoToolchains plainProject plainContext none).2.2.2 rfl
    "n".toList (.ok ())

/-- A Pod with two volumes of one name is submitted. -/
theorem not_wellFormed_submitted :
    ¬ ∀ (serialize : List Json → Option Name) (sandbox : Sandbox) (project : Project)
        (ctx : SandboxPodContext) (restateIngressUrl : Option Name) (ns : Name) (checkedOut : Bool)
        (es : List (Exchange Answer)) (r : Except Api.ControllerError Name),
      (reconcilePod serialize sandbox project ctx restateIngressUrl ns checkedOut).Path [] es r →
      ∀ ns' pod x, (⟨.createPod ns' pod, x⟩ : Exchange Answer) ∈ es → pod.WellFormed := by
  intro h
  have hpath := reconcilePod_creates (fun _ => none) twoToolchains plainProject plainContext none
    rfl "n".toList (.ok ())
  have hvolumes := (h _ _ _ _ _ _ _ _ _ hpath _ _ _ (.head _)).volumes
  exact absurd hvolumes (by decide +kernel)

end Vanyline.Controller.SandboxPod
