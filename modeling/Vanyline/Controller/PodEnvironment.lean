import Vanyline.Controller.PodRules

/-!
# The environment of a Sandbox

Of two variables of one name in a container the last one counts.  The Pod of a Sandbox has the
variables of the toolchains between those that the controller sets itself, and the environment of a
toolchain comes from the spec of the Sandbox.

* `effective_pod`: the value of a variable, from the three parts of the list.
* `wins_iff`: the values of the controller stand, or the variable is not set when it did not set it,
  exactly when no toolchain gives another value to a variable that the controller sets before the
  toolchains, or could have set after them.
* `undisturbed_of_derived`: that is so for the toolchains that are derived from the languages.
* `restateUrl_not_absent`: a toolchain can set the address of a workflow engine that is not there.
-/

namespace Vanyline.Controller.SandboxPod

open Vanyline.Lib

/-! ## The last variable of a name -/

/-- The value that the container sees. -/
def effective (env : List EnvVar) (name : Name) : Option Name :=
  env.foldl (fun found var => if var.name = name then some var.value else found) none

section Effective

variable {env env' : List EnvVar} {name value : Name}

theorem effective_foldl (env : List EnvVar) (name : Name) (start : Option Name) :
    env.foldl (fun found var => if var.name = name then some var.value else found) start =
      (effective env name).or start := by
  unfold effective
  induction env generalizing start with
  | nil => rfl
  | cons var env ih =>
      rw [List.foldl_cons, List.foldl_cons, ih (if var.name = name then some var.value else start),
        ih (if var.name = name then some var.value else none), Option.or_assoc]
      split_ifs
      · rfl
      · rw [Option.none_or]

theorem effective_append (env env' : List EnvVar) (name : Name) :
    effective (env ++ env') name = (effective env' name).or (effective env name) := by
  rw [effective, List.foldl_append, effective_foldl env' name]
  rfl

theorem effective_cons (var : EnvVar) (env : List EnvVar) (name : Name) :
    effective (var :: env) name =
      (effective env name).or (if var.name = name then some var.value else none) := by
  rw [effective, List.foldl_cons, effective_foldl env name]

theorem effective_eq_none (h : ∀ var ∈ env, var.name ≠ name) : effective env name = none := by
  induction env with
  | nil => rfl
  | cons var env ih =>
      rw [effective_cons, ih fun v hv => h v (.tail _ hv), if_neg (h var (.head _))]
      rfl

/-- All variables of this name have the same value. -/
theorem effective_of_mem {var : EnvVar} (hmem : var ∈ env)
    (hsame : ∀ v ∈ env, v.name = var.name → v.value = var.value) :
    effective env var.name = some var.value := by
  induction env with
  | nil => cases hmem
  | cons v env ih =>
      rw [effective_cons]
      by_cases hrest : ∃ v' ∈ env, v'.name = var.name
      · rcases hrest with ⟨v', hv', hname⟩
        have hvalue := hsame v' (.tail _ hv') hname
        have hvar : v' = var := by
          cases v'
          cases var
          cases hname
          cases hvalue
          rfl
        rw [ih (hvar ▸ hv') fun w hw => hsame w (.tail _ hw)]
        rfl
      · rw [effective_eq_none fun w hw hname => hrest ⟨w, hw, hname⟩]
        rcases List.mem_cons.1 hmem with rfl | hmem
        · rw [if_pos rfl]
          rfl
        · exact absurd ⟨var, hmem, rfl⟩ hrest

/-- Each name is there once. -/
theorem effective_eq_some_iff (h : (env.map EnvVar.name).Nodup) :
    effective env name = some value ↔ ⟨name, value⟩ ∈ env := by
  have hsame : ∀ var ∈ env, ∀ var' ∈ env, var'.name = var.name → var'.value = var.value := by
    intro var hvar var' hvar' hname
    rw [List.inj_on_of_nodup_map h hvar' hvar hname]
  constructor
  · intro heff
    by_cases hname : ∃ var ∈ env, var.name = name
    · rcases hname with ⟨var, hvar, rfl⟩
      rw [effective_of_mem hvar (hsame var hvar), Option.some.injEq] at heff
      rw [← heff]
      exact hvar
    · rw [effective_eq_none fun var hvar heq => hname ⟨var, hvar, heq⟩] at heff
      cases heff
  · intro hmem
    exact effective_of_mem hmem (hsame _ hmem)

end Effective

section Pod

variable (serialize : List Json → Option Name) (sandbox : Sandbox) (project : Project)
  (ctx : SandboxPodContext) (restateIngressUrl : Option Name)

/-! ## What the controller computes -/

/-- The variables of the controller, with their values; some are not set. -/
def ownedVariables : List (Name × Option Name) :=
  [("VNL_SANDBOX_ROOT".toList, some (homeMountPath ++ "/workspace".toList)),
    ("VNL_HEALTH_BASE_REF".toList, project.defaultBranch.filter (!·.isEmpty)),
    ("VNL_RESTATE_INGRESS_URL".toList, restateIngressUrl),
    ("VNL_LSP_TOOLCHAINS".toList, lspToolchains serialize (mountedLsps sandbox project ctx)),
    ("VNL_OWNER_SUBJECT".toList,
      sandbox.ns.map fun ns => ownerSubject ns ctx.ownerServiceAccount),
    ("VNL_TOKEN_ISSUER".toList, some ctx.tokenIssuer)] ++
    (cacheEnv project).map fun var => (var.name, some var.value)

/-- The controller's variables have the controller's values, the paths are put together from the
segments of all toolchains, and any other variable comes from the last toolchain that sets it. -/
structure Wins (env : List EnvVar) : Prop where
  owned : ∀ own ∈ ownedVariables serialize sandbox project ctx restateIngressUrl,
    effective env own.1 = own.2
  path : effective env "PATH".toList = some (joinPaths
    (toolchainValues (effectiveToolchains sandbox project ctx) "PATH".toList ++ [basePath]))
  libraryPath : effective env "LD_LIBRARY_PATH".toList =
    let segments :=
      toolchainValues (effectiveToolchains sandbox project ctx) "LD_LIBRARY_PATH".toList
    if segments.isEmpty then none else some (joinPaths segments)
  others : ∀ name, ¬ Joined name →
    (∀ own ∈ ownedVariables serialize sandbox project ctx restateIngressUrl, own.1 ≠ name) →
    effective env name = toolchainValue (effectiveToolchains sandbox project ctx) name

/-! ## The three parts -/

theorem effective_aggregate (toolchains : List Toolchain) {name : Name} (h : ¬ Joined name) :
    effective (aggregateToolchainEnv toolchains) name = toolchainValue toolchains name := by
  refine Option.ext fun value => ?_
  have hjoined : ∀ text, (⟨name, value⟩ : EnvVar) ≠ ⟨"PATH".toList, text⟩ ∧
      (⟨name, value⟩ : EnvVar) ≠ ⟨"LD_LIBRARY_PATH".toList, text⟩ := by
    intro text
    constructor
    · intro heq
      exact h (.inl (congrArg EnvVar.name heq))
    · intro heq
      exact h (.inr (congrArg EnvVar.name heq))
  have hothers : (⟨name, value⟩ : EnvVar) ∈ ((aggregateToolchains toolchains).others.entries.map
      fun entry => (⟨entry.1, entry.2⟩ : EnvVar)) ↔
      (name, value) ∈ (aggregateToolchains toolchains).others.entries := by
    constructor
    · intro hmem
      rcases List.mem_map.1 hmem with ⟨entry, hentry, heq⟩
      cases heq
      exact hentry
    · exact fun hmem => List.mem_map.2 ⟨_, hmem, rfl⟩
  rw [effective_eq_some_iff (nodup_aggregate toolchains), aggregateToolchainEnv, List.mem_append,
    List.mem_append, or_iff_right, hothers, SortedMap.mem_entries_iff, others_aggregateToolchains,
    if_neg h]
  rintro (hpath | hld)
  · exact (hjoined _).1 (List.mem_singleton.1 hpath)
  · split_ifs at hld
    · cases hld
    · exact (hjoined _).2 (List.mem_singleton.1 hld)

theorem effective_aggregate_path (toolchains : List Toolchain) :
    effective (aggregateToolchainEnv toolchains) "PATH".toList =
      some (joinPaths (toolchainValues toolchains "PATH".toList ++ [basePath])) := by
  rw [effective_eq_some_iff (nodup_aggregate toolchains), ← (segments_aggregateToolchains _).1]
  exact .head _

theorem effective_aggregate_libraryPath (toolchains : List Toolchain) :
    effective (aggregateToolchainEnv toolchains) "LD_LIBRARY_PATH".toList =
      let segments := toolchainValues toolchains "LD_LIBRARY_PATH".toList
      if segments.isEmpty then none else some (joinPaths segments) := by
  have hkeys : ∀ value, (⟨"LD_LIBRARY_PATH".toList, value⟩ : EnvVar) ∉
      (aggregateToolchains toolchains).others.entries.map
        fun entry => (⟨entry.1, entry.2⟩ : EnvVar) := by
    intro value hmem
    rcases List.mem_map.1 hmem with ⟨entry, hentry, heq⟩
    have hkey := congrArg EnvVar.name heq
    have hlookup := SortedMap.mem_entries_iff.1 hentry
    rw [others_aggregateToolchains, if_pos (.inr hkey)] at hlookup
    cases hlookup
  rw [← (segments_aggregateToolchains toolchains).2]
  refine Option.ext fun value => ?_
  rw [effective_eq_some_iff (nodup_aggregate toolchains), aggregateToolchainEnv, List.mem_append,
    List.mem_append, or_iff_left (hkeys value), or_iff_right]
  · show _ ↔ (if (aggregateToolchains toolchains).ldSegments.isEmpty then none
      else some (joinPaths (aggregateToolchains toolchains).ldSegments)) = some value
    by_cases hempty : (aggregateToolchains toolchains).ldSegments.isEmpty
    · rw [if_pos hempty, if_pos hempty]
      simp
    · rw [if_neg hempty, if_neg hempty, List.mem_singleton, EnvVar.mk.injEq, and_iff_right rfl,
        Option.some.injEq, eq_comm]
  · intro hmem
    have hname := congrArg EnvVar.name (List.mem_singleton.1 hmem)
    exact path_ne_ld hname.symm

theorem effective_trailing_eq_none {name : Name} (h : name ∉ trailingNames)
    (lsps : List MountedLsp) : effective (trailingEnv serialize sandbox ctx lsps) name = none := by
  refine effective_eq_none fun var hvar heq => h ?_
  rw [← heq]
  exact (trailingEnv_names serialize sandbox ctx lsps).subset (List.mem_map_of_mem hvar)

theorem effective_leading_eq_none {name : Name} (h : name ∉ fixedNames ++ cacheTable.map Prod.snd) :
    effective (leadingEnv project restateIngressUrl) name = none := by
  refine effective_eq_none fun var hvar heq => h ?_
  rw [← heq]
  exact leadingEnv_names project restateIngressUrl var hvar

/-- Two caches with one variable are one cache. -/
theorem effective_cacheEnv {var : EnvVar} (h : var ∈ cacheEnv project) :
    effective (cacheEnv project) var.name = some var.value := by
  refine effective_of_mem h fun v hv hname => ?_
  rcases List.mem_filterMap.1 h with ⟨cache, -, hcache⟩
  rcases List.mem_filterMap.1 hv with ⟨cache', -, hcache'⟩
  have hsame := cacheEnvVar_injective hcache' hcache hname
  rw [hsame, hcache] at hcache'
  rw [Option.some.inj hcache']

theorem effective_pod (name : Name) :
    effective (buildSandboxPod serialize sandbox project ctx restateIngressUrl).env name =
      (effective (trailingEnv serialize sandbox ctx (mountedLsps sandbox project ctx)) name).or
        ((effective (aggregateToolchainEnv (effectiveToolchains sandbox project ctx)) name).or
          (effective (leadingEnv project restateIngressUrl) name)) := by
  rw [← effective_append, ← effective_append]
  rfl

theorem effective_fixedEnv :
    effective (fixedEnv project restateIngressUrl) "VNL_SANDBOX_ROOT".toList =
        some (homeMountPath ++ "/workspace".toList) ∧
      effective (fixedEnv project restateIngressUrl) "VNL_HEALTH_BASE_REF".toList =
        project.defaultBranch.filter (!·.isEmpty) ∧
      effective (fixedEnv project restateIngressUrl) "VNL_RESTATE_INGRESS_URL".toList =
        restateIngressUrl := by
  unfold fixedEnv
  rcases project.defaultBranch with _ | _ | ⟨c, branch⟩
  all_goals
    cases restateIngressUrl with
    | none => exact ⟨rfl, rfl, rfl⟩
    | some url => exact ⟨rfl, rfl, rfl⟩

theorem effective_trailingEnv (lsps : List MountedLsp) :
    effective (trailingEnv serialize sandbox ctx lsps) "VNL_LSP_TOOLCHAINS".toList =
        lspToolchains serialize lsps ∧
      effective (trailingEnv serialize sandbox ctx lsps) "VNL_OWNER_SUBJECT".toList =
          sandbox.ns.map (fun ns => ownerSubject ns ctx.ownerServiceAccount) ∧
      effective (trailingEnv serialize sandbox ctx lsps) "VNL_TOKEN_ISSUER".toList =
        some ctx.tokenIssuer := by
  unfold trailingEnv
  rcases lspToolchains serialize lsps with _ | json
  all_goals
    cases sandbox.ns with
    | none => exact ⟨rfl, rfl, rfl⟩
    | some ns => exact ⟨rfl, rfl, rfl⟩

/-- A variable of the controller is set before the toolchains or after them. -/
theorem owned_split {own : Name × Option Name}
    (h : own ∈ ownedVariables serialize sandbox project ctx restateIngressUrl) :
    (own.1 ∈ trailingNames ∧
        effective (trailingEnv serialize sandbox ctx (mountedLsps sandbox project ctx)) own.1 =
          own.2) ∨
      (own.1 ∈ fixedNames ++ cacheTable.map Prod.snd ∧
        effective (leadingEnv project restateIngressUrl) own.1 = own.2) := by
  have hcaches : ∀ name ∈ fixedNames, effective (cacheEnv project) name = none := by
    intro name hname
    have hdistinct : ∀ a ∈ fixedNames, ∀ b ∈ cacheTable.map Prod.snd, a ≠ b := by decide
    exact effective_eq_none fun var hvar heq =>
      hdistinct name hname _ (cacheEnv_names project var hvar) heq.symm
  simp only [ownedVariables, List.mem_append, List.mem_cons, List.not_mem_nil, or_false] at h
  have hfixed := effective_fixedEnv project restateIngressUrl
  have htrailing := effective_trailingEnv serialize sandbox ctx (mountedLsps sandbox project ctx)
  have hleading : ∀ name ∈ fixedNames, name ∈ fixedNames ++ cacheTable.map Prod.snd ∧
      effective (leadingEnv project restateIngressUrl) name =
        effective (fixedEnv project restateIngressUrl) name := by
    intro name hname
    rw [leadingEnv, effective_append, hcaches name hname]
    exact ⟨List.mem_append_left _ hname, rfl⟩
  rcases h with (rfl | rfl | rfl | rfl | rfl | rfl) | h
  · have hname := hleading _ (.head _)
    exact .inr ⟨hname.1, hname.2.trans hfixed.1⟩
  · have hname := hleading _ (.tail _ (.head _))
    exact .inr ⟨hname.1, hname.2.trans hfixed.2.1⟩
  · have hname := hleading _ (.tail _ (.tail _ (.head _)))
    exact .inr ⟨hname.1, hname.2.trans hfixed.2.2⟩
  · exact .inl ⟨.head _, htrailing.1⟩
  · exact .inl ⟨.tail _ (.head _), htrailing.2.1⟩
  · exact .inl ⟨.tail _ (.tail _ (.head _)), htrailing.2.2⟩
  · rcases List.mem_map.1 h with ⟨var, hvar, rfl⟩
    right
    refine ⟨List.mem_append_right _ (cacheEnv_names project var hvar), ?_⟩
    rw [leadingEnv, effective_append, effective_cacheEnv project hvar]
    rfl

theorem controllerNames_of_split {name : Name}
    (h : name ∈ trailingNames ∨ name ∈ fixedNames ++ cacheTable.map Prod.snd) :
    name ∈ controllerNames := by
  rw [controllerNames, List.mem_append]
  exact h.symm

theorem effective_owned {own : Name × Option Name}
    (h : own ∈ ownedVariables serialize sandbox project ctx restateIngressUrl) :
    effective (buildSandboxPod serialize sandbox project ctx restateIngressUrl).env own.1 =
      if own.1 ∈ trailingNames then
        own.2.or (toolchainValue (effectiveToolchains sandbox project ctx) own.1)
      else (toolchainValue (effectiveToolchains sandbox project ctx) own.1).or own.2 := by
  have hdistinct : ∀ a ∈ trailingNames, a ∉ fixedNames ++ cacheTable.map Prod.snd := by decide
  rcases owned_split serialize sandbox project ctx restateIngressUrl h with
    ⟨hname, hvalue⟩ | ⟨hname, hvalue⟩
  · have hjoined := not_joined_of_controllerNames _ (controllerNames_of_split (.inl hname))
    rw [if_pos hname, effective_pod, effective_aggregate _ hjoined, hvalue,
      effective_leading_eq_none project restateIngressUrl (hdistinct _ hname), Option.or_none]
  · have hjoined := not_joined_of_controllerNames _ (controllerNames_of_split (.inr hname))
    have htrailing : own.1 ∉ trailingNames := fun hmem => hdistinct _ hmem hname
    rw [if_neg htrailing, effective_pod, effective_aggregate _ hjoined, hvalue,
      effective_trailing_eq_none serialize sandbox ctx htrailing, Option.none_or]

/-- The names that the controller sets are those of its variables. -/
theorem effective_of_not_owned {name : Name} (hjoined : ¬ Joined name)
    (h : ∀ own ∈ ownedVariables serialize sandbox project ctx restateIngressUrl, own.1 ≠ name) :
    effective (buildSandboxPod serialize sandbox project ctx restateIngressUrl).env name =
      toolchainValue (effectiveToolchains sandbox project ctx) name := by
  have hnames : (ownedVariables serialize sandbox project ctx restateIngressUrl).map Prod.fst =
      fixedNames ++ trailingNames ++ (cacheEnv project).map EnvVar.name := by
    rw [ownedVariables, List.map_append, List.map_map]
    rfl
  have hnot : name ∉ fixedNames ++ trailingNames ++ (cacheEnv project).map EnvVar.name := by
    rw [← hnames]
    intro hmem
    rcases List.mem_map.1 hmem with ⟨own, hown, hname⟩
    exact h own hown hname
  rw [List.mem_append, List.mem_append] at hnot
  have hleading : effective (leadingEnv project restateIngressUrl) name = none := by
    refine effective_eq_none fun var hvar heq => hnot ?_
    rw [← heq]
    rcases List.mem_append.1 hvar with hfixed | hcache
    · exact .inl (.inl ((fixedEnv_names project restateIngressUrl).subset
        (List.mem_map_of_mem hfixed)))
    · exact .inr (List.mem_map_of_mem hcache)
  rw [effective_pod, effective_aggregate _ hjoined, hleading, Option.or_none,
    effective_trailing_eq_none serialize sandbox ctx fun hmem => hnot (.inl (.inr hmem)),
    Option.none_or]

/-! ## Who wins -/

/-- The controller sets the variable after the toolchains, or no toolchain gives it another
value. -/
def Undisturbed : Prop :=
  ∀ own ∈ ownedVariables serialize sandbox project ctx restateIngressUrl,
    (own.1 ∈ trailingNames ∧ own.2.isSome) ∨
      ∀ value, toolchainValue (effectiveToolchains sandbox project ctx) own.1 = some value →
        own.2 = some value

theorem effective_joined {name : Name} (h : Joined name) :
    effective (buildSandboxPod serialize sandbox project ctx restateIngressUrl).env name =
      effective (aggregateToolchainEnv (effectiveToolchains sandbox project ctx)) name := by
  have hcontroller : name ∉ controllerNames := fun hmem => not_joined_of_controllerNames name hmem h
  have htrailing : name ∉ trailingNames :=
    fun hmem => hcontroller (controllerNames_of_split (.inl hmem))
  rw [effective_pod, effective_trailing_eq_none serialize sandbox ctx htrailing, Option.none_or,
    effective_leading_eq_none project restateIngressUrl
      fun hmem => hcontroller (controllerNames_of_split (.inr hmem)), Option.or_none]

/-- The effective environment is what the controller computed exactly when no toolchain disturbs a
variable that the controller does not set after the toolchains. -/
theorem wins_iff : Wins serialize sandbox project ctx restateIngressUrl
      (buildSandboxPod serialize sandbox project ctx restateIngressUrl).env ↔
    Undisturbed serialize sandbox project ctx restateIngressUrl := by
  have howned : ∀ own ∈ ownedVariables serialize sandbox project ctx restateIngressUrl,
      effective (buildSandboxPod serialize sandbox project ctx restateIngressUrl).env own.1 =
          own.2 ↔
        (own.1 ∈ trailingNames ∧ own.2.isSome) ∨
          ∀ value, toolchainValue (effectiveToolchains sandbox project ctx) own.1 = some value →
            own.2 = some value := by
    intro own hown
    rw [effective_owned serialize sandbox project ctx restateIngressUrl hown]
    generalize toolchainValue (effectiveToolchains sandbox project ctx) own.1 = found
    by_cases hname : own.1 ∈ trailingNames
    · rw [if_pos hname]
      cases own.2 <;> cases found <;> simp [hname]
    · rw [if_neg hname]
      cases own.2 <;> cases found <;> simp [hname, eq_comm]
  constructor
  · intro h own hown
    exact (howned own hown).1 (h.owned own hown)
  · intro h
    refine ⟨fun own hown => (howned own hown).2 (h own hown), ?_, ?_, ?_⟩
    · rw [effective_joined serialize sandbox project ctx restateIngressUrl (.inl rfl)]
      exact effective_aggregate_path _
    · rw [effective_joined serialize sandbox project ctx restateIngressUrl (.inr rfl)]
      exact effective_aggregate_libraryPath _
    · intro name hjoined hnot
      exact effective_of_not_owned serialize sandbox project ctx restateIngressUrl hjoined hnot

/-! ## Presets -/

theorem toolchainPreset_controllerNames : ∀ name ∈ ["rust".toList, "node".toList, "python".toList,
    "docker".toList], ∀ key ∈ controllerNames,
      ((toolchainPreset name).getD .empty).lookup key = none := by decide +kernel

theorem mem_derived {toolchain : Toolchain} (hderived : sandbox.toolchains = [])
    (h : toolchain ∈ effectiveToolchains sandbox project ctx) :
    toolchain.env = .empty ∧
      toolchain.name ∈ ["rust".toList, "node".toList, "python".toList, "docker".toList] := by
  rw [effectiveToolchains, hderived, if_neg (by decide)] at h
  simp only [List.mem_append, List.mem_ite_nil_right, List.mem_singleton] at h
  rcases h with ((⟨-, rfl⟩ | ⟨-, rfl⟩) | ⟨-, rfl⟩) | ⟨-, rfl⟩
  · exact ⟨rfl, .head _⟩
  · exact ⟨rfl, .tail _ (.head _)⟩
  · exact ⟨rfl, .tail _ (.tail _ (.head _))⟩
  · exact ⟨rfl, .tail _ (.tail _ (.tail _ (.head _)))⟩

/-- The toolchains that are derived from the languages leave the controller's variables alone. -/
theorem undisturbed_of_derived (hderived : sandbox.toolchains = []) :
    Undisturbed serialize sandbox project ctx restateIngressUrl := by
  intro own hown
  right
  intro value hvalue
  rw [toolchainValue, List.findSome?_eq_some_iff] at hvalue
  rcases hvalue with ⟨before, toolchain, after, hsplit, hlookup, -⟩
  have hmem : toolchain ∈ effectiveToolchains sandbox project ctx := by
    rw [← List.mem_reverse, hsplit]
    exact List.mem_append_right _ (.head _)
  rcases mem_derived sandbox project ctx hderived hmem with ⟨henv, hname⟩
  have hcontroller : own.1 ∈ controllerNames := by
    rcases owned_split serialize sandbox project ctx restateIngressUrl hown with h | h
    · exact controllerNames_of_split (.inl h.1)
    · exact controllerNames_of_split (.inr h.1)
  rw [resolveToolchainEnv, SortedMap.lookup_mapValues, henv, if_pos (by rfl),
    toolchainPreset_controllerNames _ hname _ hcontroller] at hlookup
  cases hlookup

end Pod

/-! ## A toolchain with variables of the controller -/

/-- Its toolchain sets the address of the workflow engine, and moves the root. -/
def ownVariables : Sandbox :=
  ⟨⟨"s".toList, some "n".toList, "p".toList, false, []⟩,
    [⟨"a".toList, "i".toList, .ofList [("VNL_RESTATE_INGRESS_URL".toList, "u".toList),
      ("VNL_SANDBOX_ROOT".toList, "/".toList)], none⟩], none⟩

/-- There is no workflow engine, and its address is set. -/
theorem restateUrl_not_absent :
    ¬ ∀ (serialize : List Json → Option Name) (sandbox : Sandbox) (project : Project)
        (ctx : SandboxPodContext) (restateIngressUrl : Option Name),
      Wins serialize sandbox project ctx restateIngressUrl
        (buildSandboxPod serialize sandbox project ctx restateIngressUrl).env := by
  intro h
  have hurl := (h (fun _ => none) ownVariables plainProject plainContext none).owned _
    (.tail _ (.tail _ (.head _)))
  exact absurd hurl (by decide +kernel)

end Vanyline.Controller.SandboxPod
