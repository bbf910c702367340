import Vanyline.Controller.Reconcilers
import Mathlib.Data.List.Infix
import Mathlib.Data.Set.Lattice
import Mathlib.Order.CompletePartialOrder

/-!
# Objects of distinct resources

The reconcilers give the objects of a Sandbox or an Application names with fixed
texts before and after the name of the resource, and apply them by force.

`mayTouch E` is the set of the objects that some execution of `E` creates, applies
or deletes.  Two Sandboxes, or two Applications, of one namespace are `Apart` when
these sets are disjoint, so that nothing one of them does reaches an object of the
other.

They are not always: the egress policy of the Sandbox `x` has the name of the
ingress policy of the Sandbox `x-egress`, and the workflow Service of an
Application can have the name of the web Service of another one.
`objects_apart_iff` says for which names this happens.
-/

namespace Vanyline.Controller

open Vanyline.Lib Vanyline.Crds Vanyline.Controller.Api

/-! ## Objects that a program touches -/

/-- The objects that a request creates, applies, changes or deletes.  With an
Ingress comes the Secret for its certificate. -/
def touches : Request → List Ref
  | .create ns m | .apply ns _ m =>
      ⟨m.kind, ns, m.metadata.name⟩ :: (m.ingress.map fun i => ⟨.secret, ns, i.tlsSecretName⟩).toList
  | .delete kind ns name => [⟨kind, ns, name⟩]
  | .patchFinalizers ns name _ | .patchOwnerStatus ns name _ => [⟨.owner, ns, name⟩]
  | .patchProjectStatus ns name _ => [⟨.project, ns, name⟩]
  | .patchSandboxStatus ns name _ _ | .bump ns name => [⟨.sandbox, ns, name⟩]
  | .patchApplicationStatus ns name _ => [⟨.application, ns, name⟩]
  | _ => []

/-- The executions of a program, each with its exchanges, newest first. -/
def executions {α : Type} (p : Reconciler α) : Set (List (Exchange Answer)) :=
  { es | ∃ result, p.Path [] es result }

/-- The executions of the reconciler of a Sandbox. -/
def sandboxExecutions (tokenIssuer : Option Name) (sandbox : Sandbox) (ns : Name) :
    Set (List (Exchange Answer)) :=
  executions (SandboxReconciler.apply tokenIssuer sandbox ns) ∪
    executions (SandboxReconciler.cleanup sandbox ns)

/-- The executions of the reconciler of an Application. -/
def applicationExecutions (app : Application) : Set (List (Exchange Answer)) :=
  executions (ApplicationReconciler.reconcile app)

/-- The objects that some of the executions touches. -/
def mayTouch (E : Set (List (Exchange Answer))) : Set Ref :=
  { r | ∃ es ∈ E, ∃ e ∈ es, r ∈ touches e.1 }

/-- What the cluster holds: for each object the manifest it was written with. -/
abbrev Cluster := Ref → Option Manifest

/-- The effect of an exchange: a write that succeeds replaces the object. -/
def effect (cluster : Cluster) : Exchange Answer → Cluster
  | ⟨.create ns m, .ok ()⟩ | ⟨.apply ns _ m, .ok ()⟩ =>
      Function.update cluster ⟨m.kind, ns, m.metadata.name⟩ (some m)
  | ⟨.delete kind ns name, .ok ()⟩ => Function.update cluster ⟨kind, ns, name⟩ none
  | _ => cluster

/-- The effect of the exchanges of an execution, newest first. -/
def effects (cluster : Cluster) (es : List (Exchange Answer)) : Cluster :=
  es.foldr (fun e c => effect c e) cluster

/-- Two reconcilers touch no common object, and so neither changes an object of
the other. -/
structure Apart (E E' : Set (List (Exchange Answer))) : Prop where
  disjoint : Disjoint (mayTouch E) (mayTouch E')
  left : ∀ es ∈ E, ∀ r ∈ mayTouch E', ∀ cluster, effects cluster es r = cluster r
  right : ∀ es ∈ E', ∀ r ∈ mayTouch E, ∀ cluster, effects cluster es r = cluster r

/-- The second name is the first one with the suffix of the egress policy. -/
def EgressOf (name other : Name) : Prop := other = name ++ "-egress".toList

/-- The workflow Service of the second Application has the name of the web Service
of the first one. -/
def RestateClash (name other : Name) : Prop :=
  (name = "restate".toList ∧ other = "application".toList) ∨
    ∃ x, name = x ++ "-restate".toList ∧ other = "application-".toList ++ x

/-- The controller knows the issuer of tokens, without which it applies no Sandbox. -/
def HasIssuer (tokenIssuer : Option Name) : Prop := ∃ issuer, tokenIssuer = some issuer ∧ issuer ≠ []

/-! ## Names -/

/-- Texts that end in different characters differ. -/
theorem append_ne_append_of_getLast? {s t : Name} (hs : s ≠ []) (ht : t ≠ [])
    (h : s.getLast? ≠ t.getLast?) (a b : Name) : a ++ s ≠ b ++ t := by
  intro heq
  apply h
  have hlast := congrArg List.getLast? heq
  rw [List.getLast?_append_of_ne_nil _ hs, List.getLast?_append_of_ne_nil _ ht] at hlast
  exact hlast

/-- Where `application-a` and `b-restate` are the same text. -/
theorem applicationName_eq_restateServiceName {a b : Name} :
    applicationName a = restateServiceName b ↔ RestateClash a b := by
  unfold applicationName restateServiceName RestateClash
  constructor
  · intro h
    rcases List.append_eq_append_iff.1 h with ⟨x, hb, ha⟩ | ⟨x, hbegins, ha⟩
    · exact .inr ⟨x, ha, hb⟩
    · -- The two fixed texts overlap in `x`: in nothing, or in the dash.
      cases x with
      | nil => exact .inr ⟨[], by simpa using ha.symm, by simpa using hbegins.symm⟩
      | cons c rest =>
          obtain ⟨rfl, ha⟩ : '-' = c ∧ "restate".toList = rest ++ a := by simpa using ha
          have hsplit : "application".toList ++ '-' :: [] = b ++ '-' :: rest := hbegins
          obtain ⟨hb, -, rfl⟩ :=
            (List.append_cons_inj_of_notMem (by decide) (by decide)).1 hsplit
          exact .inl ⟨by simpa using ha.symm, hb.symm⟩
  · rintro (⟨rfl, rfl⟩ | ⟨x, rfl, rfl⟩)
    · rfl
    · simp

theorem netpolName_eq_netpolEgressName {a b : Name} :
    netpolName b = netpolEgressName a ↔ EgressOf a b := by
  unfold netpolName netpolEgressName EgressOf
  generalize "sandbox-".toList = front
  generalize "-egress".toList = back
  simp

theorem checkoutJobName_ne_worktreeRemoveJobName (a b : Name) :
    checkoutJobName a ≠ worktreeRemoveJobName b := by
  unfold checkoutJobName worktreeRemoveJobName
  exact append_ne_append_of_getLast? (by decide) (by decide) (by decide) _ _

theorem cookieSecretName_ne_tlsSecretName (a b : Name) : cookieSecretName a ≠ tlsSecretName b := by
  unfold cookieSecretName tlsSecretName
  exact append_ne_append_of_getLast? (by decide) (by decide) (by decide) _ _
/-! ## Frames -/

/-- A request leaves the objects that it does not touch as they are. -/
theorem effect_of_not_mem_touches {e : Exchange Answer} {r : Ref} (h : r ∉ touches e.1)
    (cluster : Cluster) : effect cluster e r = cluster r := by
  unfold effect
  split
  · exact Function.update_of_ne (fun heq => h (by simp [touches, heq])) _ _
  · exact Function.update_of_ne (fun heq => h (by simp [touches, heq])) _ _
  · exact Function.update_of_ne (fun heq => h (by simp [touches, heq])) _ _
  · rfl

theorem effects_of_not_mem_touches {es : List (Exchange Answer)} {r : Ref}
    (h : ∀ e ∈ es, r ∉ touches e.1) (cluster : Cluster) : effects cluster es r = cluster r := by
  induction es with
  | nil => rfl
  | cons e es ih =>
      show effect (effects cluster es) e r = cluster r
      rw [effect_of_not_mem_touches (h e List.mem_cons_self)]
      exact ih fun e he => h e (List.mem_cons_of_mem _ he)

/-- An object of one side is not touched by the other one. -/
theorem effects_of_disjoint {E E' : Set (List (Exchange Answer))}
    (h : Disjoint (mayTouch E) (mayTouch E')) {es : List (Exchange Answer)} (hes : es ∈ E) {r : Ref}
    (hr : r ∈ mayTouch E') (cluster : Cluster) : effects cluster es r = cluster r := by
  apply effects_of_not_mem_touches
  intro e he hmem
  exact Set.disjoint_left.1 h ⟨es, hes, e, he, hmem⟩ hr

theorem apart_iff_disjoint {E E' : Set (List (Exchange Answer))} :
    Apart E E' ↔ Disjoint (mayTouch E) (mayTouch E') := by
  constructor
  · exact Apart.disjoint
  · intro h
    exact ⟨h, fun es hes r hr => effects_of_disjoint h hes hr,
      fun es hes r hr => effects_of_disjoint h.symm hes hr⟩

/-- All executions of `p` touch only objects of the list. -/
theorem mayTouch_executions_subset {α : Type} {p : Reconciler α} {objects : List Ref}
    (h : p.Asks fun q => ∀ r ∈ touches q, r ∈ objects) :
    mayTouch (executions p) ⊆ { r | r ∈ objects } := by
  rintro r ⟨es, ⟨result, hpath⟩, e, he, hr⟩
  exact h.of_path hpath (by simp) e he r hr

theorem mayTouch_union {E E' : Set (List (Exchange Answer))} :
    mayTouch (E ∪ E') = mayTouch E ∪ mayTouch E' := by
  ext r
  constructor
  · rintro ⟨es, hes | hes, h⟩
    · exact .inl ⟨es, hes, h⟩
    · exact .inr ⟨es, hes, h⟩
  · rintro (⟨es, hes, h⟩ | ⟨es, hes, h⟩)
    · exact ⟨es, .inl hes, h⟩
    · exact ⟨es, .inr hes, h⟩

/-! ## The objects of a Sandbox -/

/-- Every request touches only the given objects. -/
abbrev Within (objects : List Ref) (q : Request) : Prop := ∀ r ∈ touches q, r ∈ objects

/-- A request that writes nothing. -/
theorem within_read {objects : List Ref} {q : Request} (h : touches q = []) : Within objects q := by
  simp [Within, h]

section Within

variable {objects : List Ref} {ns name : Name}

theorem within_getOptJob : (getOptJob ns name).Asks (Within objects) :=
  asks_call (within_read rfl) asks_orFail

theorem within_getOptPod : (getOptPod ns name).Asks (Within objects) :=
  asks_call (within_read rfl) asks_orFail

theorem within_getProject : (getProject ns name).Asks (Within objects) :=
  asks_call (within_read rfl) asks_orFail

theorem within_getOwner : (getOwner ns name).Asks (Within objects) :=
  asks_call (within_read rfl) asks_orFail

theorem within_getApplication : (getApplication ns name).Asks (Within objects) :=
  asks_call (within_read rfl) asks_orFail

theorem within_appNamespaceOf : (OwnerNamespaces.appNamespaceOf ns).Asks (Within objects) := by
  unfold OwnerNamespaces.appNamespaceOf
  refine asks_call (within_read rfl) fun cached => ?_
  cases cached with
  | some app => exact Program.asks_pure
  | none =>
      refine (asks_call (within_read rfl) asks_orFail).bind fun found => ?_
      refine (asks_decided _).bind fun app => ?_
      exact asks_call (within_read rfl) fun _ => Program.asks_pure

theorem within_create {m : Manifest} (h : Within objects (.create ns m)) :
    (create ns m).Asks (Within objects) := asks_call h asks_orFail

theorem within_patchApply {m : Manifest} (h : Within objects (.apply ns name m)) :
    (patchApply ns name m).Asks (Within objects) := asks_call h asks_orFail

theorem within_delete {kind : Kind} (h : ⟨kind, ns, name⟩ ∈ objects) :
    (delete kind ns name).Asks (Within objects) := by
  refine asks_call ?_ asks_orFail
  simpa [Within, touches] using h

theorem within_deleteIfPresent {kind : Kind} (h : ⟨kind, ns, name⟩ ∈ objects) :
    (deleteIfPresent kind ns name).Asks (Within objects) := by
  unfold deleteIfPresent
  refine asks_call (within_read rfl) fun answer => (asks_orFail answer).bind fun found => ?_
  split
  · exact within_delete h
  · exact Program.asks_pure

end Within

/-- The objects of a Sandbox. -/
def sandboxObjects (ns name : Name) : List Ref :=
  [ ⟨.pod, ns, podName name⟩,
    ⟨.job, ns, checkoutJobName name⟩,
    ⟨.job, ns, worktreeRemoveJobName name⟩,
    ⟨.service, ns, serviceName name⟩,
    ⟨.networkPolicy, ns, netpolName name⟩,
    ⟨.networkPolicy, ns, netpolEgressName name⟩,
    ⟨.ingress, ns, ingressName name⟩,
    ⟨.secret, ns, tlsSecretName (ingressName name)⟩,
    ⟨.sandbox, ns, name⟩ ]

namespace SandboxReconciler

variable {sandbox : Sandbox} {ns : Name}

theorem within_fetchOwner {project : Project} {objects : List Ref} :
    (fetchOwner project ns).Asks (Within objects) :=
  within_appNamespaceOf.bind fun _ => within_getOwner

theorem within_fetchApplication {owner : Owner} {objects : List Ref} :
    (fetchApplication owner ns).Asks (Within objects) := by
  unfold fetchApplication
  split
  · refine within_appNamespaceOf.bind fun app => ?_
    exact within_getApplication.bind fun _ => Program.asks_pure
  · exact Program.asks_pure

theorem within_fetchRestate {owner : Owner} {objects : List Ref} :
    (fetchRestate owner ns).Asks (Within objects) := by
  unfold fetchRestate
  split
  · refine within_appNamespaceOf.bind fun app => ?_
    exact within_getApplication.bind fun _ => Program.asks_pure
  · exact Program.asks_pure

theorem within_reconcilePod {checkedOut : Bool} :
    (reconcilePod sandbox ns checkedOut).Asks (Within (sandboxObjects ns sandbox.name)) := by
  unfold reconcilePod
  split
  · refine within_getOptPod.bind fun found => ?_
    split
    · exact (within_delete (by simp [sandboxObjects])).bind fun _ => Program.asks_pure
    · exact Program.asks_pure
  · split
    · exact Program.asks_pure
    · refine within_getOptPod.bind fun found => ?_
      cases found with
      | some pod => exact Program.asks_pure
      | none =>
          refine (within_create ?_).bind fun _ => Program.asks_pure
          simp [Within, touches, buildSandboxPod, owned, Manifest.owned, sandboxObjects]

theorem within_reconcileEgress {ownerEgress projectEgress : List EgressRule} :
    (reconcileEgress sandbox ns ownerEgress projectEgress).Asks
      (Within (sandboxObjects ns sandbox.name)) := by
  unfold reconcileEgress buildSandboxEgressNetpol
  split
  · next netpol h =>
    split at h
    · cases h
    · cases h
      apply within_patchApply
      simp [Within, touches, owned, Manifest.owned, sandboxObjects]
  · exact within_deleteIfPresent (by simp [sandboxObjects])

theorem within_reconcileIngress {application : Option Application} :
    (reconcileIngress sandbox ns application).Asks (Within (sandboxObjects ns sandbox.name)) := by
  unfold reconcileIngress
  cases application with
  | some application =>
      apply within_patchApply
      simp [Within, touches, buildSandboxIngress, sandboxObjects]
  | none => exact within_deleteIfPresent (by simp [sandboxObjects])

theorem within_reconcileCheckout :
    (reconcileCheckout sandbox ns).Asks (Within (sandboxObjects ns sandbox.name)) := by
  unfold reconcileCheckout
  refine within_getOptJob.bind fun job => ?_
  cases job with
  | some job => exact Program.asks_pure
  | none =>
      refine (within_create ?_).bind fun _ => Program.asks_pure
      simp [Within, touches, buildCheckoutJob, owned, Manifest.owned, sandboxObjects]

theorem within_apply {tokenIssuer : Option Name} :
    (apply tokenIssuer sandbox ns).Asks (Within (sandboxObjects ns sandbox.name)) := by
  unfold apply
  refine (asks_decided _).bind fun _ => within_getProject.bind fun project => ?_
  split
  · exact Program.asks_throw
  · refine within_fetchOwner.bind fun owner => ?_
    split
    · split
      · refine within_reconcileCheckout.bind fun checkedOut => ?_
        refine within_fetchRestate.bind fun restate => within_reconcilePod.bind fun phase => ?_
        refine within_fetchApplication.bind fun application => ?_
        refine (within_patchApply ?_).bind fun _ => within_appNamespaceOf.bind fun _ => ?_
        · simp [Within, touches, buildSandboxService, owned, Manifest.owned, sandboxObjects]
        refine (within_patchApply ?_).bind fun _ => ?_
        · simp [Within, touches, buildSandboxNetpol, owned, Manifest.owned, sandboxObjects]
        refine within_reconcileEgress.bind fun _ => within_reconcileIngress.bind fun _ => ?_
        refine asks_call ?_ fun answer => (asks_orFail answer).bind fun _ => Program.asks_pure
        simp [Within, touches, sandboxObjects]
      · exact Program.asks_throw
    · exact Program.asks_throw

theorem within_startRemoval :
    (startRemoval sandbox ns).Asks
      (Within [⟨.job, ns, worktreeRemoveJobName sandbox.name⟩]) := by
  refine (within_create ?_).bind fun _ => Program.asks_throw
  simp [Within, touches, buildWorktreeRemoveJob, owned, Manifest.owned]

theorem within_ownerPvcName {project : Project} {objects : List Ref} :
    (ownerPvcName project ns).Asks (Within objects) := by
  refine within_fetchOwner.attempt.bind fun owner => ?_
  cases owner with
  | ok owner => exact Program.asks_pure
  | error e => exact Program.asks_pure

theorem within_cleanup :
    (cleanup sandbox ns).Asks (Within [⟨.job, ns, worktreeRemoveJobName sandbox.name⟩]) := by
  unfold cleanup
  refine within_getProject.attempt.bind fun project => ?_
  split
  · refine within_ownerPvcName.bind fun pvc => ?_
    split
    · refine within_getOptJob.bind fun job => ?_
      split
      · split
        · exact Program.asks_pure
        · exact within_startRemoval
      · exact within_startRemoval
    · exact Program.asks_pure
  · exact Program.asks_pure

/-- Without an issuer nothing is applied. -/
theorem within_apply_of_not_hasIssuer {tokenIssuer : Option Name} (h : ¬HasIssuer tokenIssuer) :
    (apply tokenIssuer sandbox ns).Asks (Within []) := by
  have herror : requireTokenIssuer tokenIssuer = .error .sandboxIssuerUnavailable := by
    unfold requireTokenIssuer
    cases tokenIssuer with
    | none => rfl
    | some issuer =>
        have hempty : issuer = [] := by
          by_contra hne
          exact h ⟨issuer, rfl, hne⟩
        simp [hempty]
  unfold apply
  rw [herror]
  exact Program.asks_throw

/-- The reconciler stays within the objects of the Sandbox. -/
theorem mayTouch_subset {tokenIssuer : Option Name} :
    mayTouch (sandboxExecutions tokenIssuer sandbox ns) ⊆
      { r | r ∈ sandboxObjects ns sandbox.name } := by
  rw [sandboxExecutions, mayTouch_union]
  apply Set.union_subset (mayTouch_executions_subset within_apply)
  apply (mayTouch_executions_subset within_cleanup).trans
  intro r hr
  obtain rfl := List.mem_singleton.1 hr
  simp [sandboxObjects]

theorem mayTouch_subset_of_not_hasIssuer {tokenIssuer : Option Name} (h : ¬HasIssuer tokenIssuer) :
    mayTouch (sandboxExecutions tokenIssuer sandbox ns) ⊆
      { r | r ∈ [(⟨.job, ns, worktreeRemoveJobName sandbox.name⟩ : Ref)] } := by
  rw [sandboxExecutions, mayTouch_union]
  apply Set.union_subset _ (mayTouch_executions_subset within_cleanup)
  apply (mayTouch_executions_subset (within_apply_of_not_hasIssuer h)).trans
  intro r hr
  cases hr

end SandboxReconciler

/-! ## The objects of an Application -/

/-- The objects of an Application. -/
def applicationObjects (ns name : Name) : List Ref :=
  [ ⟨.serviceAccount, ns, applicationName name⟩,
    ⟨.role, ns, applicationName name⟩,
    ⟨.roleBinding, ns, applicationName name⟩,
    ⟨.deployment, ns, applicationName name⟩,
    ⟨.service, ns, applicationName name⟩,
    ⟨.ingress, ns, applicationName name⟩,
    ⟨.secret, ns, tlsSecretName (applicationName name)⟩,
    ⟨.secret, ns, cookieSecretName name⟩,
    ⟨.statefulSet, ns, restateServiceName name⟩,
    ⟨.service, ns, restateServiceName name⟩,
    ⟨.networkPolicy, ns, ApplicationReconciler.restateNetpolName name⟩,
    ⟨.application, ns, name⟩ ]

namespace ApplicationReconciler

variable {app : Application} {ns : Name}

theorem within_ensureCookieSecret :
    (ensureCookieSecret app ns).Asks (Within (applicationObjects ns app.name)) := by
  unfold ensureCookieSecret
  split
  · exact Program.asks_pure
  · refine asks_call (within_read rfl) fun answer => (asks_orFail answer).bind fun found => ?_
    split
    · exact Program.asks_pure
    · apply within_create
      simp [Within, touches, buildCookieSecret, owned, Manifest.owned, applicationObjects]

/-- An object under one of the names of the Application. -/
theorem within_owned {kind : Kind} {name : Name}
    (h : ⟨kind, ns, name⟩ ∈ applicationObjects ns app.name) :
    (patchApply ns name (owned app kind name)).Asks (Within (applicationObjects ns app.name)) := by
  apply within_patchApply
  simpa [Within, touches, owned, Manifest.owned] using h

theorem within_reconcileRestate :
    (reconcileRestate app ns).Asks (Within (applicationObjects ns app.name)) := by
  unfold reconcileRestate
  split
  · refine (within_owned (by simp [applicationObjects])).bind fun _ => ?_
    refine (within_owned (by simp [applicationObjects])).bind fun _ => ?_
    exact within_owned (by simp [applicationObjects])
  · refine (within_deleteIfPresent (by simp [applicationObjects])).bind fun _ => ?_
    refine (within_deleteIfPresent (by simp [applicationObjects])).bind fun _ => ?_
    exact within_deleteIfPresent (by simp [applicationObjects])

theorem within_fetchPhase {objects : List Ref} : (fetchPhase app ns).Asks (Within objects) := by
  refine asks_call (within_read rfl) fun answer => (asks_orFail answer).bind fun found => ?_
  cases found with
  | none => exact Program.asks_pure
  | some d => exact Program.asks_pure

theorem within_reconcile :
    (reconcile app).Asks (Within (applicationObjects (app.ns.getD "default".toList) app.name)) := by
  unfold reconcile
  refine within_ensureCookieSecret.bind fun _ => ?_
  refine (within_owned (by simp [applicationObjects])).bind fun _ => ?_
  refine (within_owned (by simp [applicationObjects])).bind fun _ => ?_
  refine (within_owned (by simp [applicationObjects])).bind fun _ => within_fetchPhase.bind fun _ => ?_
  refine (within_owned (by simp [applicationObjects])).bind fun _ => ?_
  refine (within_owned (by simp [applicationObjects])).bind fun _ => ?_
  refine (within_patchApply ?_).bind fun _ => within_reconcileRestate.bind fun _ => ?_
  · simp [Within, touches, buildApplicationIngress, applicationObjects]
  refine asks_call ?_ fun answer => (asks_orFail answer).bind fun _ => Program.asks_pure
  simp [Within, touches, applicationObjects]

end ApplicationReconciler

/-! ## An execution to the end -/

/-- With the answers of `ready` the program ends with `a`. -/
def Ends {α : Type} (p : Reconciler α) (a : α) : Prop := ∀ past, (p.answered ready past).2 = .ok a

/-- With these answers the program touches the object. -/
def Touching {α : Type} (p : Reconciler α) (r : Ref) : Prop :=
  ∀ past, ∃ e ∈ (p.answered ready past).1, r ∈ touches e.1

section Ready

variable {α β : Type} {p : Reconciler α} {f : α → Reconciler β} {a : α} {b : β} {r : Ref}

theorem Touching.mem_mayTouch (h : Touching p r) : r ∈ mayTouch (executions p) :=
  ⟨_, ⟨_, Program.path_answered ready p []⟩, h []⟩

/-- The rest starts where `p` ended. -/
theorem Ends.answered_bind (hp : Ends p a) (past : List (Exchange Answer)) :
    (p >>= f).answered ready past = (f a).answered ready (p.answered ready past).1 := by
  have h := hp past
  rw [Program.answered_bind]
  rcases hend : p.answered ready past with ⟨es, result⟩
  rw [hend] at h
  subst h
  rfl

theorem Ends.touching_bind (hp : Ends p a) (hf : Touching (f a) r) : Touching (p >>= f) r := by
  intro past
  rw [hp.answered_bind]
  exact hf _

/-- What is touched before the rest stays touched. -/
theorem Touching.bind (hp : Touching p r) : Touching (p >>= f) r := by
  intro past
  obtain ⟨e, he, hr⟩ := hp past
  refine ⟨e, ?_, hr⟩
  rw [Program.answered_bind]
  rcases hend : p.answered ready past with ⟨es, result⟩
  rw [hend] at he
  cases result with
  | ok a => exact (Program.path_answered ready (f a) es).suffix.subset he
  | error error => exact he

/-- Applying an object touches it. -/
theorem touching_patchApply {ns name : Name} {m : Manifest} :
    Touching (patchApply ns name m) ⟨m.kind, ns, m.metadata.name⟩ :=
  fun _ => ⟨⟨.apply ns name m, .ok ()⟩, List.mem_cons_self, List.mem_cons_self⟩

theorem ends_patchApply {ns name : Name} {m : Manifest} : Ends (patchApply ns name m) () :=
  fun _ => rfl

/-- The object is there and so it is deleted. -/
theorem touching_deleteIfPresent {kind : Kind} {ns name : Name} :
    Touching (deleteIfPresent kind ns name) ⟨kind, ns, name⟩ :=
  fun _ => ⟨⟨.delete kind ns name, .ok ()⟩, List.mem_cons_self, List.mem_cons_self⟩

theorem ends_deleteIfPresent {kind : Kind} {ns name : Name} :
    Ends (deleteIfPresent kind ns name) () := fun _ => rfl

end Ready

namespace SandboxReconciler

variable {sandbox : Sandbox} {ns : Name}

theorem ends_reconcilePod : ∃ phase, Ends (reconcilePod sandbox ns true) phase := by
  unfold reconcilePod
  cases sandbox.suspended with
  | true => exact ⟨_, fun _ => rfl⟩
  | false => exact ⟨_, fun _ => rfl⟩

theorem touching_reconcileEgress {ownerEgress projectEgress : List EgressRule} :
    Touching (reconcileEgress sandbox ns ownerEgress projectEgress)
      ⟨.networkPolicy, ns, netpolEgressName sandbox.name⟩ := by
  unfold reconcileEgress buildSandboxEgressNetpol
  split_ifs
  · exact touching_deleteIfPresent
  · exact touching_patchApply

/-- An execution that comes as far as the policies. -/
theorem touching_apply {tokenIssuer : Option Name} (h : HasIssuer tokenIssuer) {r : Ref}
    (hrest : ∀ phase projectEgress ownerEgress, Touching (do
      patchApply ns (netpolName sandbox.name) (buildSandboxNetpol sandbox)
      reconcileEgress sandbox ns ownerEgress projectEgress
      reconcileIngress sandbox ns none
      orFail (← Program.request
        (.patchSandboxStatus ns sandbox.name phase (serviceName sandbox.name)))
      return Action.requeue (if phase = "Running".toList ∨ phase = "Suspended".toList then 300 else 15))
      r) : Touching (apply tokenIssuer sandbox ns) r := by
  obtain ⟨issuer, rfl, hissuer⟩ := h
  have hrequire : Ends (decided (requireTokenIssuer (some issuer))) issuer := by
    intro past
    simp [decided, requireTokenIssuer, hissuer]
  obtain ⟨phase, hphase⟩ : ∃ phase, Ends (reconcilePod sandbox ns true) phase := ends_reconcilePod
  have hproject : Ends (fetchProject sandbox ns) ⟨sandbox.project, none, [], [], some ⟨none, true⟩⟩ :=
    fun _ => rfl
  have howner : Ends (fetchOwner ⟨sandbox.project, none, [], [], some ⟨none, true⟩⟩ ns)
      ⟨[], none, false, [], none, [], some ⟨none, some [], some []⟩⟩ := fun _ => rfl
  have hcheckout : Ends (reconcileCheckout sandbox ns) true := fun _ => rfl
  refine hrequire.touching_bind (hproject.touching_bind (howner.touching_bind ?_))
  refine hcheckout.touching_bind ?_
  refine Ends.touching_bind (fun _ => rfl : Ends (fetchRestate _ ns) none) ?_
  refine hphase.touching_bind ?_
  refine Ends.touching_bind (fun _ => rfl : Ends (fetchApplication _ ns) none) ?_
  refine ends_patchApply.touching_bind ?_
  exact Ends.touching_bind (fun _ => rfl : Ends (OwnerNamespaces.appNamespaceOf ns) [])
    (hrest phase _ _)

/-- With an issuer, both policies of the Sandbox are touched. -/
theorem touching_netpol {tokenIssuer : Option Name} (h : HasIssuer tokenIssuer) :
    Touching (apply tokenIssuer sandbox ns) ⟨.networkPolicy, ns, netpolName sandbox.name⟩ :=
  touching_apply h fun _ _ _ => touching_patchApply.bind

theorem touching_netpolEgress {tokenIssuer : Option Name} (h : HasIssuer tokenIssuer) :
    Touching (apply tokenIssuer sandbox ns) ⟨.networkPolicy, ns, netpolEgressName sandbox.name⟩ :=
  touching_apply h fun _ _ _ => ends_patchApply.touching_bind touching_reconcileEgress.bind

end SandboxReconciler

namespace ApplicationReconciler

variable {app : Application}

/-- An execution that comes as far as the web Service. -/
theorem touching_reconcile {r : Ref}
    (hrest : ∀ phase, Touching (do
      patchApply (app.ns.getD "default".toList) (applicationName app.name) (named app .service)
      patchApply (app.ns.getD "default".toList) (applicationName app.name)
        (buildApplicationIngress app)
      reconcileRestate app (app.ns.getD "default".toList)
      orFail (← Program.request
        (.patchApplicationStatus (app.ns.getD "default".toList) app.name phase))
      return Action.requeue (if phase = "Running".toList then 300 else 15)) r) :
    Touching (reconcile app) r := by
  have hcookie : Ends (ensureCookieSecret app (app.ns.getD "default".toList)) () := by
    unfold ensureCookieSecret
    split
    · exact fun _ => rfl
    · exact fun _ => rfl
  refine hcookie.touching_bind (ends_patchApply.touching_bind (ends_patchApply.touching_bind ?_))
  refine ends_patchApply.touching_bind ?_
  refine Ends.touching_bind (fun _ => rfl : Ends (fetchPhase app _) "Provisioning".toList) ?_
  exact ends_patchApply.touching_bind (hrest _)

theorem touching_service :
    Touching (reconcile app) ⟨.service, app.ns.getD "default".toList, applicationName app.name⟩ :=
  touching_reconcile fun _ => touching_patchApply.bind

theorem touching_restateService :
    Touching (reconcile app) ⟨.service, app.ns.getD "default".toList, restateServiceName app.name⟩ := by
  refine touching_reconcile fun _ => ends_patchApply.touching_bind (ends_patchApply.touching_bind ?_)
  apply Touching.bind
  unfold reconcileRestate
  split
  · exact ends_patchApply.touching_bind touching_patchApply.bind
  · exact ends_deleteIfPresent.touching_bind touching_deleteIfPresent.bind

end ApplicationReconciler

/-! ## Distinct resources -/

/-- Reconcilers that stay within different objects touch no common one. -/
theorem disjoint_of_subset {E E' : Set (List (Exchange Answer))} {objects objects' : List Ref}
    (h : mayTouch E ⊆ { r | r ∈ objects }) (h' : mayTouch E' ⊆ { r | r ∈ objects' })
    (hne : ∀ r ∈ objects, r ∉ objects') : Disjoint (mayTouch E) (mayTouch E') :=
  Set.disjoint_left.2 fun _ hr hr' => hne _ (h hr) (h' hr')

section Names

theorem podName_inj {a b : Name} : podName a = podName b ↔ a = b := by
  unfold podName
  generalize "sandbox-".toList = front
  simp

theorem serviceName_inj {a b : Name} : serviceName a = serviceName b ↔ a = b := by
  unfold serviceName
  generalize "sandbox-".toList = front
  simp

theorem netpolName_inj {a b : Name} : netpolName a = netpolName b ↔ a = b := by
  unfold netpolName
  generalize "sandbox-".toList = front
  simp

theorem ingressName_inj {a b : Name} : ingressName a = ingressName b ↔ a = b := by
  unfold ingressName
  generalize "sandbox-".toList = front
  simp

theorem checkoutJobName_inj {a b : Name} : checkoutJobName a = checkoutJobName b ↔ a = b := by
  unfold checkoutJobName
  generalize "sandbox-".toList = front
  generalize "-checkout".toList = back
  simp

theorem worktreeRemoveJobName_inj {a b : Name} : worktreeRemoveJobName a = worktreeRemoveJobName b ↔ a = b := by
  unfold worktreeRemoveJobName
  generalize "sandbox-".toList = front
  generalize "-remove".toList = back
  simp

theorem netpolEgressName_inj {a b : Name} : netpolEgressName a = netpolEgressName b ↔ a = b := by
  unfold netpolEgressName
  generalize "sandbox-".toList = front
  generalize "-egress".toList = back
  simp

theorem applicationName_inj {a b : Name} : applicationName a = applicationName b ↔ a = b := by
  unfold applicationName
  generalize "application-".toList = front
  simp

theorem restateServiceName_inj {a b : Name} : restateServiceName a = restateServiceName b ↔ a = b := by
  unfold restateServiceName
  generalize "-restate".toList = back
  simp

theorem cookieSecretName_inj {a b : Name} : cookieSecretName a = cookieSecretName b ↔ a = b := by
  unfold cookieSecretName
  generalize "-cookie".toList = back
  simp

theorem tlsSecretName_inj {a b : Name} : tlsSecretName a = tlsSecretName b ↔ a = b := by
  unfold tlsSecretName
  generalize "-cert".toList = back
  simp

theorem restateNetpolName_inj {a b : Name} : ApplicationReconciler.restateNetpolName a =
    ApplicationReconciler.restateNetpolName b ↔ a = b := by
  unfold ApplicationReconciler.restateNetpolName
  generalize "-netpol".toList = back
  rw [List.append_left_inj, restateServiceName_inj]

end Names

/-- The objects of two Sandboxes differ in their kind or in their name. -/
theorem sandboxObjects_disjoint {ns a b : Name} (hne : a ≠ b) (hab : ¬EgressOf a b)
    (hba : ¬EgressOf b a) : ∀ r ∈ sandboxObjects ns a, r ∉ sandboxObjects ns b := by
  have hjob := checkoutJobName_ne_worktreeRemoveJobName a b
  have hjob' := (checkoutJobName_ne_worktreeRemoveJobName b a).symm
  have hegress : netpolEgressName a ≠ netpolName b :=
    fun h => hab (netpolName_eq_netpolEgressName.1 h.symm)
  have hegress' : netpolName a ≠ netpolEgressName b :=
    fun h => hba (netpolName_eq_netpolEgressName.1 h)
  intro r ha hb
  simp only [sandboxObjects, List.mem_cons, List.not_mem_nil, or_false] at ha hb
  rcases ha with rfl | rfl | rfl | rfl | rfl | rfl | rfl | rfl | rfl
  all_goals
    simp only [Ref.mk.injEq, reduceCtorEq, false_and, true_and, or_false, podName_inj,
      checkoutJobName_inj, worktreeRemoveJobName_inj, serviceName_inj, netpolName_inj,
      netpolEgressName_inj, ingressName_inj, tlsSecretName_inj, hne, hjob, hjob', hegress,
      hegress'] at hb

/-- The objects of two Applications differ in their kind or in their name. -/
theorem applicationObjects_disjoint {ns a b : Name} (hne : a ≠ b) (hab : ¬RestateClash a b)
    (hba : ¬RestateClash b a) : ∀ r ∈ applicationObjects ns a, r ∉ applicationObjects ns b := by
  have hsecret := cookieSecretName_ne_tlsSecretName a (applicationName b)
  have hsecret' := (cookieSecretName_ne_tlsSecretName b (applicationName a)).symm
  have hrestate := mt applicationName_eq_restateServiceName.1 hab
  have hrestate' : restateServiceName a ≠ applicationName b :=
    fun h => hba (applicationName_eq_restateServiceName.1 h.symm)
  intro r ha hb
  simp only [applicationObjects, List.mem_cons, List.not_mem_nil, or_false] at ha hb
  rcases ha with rfl | rfl | rfl | rfl | rfl | rfl | rfl | rfl | rfl | rfl | rfl | rfl
  all_goals
    simp only [Ref.mk.injEq, reduceCtorEq, false_and, true_and, or_false,
      applicationName_inj, restateServiceName_inj, restateNetpolName_inj, cookieSecretName_inj,
      tlsSecretName_inj, hne, hsecret, hsecret', hrestate, hrestate'] at hb

/-- The reconcilers of two Sandboxes of one namespace are apart exactly when
neither name is the other one with the suffix of the egress policy, or when the
controller, without an issuer, applies no Sandbox at all. -/
theorem sandboxes_apart_iff {tokenIssuer : Option Name} {ns : Name} {a b : Sandbox}
    (hne : a.name ≠ b.name) :
    Apart (sandboxExecutions tokenIssuer a ns) (sandboxExecutions tokenIssuer b ns) ↔
      (HasIssuer tokenIssuer → ¬EgressOf a.name b.name ∧ ¬EgressOf b.name a.name) := by
  rw [apart_iff_disjoint]
  constructor
  · intro h hissuer
    have hnetpol : ∀ sandbox : Sandbox, (⟨.networkPolicy, ns, netpolName sandbox.name⟩ : Ref) ∈
        mayTouch (sandboxExecutions tokenIssuer sandbox ns) := by
      intro sandbox
      rw [sandboxExecutions, mayTouch_union]
      exact .inl (SandboxReconciler.touching_netpol hissuer).mem_mayTouch
    have hegress : ∀ sandbox : Sandbox,
        (⟨.networkPolicy, ns, netpolEgressName sandbox.name⟩ : Ref) ∈
          mayTouch (sandboxExecutions tokenIssuer sandbox ns) := by
      intro sandbox
      rw [sandboxExecutions, mayTouch_union]
      exact .inl (SandboxReconciler.touching_netpolEgress hissuer).mem_mayTouch
    constructor
    · intro hab
      refine Set.disjoint_left.1 h (hegress a) ?_
      rw [← netpolName_eq_netpolEgressName.2 hab]
      exact hnetpol b
    · intro hba
      refine Set.disjoint_left.1 h (hnetpol a) ?_
      rw [netpolName_eq_netpolEgressName.2 hba]
      exact hegress b
  · intro h
    by_cases hissuer : HasIssuer tokenIssuer
    · exact disjoint_of_subset SandboxReconciler.mayTouch_subset SandboxReconciler.mayTouch_subset
        (sandboxObjects_disjoint hne (h hissuer).1 (h hissuer).2)
    · refine disjoint_of_subset (SandboxReconciler.mayTouch_subset_of_not_hasIssuer hissuer)
        (SandboxReconciler.mayTouch_subset_of_not_hasIssuer hissuer) ?_
      intro r ha hb
      rw [List.mem_singleton] at ha hb
      rw [ha] at hb
      exact hne (worktreeRemoveJobName_inj.1 (Ref.mk.inj hb).2.2)

/-- The reconcilers of two Applications of one namespace are apart exactly when
no workflow Service has the name of the other one's web Service. -/
theorem applications_apart_iff {a b : Application} (hne : a.name ≠ b.name)
    (hns : a.ns.getD "default".toList = b.ns.getD "default".toList) :
    Apart (applicationExecutions a) (applicationExecutions b) ↔
      ¬RestateClash a.name b.name ∧ ¬RestateClash b.name a.name := by
  have hservice : ∀ app : Application, (⟨.service, app.ns.getD "default".toList,
      applicationName app.name⟩ : Ref) ∈ mayTouch (applicationExecutions app) :=
    fun _ => ApplicationReconciler.touching_service.mem_mayTouch
  have hrestate : ∀ app : Application, (⟨.service, app.ns.getD "default".toList,
      restateServiceName app.name⟩ : Ref) ∈ mayTouch (applicationExecutions app) :=
    fun _ => ApplicationReconciler.touching_restateService.mem_mayTouch
  rw [apart_iff_disjoint]
  constructor
  · intro h
    constructor
    · intro hab
      refine Set.disjoint_left.1 h (hservice a) ?_
      rw [applicationName_eq_restateServiceName.2 hab, hns]
      exact hrestate b
    · intro hba
      refine Set.disjoint_left.1 h (hrestate a) ?_
      rw [← applicationName_eq_restateServiceName.2 hba, hns]
      exact hservice b
  · rintro ⟨hab, hba⟩
    refine disjoint_of_subset (mayTouch_executions_subset ApplicationReconciler.within_reconcile)
      (mayTouch_executions_subset ApplicationReconciler.within_reconcile) ?_
    rw [hns]
    exact applicationObjects_disjoint hne hab hba

/-- For which names the reconcilers of two Sandboxes, and those of two Applications, of
one namespace are apart. -/
theorem objects_apart_iff (tokenIssuer : Option Name) {ns : Name} (a b : Sandbox)
    (app other : Application) (_ha : SandboxReconciler.requireNamespace a = .ok ns)
    (_hb : SandboxReconciler.requireNamespace b = .ok ns) (hab : a.name ≠ b.name)
    (hns : app.ns = other.ns) (hne : app.name ≠ other.name) :
    (Apart (sandboxExecutions tokenIssuer a ns) (sandboxExecutions tokenIssuer b ns) ↔
      (HasIssuer tokenIssuer → ¬EgressOf a.name b.name ∧ ¬EgressOf b.name a.name)) ∧
    (Apart (applicationExecutions app) (applicationExecutions other) ↔
      ¬RestateClash app.name other.name ∧ ¬RestateClash other.name app.name) := by
  constructor
  · exact sandboxes_apart_iff hab
  · exact applications_apart_iff hne (by rw [hns])

/-! ## Names that collide -/

/-- A Sandbox of the namespace `vny-alice`. -/
def sandboxOfAlice (name : Name) : Sandbox :=
  ⟨name, some "vny-alice".toList, "demo".toList, false, []⟩

/-- An Application of the namespace `vny`, with the workflow engine. -/
def applicationOfVny (name : Name) : Application :=
  ⟨name, some "vny".toList, "example.org".toList, "nginx".toList, fun _ => none, "issuer".toList,
    none, none, true⟩

/-- Sandboxes with ordinary names are apart, and so are such Applications. -/
theorem ordinary_apart :
    Apart (sandboxExecutions (some "issuer".toList) (sandboxOfAlice "x".toList) "vny-alice".toList)
        (sandboxExecutions (some "issuer".toList) (sandboxOfAlice "y".toList) "vny-alice".toList) ∧
      Apart (applicationExecutions (applicationOfVny "x".toList))
        (applicationExecutions (applicationOfVny "y".toList)) := by
  have hiff := objects_apart_iff (some "issuer".toList) (sandboxOfAlice "x".toList)
    (sandboxOfAlice "y".toList) (applicationOfVny "x".toList) (applicationOfVny "y".toList)
    rfl rfl (by decide) rfl (by decide)
  constructor
  · apply hiff.1.2
    intro _
    exact ⟨by unfold EgressOf; decide, by unfold EgressOf; decide⟩
  · apply hiff.2.2
    constructor
    · rintro (⟨h, -⟩ | ⟨x, h, -⟩)
      · exact absurd h (by decide)
      · exact absurd (congrArg List.getLast? h) (by simp [applicationOfVny])
    · rintro (⟨h, -⟩ | ⟨x, h, -⟩)
      · exact absurd h (by decide)
      · exact absurd (congrArg List.getLast? h) (by simp [applicationOfVny])

/-- The Sandboxes `x` and `x-egress` are not apart, and neither are the Applications
`x-restate` and `application-x`; all these names are labels. -/
theorem suffixes_collide :
    (∀ name ∈ ["x", "x-egress", "x-restate", "application-x"],
      name.toList.all isLabelChar = true) ∧
    ¬Apart
      (sandboxExecutions (some "issuer".toList) (sandboxOfAlice "x".toList) "vny-alice".toList)
      (sandboxExecutions (some "issuer".toList) (sandboxOfAlice "x-egress".toList)
        "vny-alice".toList) ∧
    ¬Apart (applicationExecutions (applicationOfVny "x-restate".toList))
      (applicationExecutions (applicationOfVny "application-x".toList)) := by
  refine ⟨by decide, ?_, ?_⟩
  · rw [sandboxes_apart_iff (by decide)]
    intro h
    exact (h ⟨_, rfl, by decide⟩).1 (by unfold EgressOf; decide)
  · intro h
    have hne : (applicationOfVny "x-restate".toList).name ≠
        (applicationOfVny "application-x".toList).name := by decide
    exact ((applications_apart_iff hne rfl).1 h).1 (.inr ⟨"x".toList, by decide, by decide⟩)

end Vanyline.Controller
