import Vanyline.Controller.Reconcilers
import Vanyline.Lib.Pool

/-!
# The rights of the app in the namespace of an Owner

When the reference of an Owner leads to an Application, `ensure_namespace` binds the ServiceAccount
of that Application to a ClusterRole in the namespace of the Owner.

The program is `OwnerNamespaces.ensureNamespace` with the contents of the binding
(`erase_ensureNamespace`).  Any number of calls run side by side, for any Owners and with any
references, over a cluster whose Applications, namespaces and bindings are created, changed and
deleted between any two requests.

* `ensureNamespace_ends` lists the last exchanges of a call that succeeds.
* `delegates_iff`: after such a call the binding is there exactly for the Application that the
  reference leads to, when the reference leads to one; or no binding was there before, and none is
  just being applied.
* `stale_binding`: nothing takes the binding away when the reference is removed.
-/

namespace Vanyline.Controller.AppDelegation

open Vanyline.Lib Vanyline.Controller.Api

/-! ## Bindings -/

def appRoleBindingName : Name := "vanyline-app".toList

def appScopeClusterRole : Name := "vanyline-app-owner-scope".toList

structure RoleRef where
  apiGroup : Option Name
  kind : Name
  name : Name
  deriving DecidableEq

structure Subject where
  kind : Name
  name : Name
  ns : Option Name
  deriving DecidableEq

structure RoleBinding where
  name : Name
  ns : Name
  roleRef : RoleRef
  subjects : List Subject
  deriving DecidableEq

/-- The ServiceAccount of an Application. -/
def serviceAccount (name ns : Name) : Subject := ⟨"ServiceAccount".toList, name, some ns⟩

def buildAppRoleBinding (ownerNamespace appServiceAccount appNamespace : Name) : RoleBinding where
  name := appRoleBindingName
  ns := ownerNamespace
  roleRef := ⟨some "rbac.authorization.k8s.io".toList, "ClusterRole".toList, appScopeClusterRole⟩
  subjects := [serviceAccount appServiceAccount appNamespace]

/-- The binding that is due. -/
def appRoleBindingFor (owner : Owner) (applicationResolves : Bool)
    (ownerNamespace appNamespace : Name) : Option RoleBinding :=
  match owner.applicationRef with
  | some ref =>
    if applicationResolves then
      some (buildAppRoleBinding ownerNamespace (applicationName ref) appNamespace)
    else none
  | none => none

/-! ## The program -/

/-- The namespace of an Owner, as it is applied. -/
structure OwnerNamespace where
  name : Name
  ownerLabel : Name
  appNamespaceLabel : Name
  managedBy : Name

inductive Request
  | getOptNamespace (name : Name)
  | applyNamespace (name : Name) (manifest : OwnerNamespace)
  | getOptApplication (ns name : Name)
  | applyRoleBinding (ns name : Name) (manifest : RoleBinding)

/-- A request without the contents of what is applied. -/
abbrev Request.erase : Request → Api.Request
  | .getOptNamespace name => .getOptNamespace name
  | .applyNamespace name manifest => .apply [] name (.free .ownerNamespace manifest.name none)
  | .getOptApplication ns name => .getOptApplication ns name
  | .applyRoleBinding ns name manifest =>
      .apply ns name (.free .roleBinding manifest.name (some manifest.ns))

abbrev Answer (q : Request) : Type := Api.Answer q.erase

abbrev Ensuring := Program Request Answer ControllerError

def request (q : Request) : Ensuring (Answer q) := Program.request q

/-- Go on with the answer of the apiserver, or end with its error. -/
def orFail {α : Type} (x : Except ApiError α) : Ensuring α := Program.done (kubeResult x)

/-- A decision of a pure function. -/
def decided {α : Type} (x : Except ControllerError α) : Ensuring α := Program.done x

def buildOwnerNamespace (owner : Owner) (appNamespace : Name) :
    Except ControllerError OwnerNamespace :=
  (OwnerNamespaces.ownerNamespaceName appNamespace owner.name).map fun name =>
    ⟨name, owner.name, appNamespace, "vanyline-controller".toList⟩

/-- Does the reference of the Owner lead to an Application? -/
def applicationResolves (owner : Owner) (appNamespace : Name) : Ensuring Bool :=
  match owner.applicationRef with
  | some name => do
    return (← orFail (← request (.getOptApplication appNamespace name))).isSome
  | none => return false

/-- Apply the namespace of the Owner, and the binding of the app's rights. -/
def ensureNamespace (owner : Owner) (appNamespace : Name) : Ensuring Unit := do
  let ownerNamespace ← decided (OwnerNamespaces.ownerNamespaceName appNamespace owner.name)
  let existing ← orFail (← request (.getOptNamespace ownerNamespace))
  decided (OwnerNamespaces.ensureDecision existing owner.name appNamespace)
  let ns ← decided (buildOwnerNamespace owner appNamespace)
  orFail (← request (.applyNamespace ownerNamespace ns))
  let resolves ← applicationResolves owner appNamespace
  match appRoleBindingFor owner resolves ownerNamespace appNamespace with
  | some binding =>
    orFail (← request (.applyRoleBinding ownerNamespace appRoleBindingName binding))
  | none => return

/-- Without the contents of the binding this is the program of the reconciler of Owners. -/
theorem erase_ensureNamespace (owner : Owner) (appNamespace : Name) :
    (ensureNamespace owner appNamespace).mapRequests Request.erase =
      OwnerNamespaces.ensureNamespace owner appNamespace := by
  have hbuild : OwnerNamespaces.buildOwnerNamespace owner appNamespace =
      (buildOwnerNamespace owner appNamespace).map fun ns => .free .ownerNamespace ns.name none := by
    unfold OwnerNamespaces.buildOwnerNamespace buildOwnerNamespace
    cases OwnerNamespaces.ownerNamespaceName appNamespace owner.name <;> rfl
  have hresolves : (applicationResolves owner appNamespace).mapRequests Request.erase =
      OwnerNamespaces.applicationResolves owner appNamespace := by
    unfold applicationResolves OwnerNamespaces.applicationResolves
    cases owner.applicationRef with
    | none => rfl
    | some ref => exact congrArg (Program.ask _) (funext fun x => by cases x <;> rfl)
  have hfail : ∀ {α : Type} (x : Except ApiError α),
      (orFail x).mapRequests Request.erase = Api.orFail x := by
    intro α x
    cases x <;> rfl
  have hdecided : ∀ {α : Type} (x : Except ControllerError α),
      (decided x).mapRequests Request.erase = Api.decided x := fun _ => rfl
  have hrequest : ∀ q, (request q).mapRequests Request.erase = Program.request q.erase :=
    fun _ => rfl
  unfold ensureNamespace OwnerNamespaces.ensureNamespace patchApply
  simp only [Program.mapRequests_bind, hdecided, hfail, hrequest, hresolves, hbuild]
  refine bind_congr fun ownerNamespace => bind_congr fun x => bind_congr fun existing =>
    bind_congr fun _ => ?_
  cases buildOwnerNamespace owner appNamespace with
  | error e => rfl
  | ok ns =>
      refine congrArg (Program.ask _) (funext fun applied => ?_)
      cases applied with
      | error e => rfl
      | ok _ =>
          show OwnerNamespaces.applicationResolves owner appNamespace >>= _ =
            OwnerNamespaces.applicationResolves owner appNamespace >>= _
          refine bind_congr fun resolves => ?_
          unfold appRoleBindingFor OwnerNamespaces.appRoleBindingFor
          cases owner.applicationRef with
          | none => rfl
          | some ref =>
              cases resolves with
              | false => rfl
              | true => exact congrArg (Program.ask _) (funext fun x => by cases x <;> rfl)

/-! ## The cluster -/

structure Cluster where
  namespaces : Name → Option Namespace
  applications : Name → Name → Option Application
  roleBindings : Name → Name → Option RoleBinding

/-- Something is created, changed or deleted by somebody else. -/
inductive Change
  | setApplication (ns name : Name) (now : Option Application)
  | setNamespace (name : Name) (now : Option Namespace)
  | setRoleBinding (ns name : Name) (now : Option RoleBinding)

/-- A request is answered, is refused, or is performed while its answer is lost. -/
inductive Outcome
  | answered
  | refused (e : ApiError)
  | lost (e : ApiError)

def refusal (e : ApiError) : (q : Request) → Answer q
  | .getOptNamespace _ => .error e
  | .applyNamespace _ _ => .error e
  | .getOptApplication _ _ => .error e
  | .applyRoleBinding _ _ _ => .error e

def Cluster.setRoleBinding (w : Cluster) (ns name : Name) (now : Option RoleBinding) : Cluster :=
  { w with
    roleBindings := Function.update w.roleBindings ns
      (Function.update (w.roleBindings ns) name now) }

/-- Forced server-side apply: the labels are set, and the list of subjects is replaced as a whole.
A binding needs its namespace, and its `roleRef` cannot be changed. -/
def perform (w : Cluster) : (q : Request) → Cluster × Answer q
  | .getOptNamespace name => (w, .ok (w.namespaces name))
  | .applyNamespace name manifest =>
      let applied : Namespace := ⟨name, some manifest.ownerLabel, some manifest.appNamespaceLabel,
        (w.namespaces name).any (·.deletionTimestamp)⟩
      ({ w with namespaces := Function.update w.namespaces name (some applied) }, .ok ())
  | .getOptApplication ns name => (w, .ok (w.applications ns name))
  | .applyRoleBinding ns name manifest =>
      if (w.namespaces ns).isNone then (w, .error .notFound)
      else if (w.roleBindings ns name).any (·.roleRef ≠ manifest.roleRef) then (w, .error .other)
      else (w.setRoleBinding ns name (some manifest), .ok ())

def serve (w : Cluster) (q : Request) : Outcome → Option (Cluster × Answer q)
  | .answered => some (perform w q)
  | .refused e => some (w, refusal e q)
  | .lost e => some ((perform w q).1, refusal e q)

/-- What is in a namespace goes with it. -/
def move (w : Cluster) : Change → Option Cluster
  | .setApplication ns name now => some
      { w with
        applications := Function.update w.applications ns
          (Function.update (w.applications ns) name now) }
  | .setNamespace name (some ns) => some
      { w with namespaces := Function.update w.namespaces name (some ns) }
  | .setNamespace name none => some
      { namespaces := Function.update w.namespaces name none
        applications := Function.update w.applications name fun _ => none
        roleBindings := Function.update w.roleBindings name fun _ => none }
  | .setRoleBinding ns name now => some (w.setRoleBinding ns name now)

def world : World Cluster Request Answer Outcome Change where
  serve := serve
  move := move

/-- One `ensure_namespace`, with the Owner as it is given. -/
structure Call where
  owner : Owner
  appNamespace : Name

def program (call : Call) : Ensuring Unit := ensureNamespace call.owner call.appNamespace

abbrev State := Pool Cluster Nat Call Request Answer ControllerError Unit

abbrev PoolStep := PoolAction Nat Call Outcome Change

def step : State → PoolStep → Option State := Pool.step world program

/-- Nothing is there, and nothing has been called. -/
def State.init : State := Pool.init ⟨fun _ => none, fun _ _ => none, fun _ _ => none⟩

/-! ## The property -/

/-- The reference of the Owner leads to an Application. -/
def Resolves (w : Cluster) (call : Call) : Prop :=
  ∃ ref, call.owner.applicationRef = some ref ∧ (w.applications call.appNamespace ref).isSome

/-- The binding is there exactly when the reference leads to an Application, and then it is for
that Application only. -/
structure Delegates (w : Cluster) (call : Call) (ns : Name) : Prop where
  bound_iff : (w.roleBindings ns appRoleBindingName).isSome ↔ Resolves w call
  subjects : ∀ b ref, w.roleBindings ns appRoleBindingName = some b →
    call.owner.applicationRef = some ref →
    b.subjects = [serviceAccount (applicationName ref) call.appNamespace]

/-- The call is about to apply the binding. -/
def Applying (s : State) (i : Nat) : Prop :=
  ∃ call ns name manifest next past,
    s.threads i = some ⟨call, .ask (.applyRoleBinding ns name manifest) next, past⟩

/-! ## The last exchange -/

/-- The last exchange of a call that succeeds. -/
inductive Ending (call : Call) (ns : Name) : Exchange Answer → Prop
  | bound {ref : Name} (href : call.owner.applicationRef = some ref) :
      Ending call ns ⟨.applyRoleBinding ns appRoleBindingName
        (buildAppRoleBinding ns (applicationName ref) call.appNamespace), .ok ()⟩
  | dangling {ref : Name} (href : call.owner.applicationRef = some ref) :
      Ending call ns ⟨.getOptApplication call.appNamespace ref, .ok none⟩
  | unreferenced {name : Name} {manifest : OwnerNamespace}
      (href : call.owner.applicationRef = none) :
      Ending call ns ⟨.applyNamespace name manifest, .ok ()⟩

theorem returns_orFail {α : Type} {P : List (Exchange Answer) → α → Prop} {x : Except ApiError α}
    {past : List (Exchange Answer)} : (orFail x).Returns P past ↔ ∀ a, x = .ok a → P past a := by
  cases x with
  | ok a =>
      constructor
      · intro h b hb
        cases hb
        exact h a rfl
      · intro h b hb
        cases hb
        exact h a rfl
  | error e =>
      constructor
      · intro h b hb
        cases hb
      · intro h b hb
        cases hb

theorem returns_decided {α : Type} {P : List (Exchange Answer) → α → Prop}
    {x : Except ControllerError α} {past : List (Exchange Answer)} :
    (decided x).Returns P past ↔ ∀ a, x = .ok a → P past a := Iff.rfl

theorem returns_ask {q : Request} {P : List (Exchange Answer) → Answer q → Prop}
    {past : List (Exchange Answer)} : (request q).Returns P past ↔ ∀ x, P (⟨q, x⟩ :: past) x :=
  Program.returns_request

theorem ensureNamespace_ends (call : Call) : (program call).Returns (fun es _ => ∃ ns,
    OwnerNamespaces.ownerNamespaceName call.appNamespace call.owner.name = .ok ns ∧
      ∃ e rest, es = e :: rest ∧ Ending call ns e) [] := by
  unfold program ensureNamespace
  refine Program.returns_bind.2 (returns_decided.2 fun ns hns => ?_)
  refine Program.returns_bind.2 (returns_ask.2 fun found => ?_)
  refine Program.returns_bind.2 (returns_orFail.2 fun existing _ => ?_)
  refine Program.returns_bind.2 (returns_decided.2 fun _ _ => ?_)
  refine Program.returns_bind.2 (returns_decided.2 fun manifest _ => ?_)
  refine Program.returns_bind.2 (returns_ask.2 fun applied => ?_)
  refine Program.returns_bind.2 (returns_orFail.2 fun _ happlied => ?_)
  cases happlied
  unfold applicationResolves appRoleBindingFor
  cases href : call.owner.applicationRef with
  | none => exact Program.returns_pure.2 ⟨ns, hns, _, _, rfl, .unreferenced href⟩
  | some ref =>
      refine Program.returns_bind.2 (Program.returns_bind.2 (returns_ask.2 fun answer => ?_))
      refine Program.returns_bind.2 (returns_orFail.2 fun application hanswer => ?_)
      cases hanswer
      cases application with
      | none =>
          exact Program.returns_pure.2 (Program.returns_pure.2 ⟨ns, hns, _, _, rfl, .dangling href⟩)
      | some application =>
          refine Program.returns_pure.2 (Program.returns_bind.2 (returns_ask.2 fun bound => ?_))
          refine returns_orFail.2 fun _ hbound => ?_
          cases hbound
          exact ⟨ns, hns, _, _, rfl, .bound href⟩

/-! ## After a call that succeeds -/

variable {w w' : Cluster} {call : Call} {ns : Name}

/-- A request that has been answered without an error was performed. -/
theorem perform_of_serve {q : Request} {outcome : Outcome} {x : Answer q}
    (h : serve w q outcome = some (w', x)) (hx : ∀ e, x ≠ refusal e q) : perform w q = (w', x) := by
  cases outcome with
  | answered => exact Option.some.inj h
  | refused e =>
      simp only [serve, Option.some.injEq, Prod.mk.injEq] at h
      exact absurd h.2.symm (hx e)
  | lost e =>
      simp only [serve, Option.some.injEq, Prod.mk.injEq] at h
      exact absurd h.2.symm (hx e)

/-- The binding that has been applied is the one that is due. -/
theorem delegates_bound {ref : Name} (href : call.owner.applicationRef = some ref)
    (h : perform w (.applyRoleBinding ns appRoleBindingName
      (buildAppRoleBinding ns (applicationName ref) call.appNamespace)) = (w', .ok ())) :
    Delegates w' call ns ↔ Resolves w call := by
  simp only [perform] at h
  split_ifs at h
  · cases h
  · cases h
  · cases h
    have hbinding : (w.setRoleBinding ns appRoleBindingName (some (buildAppRoleBinding ns
        (applicationName ref) call.appNamespace))).roleBindings ns appRoleBindingName =
        some (buildAppRoleBinding ns (applicationName ref) call.appNamespace) := by
      simp [Cluster.setRoleBinding]
    constructor
    · intro hdelegates
      apply hdelegates.bound_iff.1
      rw [hbinding]
      rfl
    · intro hresolves
      refine ⟨?_, ?_⟩
      · rw [hbinding]
        exact ⟨fun _ => hresolves, fun _ => rfl⟩
      · intro b ref' hb href'
        rw [hbinding, Option.some.injEq] at hb
        rw [href, Option.some.injEq] at href'
        rw [← hb, ← href']
        rfl

/-- Without an Application the binding must not be there. -/
theorem delegates_unbound (h : ¬ Resolves w call) :
    Delegates w call ns ↔ w.roleBindings ns appRoleBindingName = none := by
  constructor
  · intro hdelegates
    have hnone := mt hdelegates.bound_iff.1 h
    simpa using hnone
  · intro hnone
    refine ⟨?_, ?_⟩
    · rw [hnone]
      exact ⟨fun hsome => (Bool.false_ne_true hsome).elim, fun hresolves => (h hresolves).elim⟩
    · intro b ref hb
      rw [hnone] at hb
      cases hb

/-- What the last exchange leaves behind. -/
theorem delegates_of_ending {q : Request} {outcome : Outcome} {x : Answer q}
    (hending : Ending call ns ⟨q, x⟩) (h : serve w q outcome = some (w', x)) :
    Delegates w' call ns ↔ Resolves w call ∨
      ((∀ ns' name manifest, q ≠ .applyRoleBinding ns' name manifest) ∧
        w.roleBindings ns appRoleBindingName = none) := by
  cases hending with
  | bound href =>
      have hperform := perform_of_serve h (by intro e he; cases he)
      rw [delegates_bound href hperform]
      constructor
      · exact Or.inl
      · rintro (hresolves | ⟨hother, -⟩)
        · exact hresolves
        · exact absurd rfl (hother _ _ _)
  | @dangling ref href =>
      have hperform := perform_of_serve h (by intro e he; cases he)
      simp only [perform, Prod.mk.injEq, Except.ok.injEq] at hperform
      rcases hperform with ⟨rfl, hnone⟩
      have hresolves : ¬ Resolves w call := by
        rintro ⟨ref', href', hsome⟩
        rw [href, Option.some.injEq] at href'
        rw [← href', hnone] at hsome
        cases hsome
      rw [delegates_unbound hresolves]
      constructor
      · intro hb
        exact .inr ⟨(by intro _ _ _ heq; cases heq), hb⟩
      · rintro (h' | ⟨-, hb⟩)
        · exact absurd h' hresolves
        · exact hb
  | unreferenced href =>
      have hperform := perform_of_serve h (by intro e he; cases he)
      simp only [perform, Prod.mk.injEq, and_true] at hperform
      have hresolves : ∀ v : Cluster, ¬ Resolves v call := by
        rintro v ⟨ref', href', -⟩
        rw [href] at href'
        cases href'
      rw [delegates_unbound (hresolves w')]
      subst hperform
      constructor
      · intro hb
        exact .inr ⟨(by intro _ _ _ heq; cases heq), hb⟩
      · rintro (h' | ⟨-, hb⟩)
        · exact absurd h' (hresolves w)
        · exact hb

/-- In every run, at the request that ends an `ensure_namespace` with success: the delegation
follows the reference exactly when the reference leads to an Application, or the binding is neither
there nor about to be applied. -/
theorem delegates_iff {as : List PoolStep} {s t : State} {i : Nat} {outcome : Outcome}
    {past : List (Exchange Answer)} (hrun : Run step free State.init as s)
    (hnext : step s (.serve i outcome) = some t)
    (hdone : t.threads i = some ⟨call, .done (.ok ()), past⟩) :
    ∃ ns, OwnerNamespaces.ownerNamespaceName call.appNamespace call.owner.name = .ok ns ∧
      (Delegates t.world call ns ↔ Resolves s.world call ∨
        (¬ Applying s i ∧ s.world.roleBindings ns appRoleBindingName = none)) := by
  have hvalid : Pool.Valid program s := hrun.invariant Pool.valid_init
    fun _ _ _ hs _ hstep => Pool.valid_step hs hstep
  have hends := (Pool.valid_step hvalid hnext).meets hdone (ensureNamespace_ends call) () rfl
  rcases hends with ⟨ns, hns, e, rest, hpast, hending⟩
  refine ⟨ns, hns, ?_⟩
  rcases Pool.step_cases hnext with ⟨j, c, ha, -, -⟩ |
    ⟨j, outcome', c, q, next, past', w, x, ha, hthread, hserve, rfl⟩ | ⟨y, w, ha, -, -⟩
  · cases ha
  · cases ha
    simp only [Function.update_self, Option.some.injEq, Thread.mk.injEq] at hdone
    rw [← hdone.2.2, List.cons.injEq] at hpast
    rw [← hpast.1] at hending
    rw [delegates_of_ending hending hserve]
    have happlying : Applying s i ↔
        ∃ ns' name manifest, q = .applyRoleBinding ns' name manifest := by
      constructor
      · rintro ⟨c', ns', name, manifest, next', past'', hthread'⟩
        rw [hthread] at hthread'
        cases hthread'
        exact ⟨ns', name, manifest, rfl⟩
      · rintro ⟨ns', name, manifest, rfl⟩
        exact ⟨c, ns', name, manifest, next, past', hthread⟩
    rw [happlying]
    simp only [not_exists]
  · cases ha

/-! ## A reference that is removed -/

/-- The call has ended with success, as the test says. -/
def State.ended (t : State) (i : Nat) (test : Cluster → Call → Bool) : Bool :=
  match t.threads i with
  | some ⟨call, .done (.ok _), _⟩ => test t.world call
  | _ => false

theorem exists_ended {as : List PoolStep} {i : Nat} {test : Cluster → Call → Bool}
    (h : ((exec step free State.init as).any fun s =>
      (step s (.serve i .answered)).any fun t => t.ended i test) = true) :
    ∃ s t call past, Run step free State.init as s ∧ step s (.serve i .answered) = some t ∧
      t.threads i = some ⟨call, .done (.ok ()), past⟩ ∧ test t.world call = true := by
  rcases Run.exists_of_exec _ h with ⟨s, hrun, hs⟩
  rcases (Option.any_eq_true _ _).1 hs with ⟨t, hnext, ht⟩
  unfold State.ended at ht
  split at ht
  · next call _ past hthread => exact ⟨s, t, call, past, hrun, hnext, hthread, ht⟩
  · cases ht

/-- The Owner `seb` of the application namespace `vny`. -/
def seb (applicationRef : Option Name) : Call :=
  ⟨⟨"seb".toList, some "vny".toList, false, [], applicationRef, [], none⟩, "vny".toList⟩

/-- The Application `app` is created, and the Owner refers to it. -/
def referred : List PoolStep :=
  [.move (.setApplication "vny".toList "app".toList (some ⟨"app".toList, none, [], [],
    fun _ => none, [], none, none, false⟩)),
    .start 0 (seb (some "app".toList)), .serve 0 .answered, .serve 0 .answered, .serve 0 .answered]

/-- Then the Owner refers to none. -/
def unreferred : List PoolStep :=
  referred ++ [.serve 0 .answered, .start 1 (seb none), .serve 1 .answered]

theorem delegates_iff_referred : ∃ s t call past, Run step free State.init referred s ∧
    step s (.serve 0 .answered) = some t ∧ t.threads 0 = some ⟨call, .done (.ok ()), past⟩ ∧
    ∃ ns, OwnerNamespaces.ownerNamespaceName call.appNamespace call.owner.name = .ok ns ∧
      (Delegates t.world call ns ↔ Resolves s.world call ∨
        (¬ Applying s 0 ∧ s.world.roleBindings ns appRoleBindingName = none)) := by
  have htest : ((exec step free State.init referred).any fun s =>
      (step s (.serve 0 .answered)).any fun t => t.ended 0 fun _ _ => true) = true := by
    decide +kernel
  rcases exists_ended htest with ⟨s, t, call, past, hrun, hnext, hdone, -⟩
  exact ⟨s, t, call, past, hrun, hnext, hdone, delegates_iff hrun hnext hdone⟩

/-- The binding stays when the reference is removed. -/
theorem stale_binding : ¬ ∀ (as : List PoolStep) (s t : State) (i : Nat) (outcome : Outcome)
    (call : Call) (past : List (Exchange Answer)) (ns : Name), Run step free State.init as s →
    step s (.serve i outcome) = some t → t.threads i = some ⟨call, .done (.ok ()), past⟩ →
    OwnerNamespaces.ownerNamespaceName call.appNamespace call.owner.name = .ok ns →
    Delegates t.world call ns := by
  intro hall
  have htest : ((exec step free State.init unreferred).any fun s =>
      (step s (.serve 1 .answered)).any fun t => t.ended 1 fun w call =>
        call.owner.applicationRef.isNone &&
          match OwnerNamespaces.ownerNamespaceName call.appNamespace call.owner.name with
          | .ok ns => (w.roleBindings ns appRoleBindingName).isSome
          | .error _ => false) = true := by decide +kernel
  rcases exists_ended htest with ⟨s, t, call, past, hrun, hnext, hdone, hcall⟩
  rw [Bool.and_eq_true] at hcall
  split at hcall
  · next ns hns =>
    have hdelegates := hall _ s t 1 _ call past ns hrun hnext hdone hns
    rcases hdelegates.bound_iff.1 hcall.2 with ⟨ref, href, -⟩
    rw [href] at hcall
    exact Bool.false_ne_true hcall.1
  · exact Bool.false_ne_true hcall.2

end Vanyline.Controller.AppDelegation
