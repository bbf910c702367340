import Mathlib.Logic.Function.Basic
import Vanyline.Crds.Names
import Vanyline.Lib.Run

/-!
# One Owner, one namespace

Each Owner has a namespace `{app}-{owner}` of its own, marked with two labels:
the name of the Owner and the application namespace it lives in.  The
reconciler reads the namespace, decides from its labels whether it may be
applied or deleted, and then issues a forced apply or a delete.

The model has any number of Owners, in any application namespaces, whose names
may give the same namespace name.  Their API calls interleave with each other,
with third parties that create namespaces, and with the removal of terminating
namespaces.  Apply and delete carry no precondition, so they act on whatever is
there when they arrive.

`Safe` says that no namespace changes hands.  It fails when a second Owner of
the same namespace name reads the missing namespace before the first one has
created it (`two_owners_collide`).  `safe_of_run` proves it for the runs in which
nobody else writes the namespace between the read of a reconcile and its apply
or delete (`Undisturbed`).  The namespace name is not injective in such runs
either; it is the labels that keep the Owners apart.
-/

namespace Vanyline.Controller.OwnerNamespace

open Vanyline.Lib Vanyline.Crds

abbrev Name := List Char

/-- An Owner: the application namespace of its CR, and its name. -/
structure OwnerId where
  appNamespace : Name
  name : Name
  deriving DecidableEq

/-- A namespace: the labels that the controller sets, and whether it is being
deleted.  The last two fields are for the observer: the Owners whose labels it
has carried and the Owners that have applied it, since it was created. -/
structure Namespace where
  ownerLabel : Option Name
  appNamespaceLabel : Option Name
  managedBy : Option Name
  terminating : Bool
  past : List OwnerId
  users : List OwnerId
  deriving DecidableEq

inductive ControllerError
  | invalidNamespaceName (name reason : Name)
  | namespaceCollision (ns owner : Name)
  | namespaceTerminating (ns : Name)
  deriving DecidableEq

/-- The marker at the start of the error text. -/
def ControllerError.code : ControllerError → String
  | .invalidNamespaceName _ _ => "VNL-CTL-007"
  | .namespaceCollision _ _ => "VNL-CTL-008"
  | .namespaceTerminating _ => "VNL-CTL-009"

/-! ## Decisions -/

/-- Does the namespace carry the labels of this Owner? -/
def ownedBy (ns : Namespace) (o : OwnerId) : Bool :=
  ns.ownerLabel = some o.name && ns.appNamespaceLabel = some o.appNamespace

/-- The name of the namespace of an Owner. -/
def ownerNamespace (o : OwnerId) : Except ControllerError Name :=
  match ownerNamespaceName o.appNamespace o.name with
  | .ok name => .ok name
  | .error reason =>
    .error (.invalidNamespaceName (o.appNamespace ++ '-' :: o.name) reason)

/-- May the namespace be applied? -/
def ensureDecision (name : Name) (existing : Option Namespace) (o : OwnerId) :
    Except ControllerError Unit :=
  match existing with
  | none => .ok ()
  | some ns =>
    if !ownedBy ns o then .error (.namespaceCollision name o.name)
    else if ns.terminating then .error (.namespaceTerminating name)
    else .ok ()

inductive CleanupStep
  | done
  | delete
  | wait
  deriving DecidableEq

/-- What is left to do to delete the namespace? -/
def cleanupDecision (name : Name) (existing : Option Namespace) (o : OwnerId) :
    Except ControllerError CleanupStep :=
  match existing with
  | none => .ok .done
  | some ns =>
    if !ownedBy ns o then .error (.namespaceCollision name o.name)
    else if ns.terminating then .ok .wait
    else .ok .delete

/-- The effect of the forced apply: a new namespace, or new labels. -/
def applyNamespace (existing : Option Namespace) (o : OwnerId) : Namespace :=
  let ns := existing.getD ⟨none, none, none, false, [], []⟩
  { ns with
    ownerLabel := some o.name
    appNamespaceLabel := some o.appNamespace
    managedBy := some "vanyline-controller".toList
    past := o :: ns.past
    users := o :: ns.users }

/-! ## Steps -/

/-- The CR of an Owner. -/
inductive OwnerCr
  | absent
  | present
  | deleting
  deriving DecidableEq

/-- A reconcile between its read and its write: what it writes, the name and
what the read returned.  `seen` is for the observer: the number of writes to the
namespace before the read. -/
structure Call where
  delete : Bool
  name : Name
  existing : Option Namespace
  seen : Nat

/-- The writes that the reconcilers issue, with the namespace they arrive at. -/
inductive Event
  | applied (owner : OwnerId) (before : Option Namespace)
  | deleted (owner : OwnerId) (before : Option Namespace)
  | failed (owner : OwnerId) (error : ControllerError)
  deriving DecidableEq

structure State where
  namespaces : Name → Option Namespace
  writes : Name → Nat
  owners : OwnerId → OwnerCr
  calls : OwnerId → Option Call
  log : List Event

inductive Action
  | createOwner (owner : OwnerId)
  | deleteOwner (owner : OwnerId)
  | get (owner : OwnerId)
  | write (owner : OwnerId)
  | abandon (owner : OwnerId)
  | thirdParty (name : Name) (ownerLabel appNamespaceLabel : Option Name)
  | removed (name : Name)

/-- Write a namespace, and count the write. -/
def State.put (s : State) (name : Name) (ns : Option Namespace) : State :=
  { s with
    namespaces := Function.update s.namespaces name ns
    writes := Function.update s.writes name (s.writes name + 1) }

def State.setCall (s : State) (o : OwnerId) (call : Option Call) : State :=
  { s with calls := Function.update s.calls o call }

def State.fail (s : State) (o : OwnerId) (e : ControllerError) : State :=
  { s with log := .failed o e :: s.log }

/-- The read of `ensure_namespace`, and its decision. -/
def getEnsure (s : State) (o : OwnerId) (name : Name) : State :=
  match ensureDecision name (s.namespaces name) o with
  | .error e => s.fail o e
  | .ok () => s.setCall o (some ⟨false, name, s.namespaces name, s.writes name⟩)

/-- The read of `cleanup_namespace`, and its decision.  When the namespace is
gone, the finalizer is removed and the CR with it. -/
def getCleanup (s : State) (o : OwnerId) (name : Name) : State :=
  match cleanupDecision name (s.namespaces name) o with
  | .error e => s.fail o e
  | .ok .done => { s with owners := Function.update s.owners o .absent }
  | .ok .wait => s
  | .ok .delete => s.setCall o (some ⟨true, name, s.namespaces name, s.writes name⟩)

/-- The write of a reconcile arrives. -/
def issue (s : State) (o : OwnerId) (call : Call) : State :=
  let before := s.namespaces call.name
  if call.delete then
    let s := { s.setCall o none with log := .deleted o before :: s.log }
    match before with
    | none => s
    | some ns => s.put call.name (some { ns with terminating := true })
  else
    { (s.setCall o none).put call.name (some (applyNamespace before o)) with
      log := .applied o before :: s.log }

/-- A namespace as a third party creates it. -/
def foreignNamespace (ownerLabel appNamespaceLabel : Option Name) : Namespace where
  ownerLabel := ownerLabel
  appNamespaceLabel := appNamespaceLabel
  managedBy := none
  terminating := false
  past :=
    match ownerLabel, appNamespaceLabel with
    | some name, some app => [⟨app, name⟩]
    | _, _ => []
  users := []

/-- One API call, or one step of somebody else. -/
def step (s : State) : Action → Option State
  | .createOwner o =>
    if s.owners o = .absent then some { s with owners := Function.update s.owners o .present }
    else none
  | .deleteOwner o =>
    if s.owners o = .present then some { s with owners := Function.update s.owners o .deleting }
    else none
  | .get o =>
    match s.calls o, s.owners o, ownerNamespace o with
    | none, .present, .ok name => some (getEnsure s o name)
    | none, .deleting, .ok name => some (getCleanup s o name)
    | none, .present, .error e | none, .deleting, .error e => some (s.fail o e)
    | _, _, _ => none
  | .write o => (s.calls o).map (issue s o)
  | .abandon o => (s.calls o).map fun _ => s.setCall o none
  | .thirdParty name ownerLabel appNamespaceLabel =>
    if (s.namespaces name).isNone then
      some (s.put name (some (foreignNamespace ownerLabel appNamespaceLabel)))
    else none
  | .removed name =>
    if (s.namespaces name).any (·.terminating) then some (s.put name none) else none

/-- An empty cluster. -/
def State.init : State := ⟨fun _ => none, fun _ => 0, fun _ => .absent, fun _ => none, []⟩

/-! ## Safety -/

/-- The write was allowed on the namespace that it arrived at. -/
def Event.Legitimate : Event → Prop
  | .applied o before => before = none ∨ ∃ ns, before = some ns ∧ ownedBy ns o
  | .deleted o before => ∃ ns, before = some ns ∧ ownedBy ns o
  | .failed _ _ => True

/-- No namespace changes hands: its labels never were those of two Owners, no
two Owners have applied it, and every apply and delete arrives at a namespace
with the labels of its Owner, or at none in the case of an apply. -/
structure Safe (s : State) : Prop where
  labels_fixed : ∀ name ns, s.namespaces name = some ns → ∀ o ∈ ns.past, ∀ o' ∈ ns.past, o = o'
  not_shared : ∀ name ns, s.namespaces name = some ns → ∀ o ∈ ns.users, ∀ o' ∈ ns.users, o = o'
  legitimate : ∀ e ∈ s.log, e.Legitimate

/-- Between the read of the reconcile and its write nobody has written the
namespace. -/
def Undisturbed (s : State) : Action → Prop
  | .write o => ∀ call, s.calls o = some call → s.writes call.name = call.seen
  | _ => True

instance (s : State) : (a : Action) → Decidable (Undisturbed s a)
  | .write o =>
    match h : s.calls o with
    | none => isTrue fun call hcall => by simp [h] at hcall
    | some call => decidable_of_iff (s.writes call.name = call.seen) (by simp [Undisturbed, h])
  | .createOwner _ | .deleteOwner _ | .get _ | .abandon _ | .thirdParty _ _ _ | .removed _ =>
    isTrue trivial

/-! ## What a write keeps -/

/-- The labels are those of all the Owners the namespace has ever had. -/
def Honest (ns : Namespace) : Prop :=
  (∀ o ∈ ns.past, ownedBy ns o) ∧ ∀ o ∈ ns.users, o ∈ ns.past

theorem eq_of_ownedBy {ns : Namespace} {o o' : OwnerId} (h : ownedBy ns o) (h' : ownedBy ns o') :
    o = o' := by
  simp only [ownedBy, Bool.and_eq_true, decide_eq_true_eq] at h h'
  obtain ⟨hname, happ⟩ := h
  obtain ⟨hname', happ'⟩ := h'
  rw [hname', Option.some.injEq] at hname
  rw [happ', Option.some.injEq] at happ
  cases o
  cases o'
  simp_all

theorem honest_applyNamespace {existing : Option Namespace} {o : OwnerId}
    (h : ∀ ns, existing = some ns → Honest ns ∧ ownedBy ns o) :
    Honest (applyNamespace existing o) := by
  have howned : ownedBy (applyNamespace existing o) o := by simp [ownedBy, applyNamespace]
  have hpast : ∀ o' ∈ (existing.getD ⟨none, none, none, false, [], []⟩).past, o' = o := by
    intro o' ho'
    cases existing with
    | none => simp at ho'
    | some ns => exact eq_of_ownedBy ((h ns rfl).1.1 o' ho') (h ns rfl).2
  have husers : ∀ o' ∈ (existing.getD ⟨none, none, none, false, [], []⟩).users, o' = o := by
    intro o' ho'
    cases existing with
    | none => simp at ho'
    | some ns => exact hpast o' ((h ns rfl).1.2 o' ho')
  constructor
  · intro o' ho'
    rcases List.mem_cons.1 ho' with rfl | ho'
    · exact howned
    · exact hpast o' ho' ▸ howned
  · intro o' ho'
    rcases List.mem_cons.1 ho' with rfl | ho'
    · exact List.mem_cons_self
    · rw [husers o' ho']
      exact List.mem_cons_self

theorem honest_foreignNamespace (ownerLabel appNamespaceLabel : Option Name) :
    Honest (foreignNamespace ownerLabel appNamespaceLabel) := by
  constructor
  · intro o ho
    cases ownerLabel <;> cases appNamespaceLabel <;> simp [foreignNamespace, ownedBy] at ho ⊢
    simp [ho]
  · simp [foreignNamespace]

/-! ## The invariant -/

/-- What a reconcile on its way relies on: it has seen the namespace as it was
after `seen` writes, and its decision allowed the write. -/
structure Fresh (s : State) (o : OwnerId) (call : Call) : Prop where
  seen_le : call.seen ≤ s.writes call.name
  current : s.writes call.name = call.seen → s.namespaces call.name = call.existing
  owned : ∀ ns, call.existing = some ns → ownedBy ns o
  present : call.delete → call.existing ≠ none

structure Inv (s : State) : Prop where
  honest : ∀ name ns, s.namespaces name = some ns → Honest ns
  fresh : ∀ o call, s.calls o = some call → Fresh s o call
  legitimate : ∀ e ∈ s.log, e.Legitimate

theorem inv_init : Inv .init where
  honest name ns h := by simp [State.init] at h
  fresh o call h := by simp [State.init] at h
  legitimate e he := by simp [State.init] at he

theorem safe_of_inv {s : State} (hs : Inv s) : Safe s where
  labels_fixed name ns h o ho o' ho' :=
    eq_of_ownedBy ((hs.honest name ns h).1 o ho) ((hs.honest name ns h).1 o' ho')
  not_shared name ns h o ho o' ho' := by
    obtain ⟨hpast, husers⟩ := hs.honest name ns h
    exact eq_of_ownedBy (hpast o (husers o ho)) (hpast o' (husers o' ho'))
  legitimate := hs.legitimate

variable {s t : State}

theorem Inv.put (hs : Inv s) (name : Name) {ns : Option Namespace}
    (h : ∀ n, ns = some n → Honest n) : Inv (s.put name ns) where
  honest other n hn := by
    by_cases heq : other = name
    · subst heq
      exact h n (by simpa [State.put] using hn)
    · exact hs.honest other n (by simpa [State.put, Function.update_of_ne heq] using hn)
  fresh o call hcall := by
    obtain ⟨hle, hcurrent, howned, hpresent⟩ := hs.fresh o call hcall
    by_cases heq : call.name = name
    · have hwrites : (s.put name ns).writes call.name = s.writes call.name + 1 := by
        simp [State.put, heq]
      exact ⟨by omega, fun h => by omega, howned, hpresent⟩
    · have hwrites : (s.put name ns).writes call.name = s.writes call.name := by
        simp [State.put, Function.update_of_ne heq]
      refine ⟨by omega, fun h => ?_, howned, hpresent⟩
      simpa [State.put, Function.update_of_ne heq] using hcurrent (by omega)
  legitimate := hs.legitimate

theorem Inv.setCall (hs : Inv s) {o : OwnerId} {call : Option Call}
    (h : ∀ c, call = some c → Fresh s o c) : Inv (s.setCall o call) where
  honest := hs.honest
  fresh o' c hc := by
    have hfresh : Fresh s o' c := by
      by_cases heq : o' = o
      · subst heq
        exact h c (by simpa [State.setCall] using hc)
      · exact hs.fresh o' c (by simpa [State.setCall, Function.update_of_ne heq] using hc)
    exact ⟨hfresh.seen_le, hfresh.current, hfresh.owned, hfresh.present⟩
  legitimate := hs.legitimate

theorem Inv.logged (hs : Inv s) {e : Event} (he : e.Legitimate) :
    Inv { s with log := e :: s.log } where
  honest := hs.honest
  fresh o call hcall := by
    obtain ⟨hle, hcurrent, howned, hpresent⟩ := hs.fresh o call hcall
    exact ⟨hle, hcurrent, howned, hpresent⟩
  legitimate e' he' := by
    rcases List.mem_cons.1 he' with rfl | he'
    · exact he
    · exact hs.legitimate e' he'

theorem Inv.withOwners (hs : Inv s) (owners : OwnerId → OwnerCr) :
    Inv { s with owners := owners } where
  honest := hs.honest
  fresh o call hcall := by
    obtain ⟨hle, hcurrent, howned, hpresent⟩ := hs.fresh o call hcall
    exact ⟨hle, hcurrent, howned, hpresent⟩
  legitimate := hs.legitimate

/-! ## The steps -/

theorem ensureDecision_ok {name : Name} {existing : Option Namespace} {o : OwnerId}
    (h : ensureDecision name existing o = .ok ()) :
    ∀ ns, existing = some ns → ownedBy ns o ∧ ns.terminating = false := by
  rintro ns rfl
  simp only [ensureDecision] at h
  split_ifs at h with howned hterminating
  exact ⟨by simpa using howned, by simpa using hterminating⟩

theorem cleanupDecision_delete {name : Name} {existing : Option Namespace} {o : OwnerId}
    (h : cleanupDecision name existing o = .ok .delete) :
    ∃ ns, existing = some ns ∧ ownedBy ns o ∧ ns.terminating = false := by
  cases existing with
  | none => simp [cleanupDecision] at h
  | some ns =>
      simp only [cleanupDecision] at h
      split_ifs at h with howned hterminating
      · simp at h
      · exact ⟨ns, rfl, by simpa using howned, by simpa using hterminating⟩

theorem inv_getEnsure (hs : Inv s) (o : OwnerId) (name : Name) : Inv (getEnsure s o name) := by
  rw [getEnsure]
  split
  · exact hs.logged trivial
  · rename_i hdecision
    refine hs.setCall fun c hc => ?_
    rw [Option.some.injEq] at hc
    subst hc
    exact ⟨Nat.le_refl _, fun _ => rfl, fun ns hns => (ensureDecision_ok hdecision ns hns).1, by simp⟩

theorem inv_getCleanup (hs : Inv s) (o : OwnerId) (name : Name) : Inv (getCleanup s o name) := by
  rw [getCleanup]
  split
  · exact hs.logged trivial
  · exact hs.withOwners _
  · exact hs
  · rename_i hdecision
    obtain ⟨ns, hns, howned, -⟩ := cleanupDecision_delete hdecision
    refine hs.setCall fun c hc => ?_
    rw [Option.some.injEq] at hc
    subst hc
    refine ⟨Nat.le_refl _, fun _ => rfl, fun ns' hns' => ?_, fun _ => by simp [hns]⟩
    rw [hns, Option.some.injEq] at hns'
    exact hns' ▸ howned

/-- A write that nobody came before arrives at the namespace that was read. -/
theorem inv_issue {o : OwnerId} {call : Call} (hs : Inv s) (hcall : s.calls o = some call)
    (hseen : s.writes call.name = call.seen) : Inv (issue s o call) := by
  obtain ⟨-, hcurrent, howned, hpresent⟩ := hs.fresh o call hcall
  have hbefore := hcurrent hseen
  have hended : Inv (s.setCall o none) := hs.setCall (by simp)
  rw [issue]
  split_ifs with hdelete
  · obtain ⟨ns, hns⟩ := Option.ne_none_iff_exists'.1 (hpresent hdelete)
    simp only [hbefore, hns]
    have hallowed : (Event.deleted o (some ns)).Legitimate := ⟨ns, rfl, howned ns hns⟩
    refine (hended.logged hallowed).put _ fun n hn => ?_
    rw [Option.some.injEq] at hn
    subst hn
    exact hs.honest call.name ns (hbefore.trans hns)
  · simp only [hbefore]
    have hhonest : Honest (applyNamespace call.existing o) :=
      honest_applyNamespace fun ns hns =>
        ⟨hs.honest call.name ns (hbefore.trans hns), howned ns hns⟩
    refine (hended.put call.name fun n hn => ?_).logged ?_
    · rw [Option.some.injEq] at hn
      exact hn ▸ hhonest
    cases hexisting : call.existing with
    | none => exact .inl rfl
    | some ns => exact .inr ⟨ns, rfl, howned ns hexisting⟩

theorem inv_step {a : Action} (hs : Inv s) (hok : Undisturbed s a) (h : step s a = some t) :
    Inv t := by
  cases a with
  | createOwner o =>
      simp only [step, Option.ite_none_right_eq_some, Option.some.injEq] at h
      exact h.2 ▸ hs.withOwners _
  | deleteOwner o =>
      simp only [step, Option.ite_none_right_eq_some, Option.some.injEq] at h
      exact h.2 ▸ hs.withOwners _
  | get o =>
      simp only [step] at h
      split at h
      · exact Option.some.inj h ▸ inv_getEnsure hs o _
      · exact Option.some.inj h ▸ inv_getCleanup hs o _
      · exact Option.some.inj h ▸ hs.logged trivial
      · exact Option.some.inj h ▸ hs.logged trivial
      · simp at h
  | write o =>
      obtain ⟨call, hcall, rfl⟩ := Option.map_eq_some_iff.1 h
      exact inv_issue hs hcall (hok call hcall)
  | abandon o =>
      obtain ⟨call, -, rfl⟩ := Option.map_eq_some_iff.1 h
      exact hs.setCall (by simp)
  | thirdParty name ownerLabel appNamespaceLabel =>
      simp only [step, Option.ite_none_right_eq_some, Option.some.injEq] at h
      refine h.2 ▸ hs.put name fun n hn => ?_
      rw [Option.some.injEq] at hn
      exact hn ▸ honest_foreignNamespace _ _
  | removed name =>
      simp only [step, Option.ite_none_right_eq_some, Option.some.injEq] at h
      exact h.2 ▸ hs.put name (by simp)

/-- No namespace changes hands in a run in which nobody else writes a namespace
between the read of a reconcile and its apply or delete. -/
theorem safe_of_run {as : List Action} (h : Run step Undisturbed .init as t) : Safe t :=
  safe_of_inv (h.invariant inv_init fun _ _ _ hs hok hnext => inv_step hs hok hnext)

/-! ## Two Owners of one name -/

/-- The Owner `b` of the application namespace `vny-a`. -/
def ownerB : OwnerId := ⟨"vny-a".toList, "b".toList⟩

/-- The Owner `a-b` of the application namespace `vny`.  Its namespace is
`vny-a-b` too. -/
def ownerAB : OwnerId := ⟨"vny".toList, "a-b".toList⟩

def sharedName : Name := "vny-a-b".toList

/-- Both reconciles read before either of them writes. -/
def bothRead : List Action :=
  [.createOwner ownerB, .createOwner ownerAB, .get ownerB, .get ownerAB, .write ownerB,
    .write ownerAB]

/-- The namespace goes from the first Owner to the second one. -/
theorem two_owners_collide : ∃ s, Run step free .init bothRead s ∧
    s.namespaces sharedName =
      some (applyNamespace (some (applyNamespace none ownerB)) ownerAB) ∧ ¬ Safe s := by
  obtain ⟨s, hrun, htest⟩ : ∃ s, Run step free .init bothRead s ∧
      decide (s.namespaces sharedName =
        some (applyNamespace (some (applyNamespace none ownerB)) ownerAB)) = true :=
    Run.exists_of_exec _ (by decide)
  have hns := of_decide_eq_true htest
  refine ⟨s, hrun, hns, fun hsafe => ?_⟩
  have heq : ownerAB = ownerB :=
    hsafe.not_shared _ _ hns ownerAB (by simp [applyNamespace]) ownerB (by simp [applyNamespace])
  exact absurd heq (by decide)

/-- One reconcile after the other.  The second Owner is refused until the first
one and its namespace are gone. -/
def oneByOne : List Action :=
  [.createOwner ownerB, .createOwner ownerAB, .get ownerB, .write ownerB, .get ownerAB,
    .deleteOwner ownerB, .get ownerB, .write ownerB, .get ownerAB, .removed sharedName,
    .get ownerB, .get ownerAB, .write ownerAB]

/-- A namespace name that has been used by two Owners, one after the other. -/
theorem safe_oneByOne : ∃ s, Run step Undisturbed .init oneByOne s ∧
    s.namespaces sharedName = some (applyNamespace none ownerAB) ∧ Safe s := by
  obtain ⟨s, hrun, htest⟩ : ∃ s, Run step Undisturbed .init oneByOne s ∧
      decide (s.namespaces sharedName = some (applyNamespace none ownerAB)) = true :=
    Run.exists_of_exec _ (by decide)
  exact ⟨s, hrun, of_decide_eq_true htest, safe_of_run hrun⟩

end Vanyline.Controller.OwnerNamespace
