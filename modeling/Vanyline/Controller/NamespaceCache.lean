import Vanyline.Controller.Reconcilers
import Vanyline.Lib.Pool

/-!
# The cache of application namespaces

`app_namespace_of` looks up the application namespace of a namespace in a cache of the
process, and reads the label of the namespace only when it is not there.  The
reconcilers of Projects and Sandboxes read the Owner and the Application from the
namespace it returns.

The model runs any number of these calls side by side, over a cluster whose namespaces
are created, labelled, deleted and created again between any two requests.
`Coherent` says of a run that each call has returned what the cluster said at some
moment of the call, and that a reconcile reads Owners and Applications only from the
application namespace that its own namespace was labelled with.

Nothing takes an entry out of the cache.  The namespace `a-b-c` of the Owner `b-c` of
`a` can be deleted, and then be the namespace of the Owner `c` of `a-b`: its
Sandboxes are then served from `a` (`recreated_is_stale`).  `coherent_of_run` holds when
a namespace that has been read keeps its label (`KeepsLabel`).
-/

namespace Vanyline.Controller.NamespaceCache

open Vanyline.Lib Vanyline.Controller.Api

/-! ## The cluster -/

/-- The namespaces, and the cache of the process. -/
structure Cluster where
  namespaces : Name → Option Namespace
  cache : Name → Option Name

/-- A namespace is created, changed or deleted. -/
structure Change where
  name : Name
  now : Option Namespace

/-- The label of a namespace. -/
def labelOf (found : Option Namespace) : Option Name := found.bind (·.appNamespaceLabel)

/-- What `app_namespace_of` should return. -/
def currentAppNamespace (w : Cluster) (ns : Name) : Except ControllerError Name :=
  match w.namespaces ns with
  | some found => OwnerNamespaces.appNamespaceOfNamespace found
  | none => .error (.kube .notFound)

/-- The answers about namespaces and the cache are true, but a read can fail; all other
answers are arbitrary. -/
def serve (w : Cluster) (q : Request) (answers : ∀ q, Answer q) : Option (Cluster × Answer q) :=
  match q with
  | .cacheLookup ns => some (w, w.cache ns)
  | .cacheInsert ns app => some ({ w with cache := Function.update w.cache ns (some app) }, ())
  | .getNamespace ns =>
      match answers (.getNamespace ns) with
      | .error .other => some (w, .error .other)
      | _ =>
        match w.namespaces ns with
        | some found => some (w, .ok found)
        | none => some (w, .error .notFound)
  | q => some (w, answers q)

def move (w : Cluster) (c : Change) : Option Cluster :=
  if c.now.all (·.name = c.name) then
    some { w with namespaces := Function.update w.namespaces c.name c.now }
  else none

def world : World Cluster Request Answer (∀ q, Answer q) Change where
  serve := serve
  move := move

/-! ## The calls -/

inductive Call
  | appNamespaceOf (ns : Name)
  | projectApply (project : Project) (ns : Name)
  | projectCleanup (project : Project) (ns : Name)
  | sandboxApply (tokenIssuer : Option Name) (sandbox : Sandbox) (ns : Name)
  | sandboxCleanup (sandbox : Sandbox) (ns : Name)

/-- The namespace of the object that is reconciled. -/
def Call.ns : Call → Name
  | .appNamespaceOf ns | .projectApply _ ns | .projectCleanup _ ns | .sandboxApply _ _ ns |
    .sandboxCleanup _ ns => ns

inductive Outcome
  | appNamespace (app : Name)
  | action (a : Action)

def program : Call → Reconciler Outcome
  | .appNamespaceOf ns => do return .appNamespace (← OwnerNamespaces.appNamespaceOf ns)
  | .projectApply project ns => do return .action (← ProjectReconciler.apply project ns)
  | .projectCleanup project ns => do return .action (← ProjectReconciler.cleanup project ns)
  | .sandboxApply issuer sandbox ns => do return .action (← SandboxReconciler.apply issuer sandbox ns)
  | .sandboxCleanup sandbox ns => do return .action (← SandboxReconciler.cleanup sandbox ns)

abbrev State := Pool Cluster Nat Call Request Answer ControllerError Outcome

abbrev PoolStep := PoolAction Nat Call (∀ q, Answer q) Change

def step : State → PoolStep → Option State := Pool.step world program

/-- No namespaces, and an empty cache. -/
def State.init : State := Pool.init ⟨fun _ => none, fun _ => none⟩

/-! ## The property -/

/-- The application namespace that a request reads from. -/
def readsFrom : Request → Option Name
  | .getOwner app _ | .getApplication app _ => some app
  | _ => none

/-- At some moment of the run, while the call is on its way, the cluster is as `P` says. -/
def Sometime (as : List PoolStep) (t : State) (i : Nat) (P : Cluster → Prop) : Prop :=
  Pool.During world program State.init as t i P

/-- A call returns what the cluster said at some moment of the call, unless its read
failed; a reconcile reads from the application namespace its own namespace had. -/
structure Coherent (as : List PoolStep) (t : State) : Prop where
  returned : ∀ i ns r past, t.threads i = some ⟨.appNamespaceOf ns, .done r, past⟩ →
    (⟨.getNamespace ns, .error .other⟩ ∈ past ∧ r = .error (.kube .other)) ∨
      Sometime as t i fun w => r = (currentAppNamespace w ns).map .appNamespace
  reads : ∀ i thread, t.threads i = some thread → ∀ e ∈ thread.past, ∀ app,
    readsFrom e.1 = some app → Sometime as t i fun w => labelOf (w.namespaces thread.call.ns) = some app

/-! ## The condition -/

/-- A namespace that is in the cache, or was read by a call that is about to put it
there, keeps its label. -/
structure KeepsLabel (s : State) (c : Change) : Prop where
  cached : ∀ app, s.world.cache c.name = some app → labelOf c.now = some app
  read : ∀ i call app next past,
    s.threads i = some ⟨call, .ask (.cacheInsert c.name app) next, past⟩ → labelOf c.now = some app

def Steady (s : State) : PoolStep → Prop
  | .move c => KeepsLabel s c
  | _ => True

/-! ## Where the application namespace comes from -/

abbrev Exchanges := List (Exchange Answer)

/-- The cache, or the label of the namespace, said `app`. -/
def Told (ns app : Name) (es : Exchanges) : Prop :=
  ⟨.cacheLookup ns, some app⟩ ∈ es ∨
    ∃ found, ⟨.getNamespace ns, .ok found⟩ ∈ es ∧ found.appNamespaceLabel = some app

/-- A request may follow the exchanges: an Owner or Application is read where the
controller was told to, and the label goes to the cache right after it was read. -/
def Follows (ns : Name) (es : Exchanges) : Request → Prop
  | .getOwner app _ | .getApplication app _ => Told ns app es
  | .cacheInsert name app => ∃ found rest, es = ⟨.getNamespace name, .ok found⟩ :: rest ∧
      found.appNamespaceLabel = some app
  | _ => True

/-- Every request may follow the exchanges before it. -/
def Sourced (ns : Name) : Exchanges → Prop
  | [] => True
  | e :: es => Follows ns es e.1 ∧ Sourced ns es

/-- The request may follow anything. -/
def Plain (q : Request) : Prop := ∀ ns es, Follows ns es q

/-- The program makes only requests that may follow. -/
def Keeps {α : Type} (ns : Name) (p : Reconciler α) : Prop :=
  ∀ past, Sourced ns past → p.Meets (fun es _ => Sourced ns es) past

section Keeps

variable {ns : Name} {α β : Type}

theorem keeps_of_asks {p : Reconciler α} (h : p.Asks Plain) : Keeps ns p := by
  intro past hpast
  induction p generalizing past with
  | done r => exact hpast
  | ask q next ih => exact fun x => ih x (h.2 x) _ ⟨h.1 ns past, hpast⟩

theorem Keeps.bind {p : Reconciler α} {f : α → Reconciler β} (hp : Keeps ns p)
    (hf : ∀ a, Keeps ns (f a)) : Keeps ns (p >>= f) := by
  intro past hpast
  rw [Program.meets_bind]
  apply (hp past hpast).imp
  intro es r hes
  cases r with
  | ok a => exact hf a es hes
  | error e => exact hes

theorem Keeps.attempt {p : Reconciler α} (hp : Keeps ns p) :
    Keeps ns (p.attempt : Reconciler (Except ControllerError α)) := by
  intro past hpast
  rw [Program.meets_attempt]
  exact hp past hpast

theorem keeps_pure {a : α} : Keeps ns (pure a) := fun _ hpast => hpast

theorem keeps_throw {e : ControllerError} : Keeps ns (Program.throw e : Reconciler α) :=
  fun _ hpast => hpast

/-- What `app_namespace_of` returns, and from which exchange it knows it. -/
theorem appNamespaceOf_meets (past : Exchanges) (hpast : Sourced ns past) :
    (OwnerNamespaces.appNamespaceOf ns).Meets (fun es r => Sourced ns es ∧
      ((∃ app, ⟨.cacheLookup ns, some app⟩ ∈ es ∧ r = .ok app) ∨
        (∃ e, ⟨.getNamespace ns, .error e⟩ ∈ es ∧ r = .error (.kube e)) ∨
        ∃ found, ⟨.getNamespace ns, .ok found⟩ ∈ es ∧
          r = OwnerNamespaces.appNamespaceOfNamespace found)) past := by
  unfold OwnerNamespaces.appNamespaceOf
  rw [Program.meets_bind, meets_cacheLookup]
  intro cached
  cases cached with
  | some app => exact ⟨⟨trivial, hpast⟩, .inl ⟨app, List.mem_cons_self, rfl⟩⟩
  | none =>
      simp only [Program.meets_bind, meets_getNamespace]
      intro x
      cases x with
      | error e => exact ⟨⟨trivial, trivial, hpast⟩, .inr (.inl ⟨e, List.mem_cons_self, rfl⟩)⟩
      | ok found =>
          simp only [kubeResult, meets_decided, OwnerNamespaces.appNamespaceOfNamespace]
          rcases hlabel : found.appNamespaceLabel with _ | app
          · refine ⟨⟨trivial, trivial, hpast⟩, .inr (.inr ⟨found, List.mem_cons_self, ?_⟩)⟩
            simp only [hlabel]
          · simp only [meets_cacheInsert, Program.meets_pure]
            refine ⟨⟨⟨found, _, rfl, hlabel⟩, trivial, trivial, hpast⟩, .inr (.inr ⟨found, ?_, ?_⟩)⟩
            · exact List.mem_cons_of_mem _ List.mem_cons_self
            · simp only [hlabel]

/-- A program that reads only from the namespace it is given follows `app_namespace_of`. -/
theorem keeps_appNamespaceOf {f : Name → Reconciler α}
    (hf : ∀ app past, Sourced ns past → Told ns app past →
      (f app).Meets (fun es _ => Sourced ns es) past) :
    Keeps ns (OwnerNamespaces.appNamespaceOf ns >>= f) := by
  intro past hpast
  rw [Program.meets_bind]
  apply (appNamespaceOf_meets past hpast).imp
  rintro es r ⟨hes, ⟨app, hmem, rfl⟩ | ⟨e, hmem, rfl⟩ | ⟨found, hmem, rfl⟩⟩
  · exact hf app es hes (.inl hmem)
  · exact hes
  · rcases hlabel : found.appNamespaceLabel with _ | app
    · simp only [OwnerNamespaces.appNamespaceOfNamespace, hlabel]
      exact hes
    · simp only [OwnerNamespaces.appNamespaceOfNamespace, hlabel]
      exact hf app es hes (.inr ⟨found, hmem, hlabel⟩)

end Keeps

/-! ## The reconcilers -/

section

variable {ns name : Name} {α : Type}

theorem plain_patchApply (m : Manifest) : (patchApply ns name m).Asks Plain :=
  asks_call (fun _ _ => trivial) asks_orFail

theorem plain_create (m : Manifest) : (create ns m).Asks Plain :=
  asks_call (fun _ _ => trivial) asks_orFail

theorem plain_delete (kind : Kind) : (delete kind ns name).Asks Plain :=
  asks_call (fun _ _ => trivial) asks_orFail

theorem plain_getOptJob : (getOptJob ns name).Asks Plain :=
  asks_call (fun _ _ => trivial) asks_orFail

theorem plain_getOptPod : (getOptPod ns name).Asks Plain :=
  asks_call (fun _ _ => trivial) asks_orFail

theorem plain_getProject : (getProject ns name).Asks Plain :=
  asks_call (fun _ _ => trivial) asks_orFail

theorem plain_deleteIfPresent (kind : Kind) : (deleteIfPresent kind ns name).Asks Plain := by
  unfold deleteIfPresent
  refine asks_call (fun _ _ => trivial) fun answer => (asks_orFail answer).bind fun found => ?_
  split_ifs
  · exact plain_delete kind
  · exact Program.asks_pure

/-- The Owner is read from the application namespace. -/
theorem keeps_fetchOwner (project : Project) : Keeps ns (ProjectReconciler.fetchOwner project ns) := by
  apply keeps_appNamespaceOf
  intro app past hpast htold
  rw [meets_getOwner]
  exact fun x => ⟨htold, hpast⟩

/-- The Application is read from there, too. -/
theorem keeps_getApplication {f : Name → Application → Reconciler α}
    (hf : ∀ app found, Keeps ns (f app found)) :
    Keeps ns (OwnerNamespaces.appNamespaceOf ns >>= fun app =>
      getApplication app name >>= fun found => f app found) := by
  apply keeps_appNamespaceOf
  intro app past hpast htold
  rw [Program.meets_bind, meets_getApplication]
  intro x
  cases x with
  | ok found => exact hf app found _ ⟨htold, hpast⟩
  | error e => exact ⟨htold, hpast⟩

theorem keeps_fetchApplication (owner : Owner) :
    Keeps ns (SandboxReconciler.fetchApplication owner ns) := by
  unfold SandboxReconciler.fetchApplication
  split
  · exact keeps_getApplication fun _ _ => keeps_pure
  · exact keeps_pure

theorem keeps_fetchRestate (owner : Owner) : Keeps ns (SandboxReconciler.fetchRestate owner ns) := by
  unfold SandboxReconciler.fetchRestate
  split
  · exact keeps_getApplication fun _ _ => keeps_pure
  · exact keeps_pure

theorem keeps_ownerPvcName (project : Project) :
    Keeps ns (ProjectReconciler.ownerPvcName project ns) := by
  unfold ProjectReconciler.ownerPvcName
  refine (keeps_fetchOwner project).attempt.bind fun r => ?_
  split
  · exact keeps_pure
  · exact keeps_pure

/-! ### Projects -/

theorem plain_reconcileInit (project : Project) :
    (ProjectReconciler.reconcileInit project ns).Asks Plain := by
  unfold ProjectReconciler.reconcileInit
  refine plain_getOptJob.bind fun job => ?_
  split
  · exact Program.asks_pure
  · exact (plain_create _).bind fun _ => Program.asks_pure

theorem plain_reconcileFetch (project : Project) (cloned : Bool) :
    (ProjectReconciler.reconcileFetch project ns cloned).Asks Plain := by
  unfold ProjectReconciler.reconcileFetch
  split_ifs
  · exact plain_patchApply _
  · exact Program.asks_pure

theorem keeps_projectApply (project : Project) : Keeps ns (ProjectReconciler.apply project ns) := by
  unfold ProjectReconciler.apply
  refine (keeps_fetchOwner project).bind fun owner => ?_
  split
  · apply keeps_of_asks
    refine (plain_patchApply _).bind fun _ => ?_
    refine (plain_patchApply _).bind fun _ => ?_
    refine (plain_patchApply _).bind fun _ => ?_
    refine (plain_patchApply _).bind fun _ => ?_
    refine (plain_reconcileInit project).bind fun cloned => ?_
    refine (plain_reconcileFetch project cloned).bind fun _ => ?_
    refine asks_call (fun _ _ => trivial) fun answer => (asks_orFail answer).bind fun _ => ?_
    refine Program.Asks.bind (asks_call (fun _ _ => trivial) asks_orFail) fun sandboxes => ?_
    refine (Program.asks_forM ?_ _).bind fun _ => Program.asks_pure
    exact fun sandbox => asks_call (fun _ _ => trivial) asks_orFail
  · exact keeps_throw

theorem keeps_projectCleanup (project : Project) :
    Keeps ns (ProjectReconciler.cleanup project ns) := by
  unfold ProjectReconciler.cleanup
  refine (keeps_ownerPvcName project).bind fun pvc => ?_
  split
  · apply keeps_of_asks
    refine plain_getOptJob.bind fun job => ?_
    split
    · split_ifs
      · exact Program.asks_pure
      · exact Program.asks_throw
    · exact (plain_create _).bind fun _ => Program.asks_throw
  · exact keeps_pure

/-! ### Sandboxes -/

theorem plain_reconcileCheckout (sandbox : Sandbox) :
    (SandboxReconciler.reconcileCheckout sandbox ns).Asks Plain := by
  unfold SandboxReconciler.reconcileCheckout
  refine plain_getOptJob.bind fun job => ?_
  split
  · exact Program.asks_pure
  · exact (plain_create _).bind fun _ => Program.asks_pure

theorem plain_reconcilePod (sandbox : Sandbox) (checkedOut : Bool) :
    (SandboxReconciler.reconcilePod sandbox ns checkedOut).Asks Plain := by
  unfold SandboxReconciler.reconcilePod
  split_ifs
  · refine plain_getOptPod.bind fun found => ?_
    split_ifs
    · exact (plain_delete _).bind fun _ => Program.asks_pure
    · exact Program.asks_pure
  · exact Program.asks_pure
  · refine plain_getOptPod.bind fun found => ?_
    split
    · exact Program.asks_pure
    · exact (plain_create _).bind fun _ => Program.asks_pure

theorem plain_reconcileEgress (sandbox : Sandbox) (owner project : List EgressRule) :
    (SandboxReconciler.reconcileEgress sandbox ns owner project).Asks Plain := by
  unfold SandboxReconciler.reconcileEgress
  split
  · exact plain_patchApply _
  · exact plain_deleteIfPresent _

theorem plain_reconcileIngress (sandbox : Sandbox) (application : Option Application) :
    (SandboxReconciler.reconcileIngress sandbox ns application).Asks Plain := by
  unfold SandboxReconciler.reconcileIngress
  split
  · exact plain_patchApply _
  · exact plain_deleteIfPresent _

theorem keeps_sandboxApply (issuer : Option Name) (sandbox : Sandbox) :
    Keeps ns (SandboxReconciler.apply issuer sandbox ns) := by
  unfold SandboxReconciler.apply SandboxReconciler.fetchProject
  refine (keeps_of_asks (asks_decided _)).bind fun _ => ?_
  refine (keeps_of_asks plain_getProject).bind fun project => ?_
  split_ifs
  · exact keeps_throw
  refine Keeps.bind (keeps_fetchOwner project) fun owner => ?_
  split
  · split
    · refine (keeps_of_asks (plain_reconcileCheckout sandbox)).bind fun checkedOut => ?_
      refine (keeps_fetchRestate owner).bind fun _ => ?_
      refine (keeps_of_asks (plain_reconcilePod sandbox checkedOut)).bind fun phase => ?_
      refine (keeps_fetchApplication owner).bind fun application => ?_
      refine (keeps_of_asks (plain_patchApply _)).bind fun _ => ?_
      refine keeps_appNamespaceOf fun app past hpast _ => keeps_of_asks ?_ past hpast
      refine (plain_patchApply _).bind fun _ => ?_
      refine (plain_reconcileEgress sandbox _ _).bind fun _ => ?_
      refine (plain_reconcileIngress sandbox application).bind fun _ => ?_
      exact asks_call (fun _ _ => trivial) fun answer =>
        (asks_orFail answer).bind fun _ => Program.asks_pure
    · exact keeps_throw
  · exact keeps_throw

theorem keeps_sandboxCleanup (sandbox : Sandbox) :
    Keeps ns (SandboxReconciler.cleanup sandbox ns) := by
  unfold SandboxReconciler.cleanup SandboxReconciler.fetchProject
  refine (keeps_of_asks plain_getProject).attempt.bind fun r => ?_
  split
  · next project =>
    refine Keeps.bind (keeps_ownerPvcName project) fun pvc => ?_
    split
    · apply keeps_of_asks
      refine plain_getOptJob.bind fun job => ?_
      split
      · split_ifs
        · exact Program.asks_pure
        · exact (plain_create _).bind fun _ => Program.asks_throw
      · exact (plain_create _).bind fun _ => Program.asks_throw
    · exact keeps_pure
  · exact keeps_pure

end

/-- Every call makes only requests that may follow. -/
theorem program_meets (call : Call) :
    (program call).Meets (fun es _ => Sourced call.ns es) [] := by
  cases call with
  | appNamespaceOf ns =>
      exact keeps_appNamespaceOf (fun _ past hpast _ => keeps_pure past hpast) [] trivial
  | projectApply project ns => exact (keeps_projectApply project).bind (fun _ => keeps_pure) [] trivial
  | projectCleanup project ns =>
      exact (keeps_projectCleanup project).bind (fun _ => keeps_pure) [] trivial
  | sandboxApply issuer sandbox ns =>
      exact (keeps_sandboxApply issuer sandbox).bind (fun _ => keeps_pure) [] trivial
  | sandboxCleanup sandbox ns =>
      exact (keeps_sandboxCleanup sandbox).bind (fun _ => keeps_pure) [] trivial

/-! ## The exchanges of a call -/

theorem Sourced.suffix {ns : Name} {es es' : Exchanges} (h : Sourced ns es) (hsuffix : es' <:+ es) :
    Sourced ns es' := by
  induction es with
  | nil => rwa [List.suffix_nil.1 hsuffix]
  | cons e es ih =>
      rcases List.suffix_cons_iff.1 hsuffix with rfl | hsuffix
      · exact h
      · exact ih h.2 hsuffix

/-- An Owner or Application was read from where the controller was told to. -/
theorem Sourced.told {ns app : Name} {es : Exchanges} (h : Sourced ns es) {e : Exchange Answer}
    (he : e ∈ es) (hreads : readsFrom e.1 = some app) : Told ns app es := by
  induction es with
  | nil => cases he
  | cons e' es ih =>
      have htold : Told ns app es := by
        rcases List.mem_cons.1 he with rfl | he
        · obtain ⟨q, x⟩ := e
          have hfollows := h.1
          cases q with
          | getOwner app' name =>
              cases hreads
              exact hfollows
          | getApplication app' name =>
              cases hreads
              exact hfollows
          | _ => cases hreads
        · exact ih h.2 he
      rcases htold with hmem | ⟨found, hmem, hlabel⟩
      · exact .inl (List.mem_cons_of_mem _ hmem)
      · exact .inr ⟨found, List.mem_cons_of_mem _ hmem, hlabel⟩

variable {s t : State}

/-- The exchanges of a call on its way, and the request that it makes next. -/
theorem sourced_of_valid (hs : Pool.Valid program s) {i : Nat} {call : Call}
    {rest : Reconciler Outcome} {past : Exchanges} (hi : s.threads i = some ⟨call, rest, past⟩) :
    Sourced call.ns past ∧ ∀ q next, rest = .ask q next → Follows call.ns past q := by
  have hend := Program.meets_iff.1 (program_meets call) _ _
    (hs i _ hi _ _ (Program.path_answered ready rest past))
  have hsuffix := (Program.path_answered ready rest past).suffix
  refine ⟨hend.suffix hsuffix, ?_⟩
  rintro q next rfl
  have hnext := (Program.path_answered ready (next (ready q)) (⟨q, ready q⟩ :: past)).suffix
  exact (hend.suffix hnext).1

/-! ## The invariant -/

/-- The cache, and what is about to go there, agree with the labels. -/
structure Inv (s : State) : Prop where
  valid : Pool.Valid program s
  cached : ∀ ns app, s.world.cache ns = some app → labelOf (s.world.namespaces ns) = some app
  pending : ∀ i call ns app next past,
    s.threads i = some ⟨call, .ask (.cacheInsert ns app) next, past⟩ →
      labelOf (s.world.namespaces ns) = some app

theorem inv_init : Inv State.init where
  valid := Pool.valid_init
  cached := by
    intro ns app h
    cases h
  pending := by
    intro i call ns app next past h
    cases h

/-- How the world changes when it serves a request. -/
theorem serve_cases {w w' : Cluster} {q : Request} {answers : ∀ q, Answer q} {x : Answer q}
    (h : serve w q answers = some (w', x)) :
    w' = w ∨ ∃ ns app, q = .cacheInsert ns app ∧
      w' = { w with cache := Function.update w.cache ns (some app) } := by
  cases q with
  | cacheInsert ns app =>
      simp only [serve, Option.some.injEq, Prod.mk.injEq] at h
      exact .inr ⟨ns, app, rfl, h.1.symm⟩
  | getNamespace ns =>
      simp only [serve] at h
      split at h
      · cases h
        exact .inl rfl
      · split at h
        · cases h
          exact .inl rfl
        · cases h
          exact .inl rfl
  | _ =>
      cases h
      exact .inl rfl

/-- A namespace is not found when it is not there. -/
theorem serve_getNamespace_error {w w' : Cluster} {ns : Name} {answers : ∀ q, Answer q}
    {e : ApiError} (h : serve w (.getNamespace ns) answers = some (w', .error e)) (he : e ≠ .other) :
    w.namespaces ns = none ∧ e = .notFound := by
  simp only [serve] at h
  split at h
  · cases h
    exact absurd rfl he
  · split at h
    · cases h
    · next hnone =>
      cases h
      exact ⟨hnone, rfl⟩

/-- A namespace that was read is there. -/
theorem serve_getNamespace {w w' : Cluster} {ns : Name} {answers : ∀ q, Answer q}
    {found : Namespace} (h : serve w (.getNamespace ns) answers = some (w', .ok found)) :
    w.namespaces ns = some found ∧ w' = w := by
  simp only [serve] at h
  split at h
  · cases h
  · split at h
    · next hfound =>
      cases h
      exact ⟨hfound, rfl⟩
    · cases h

/-- A call that has just made a request, and is now about to fill the cache, has read the
label. -/
theorem pending_of_past (hs : Pool.Valid program s) {i : Nat} {call : Call} {ns app : Name}
    {next : Unit → Reconciler Outcome} {past : Exchanges}
    (hi : s.threads i = some ⟨call, .ask (.cacheInsert ns app) next, past⟩) :
    ∃ found rest, past = ⟨.getNamespace ns, .ok found⟩ :: rest ∧ found.appNamespaceLabel = some app :=
  (sourced_of_valid hs hi).2 _ _ rfl

theorem inv_start {i : Nat} {call : Call} (hs : Inv s)
    (hvalid : Pool.Valid program { s with
      threads := Function.update s.threads i (some ⟨call, program call, []⟩) }) :
    Inv { s with threads := Function.update s.threads i (some ⟨call, program call, []⟩) } where
  valid := hvalid
  cached := hs.cached
  pending := by
    intro j call' ns app next past hj
    by_cases hji : j = i
    · subst hji
      obtain ⟨found, rest, hpast, -⟩ := pending_of_past hvalid hj
      simp only [Function.update_self, Option.some.injEq, Thread.mk.injEq] at hj
      rw [← hj.2.2] at hpast
      cases hpast
    · simp only [Function.update_of_ne hji] at hj
      exact hs.pending j call' ns app next past hj

theorem inv_serve {i : Nat} {call : Call} {q : Request} {next : Answer q → Reconciler Outcome}
    {past : Exchanges} {answers : ∀ q, Answer q} {w : Cluster} {x : Answer q} (hs : Inv s)
    (hi : s.threads i = some ⟨call, .ask q next, past⟩) (hserve : serve s.world q answers = some (w, x))
    (hvalid : Pool.Valid program
      ⟨w, Function.update s.threads i (some ⟨call, next x, ⟨q, x⟩ :: past⟩)⟩) :
    Inv ⟨w, Function.update s.threads i (some ⟨call, next x, ⟨q, x⟩ :: past⟩)⟩ where
  valid := hvalid
  cached := by
    intro ns app h
    rcases serve_cases hserve with rfl | ⟨ns', app', rfl, rfl⟩
    · exact hs.cached ns app h
    · by_cases hns : ns = ns'
      · subst hns
        simp only [Function.update_self, Option.some.injEq] at h
        subst h
        exact hs.pending i call ns app' next past hi
      · simp only [Function.update_of_ne hns] at h
        exact hs.cached ns app h
  pending := by
    have hnamespaces : w.namespaces = s.world.namespaces := by
      rcases serve_cases hserve with rfl | ⟨ns', app', -, rfl⟩ <;> rfl
    intro j call' ns app next' past' hj
    show labelOf (w.namespaces ns) = some app
    rw [hnamespaces]
    by_cases hji : j = i
    · subst hji
      obtain ⟨found, rest, hpast, hlabel⟩ := pending_of_past hvalid hj
      simp only [Function.update_self, Option.some.injEq, Thread.mk.injEq] at hj
      rw [← hj.2.2] at hpast
      cases hpast
      rw [(serve_getNamespace hserve).1]
      exact hlabel
    · simp only [Function.update_of_ne hji] at hj
      exact hs.pending j call' ns app next' past' hj

theorem inv_move {c : Change} {w : Cluster} (hs : Inv s) (hok : KeepsLabel s c)
    (hmove : move s.world c = some w) (hvalid : Pool.Valid program { s with world := w }) :
    Inv { s with world := w } := by
  unfold move at hmove
  split_ifs at hmove
  simp only [Option.some.injEq] at hmove
  subst hmove
  refine ⟨hvalid, ?_, ?_⟩
  · intro ns app h
    by_cases hns : ns = c.name
    · subst hns
      simpa using hok.cached app h
    · simpa [hns] using hs.cached ns app h
  · intro i call ns app next past h
    by_cases hns : ns = c.name
    · subst hns
      simpa using hok.read i call app next past h
    · simpa [hns] using hs.pending i call ns app next past h

theorem inv_step {a : PoolStep} (hs : Inv s) (hok : Steady s a) (h : step s a = some t) : Inv t := by
  have hvalid : Pool.Valid program t := Pool.valid_step hs.valid h
  rcases Pool.step_cases h with ⟨i, call, rfl, hi, rfl⟩ |
    ⟨i, answers, call, q, next, past, w, x, rfl, hi, hserve, rfl⟩ | ⟨c, w, rfl, hmove, rfl⟩
  · exact inv_start hs hvalid
  · exact inv_serve hs hi hserve hvalid
  · exact inv_move hs hok hmove hvalid

/-! ## Runs -/

theorem currentAppNamespace_of_label {w : Cluster} {ns app : Name}
    (h : labelOf (w.namespaces ns) = some app) : currentAppNamespace w ns = .ok app := by
  obtain ⟨found, hfound, hlabel⟩ := Option.bind_eq_some_iff.1 h
  simp only [currentAppNamespace, hfound, OwnerNamespaces.appNamespaceOfNamespace, hlabel]

/-- What the call returns, and from which exchange it knows it. -/
theorem returned_meets (ns : Name) : (program (.appNamespaceOf ns)).Meets (fun es r =>
    (∃ app, ⟨.cacheLookup ns, some app⟩ ∈ es ∧ r = .ok (.appNamespace app)) ∨
      (∃ e, ⟨.getNamespace ns, .error e⟩ ∈ es ∧ r = .error (.kube e)) ∨
      ∃ found, ⟨.getNamespace ns, .ok found⟩ ∈ es ∧
        r = (OwnerNamespaces.appNamespaceOfNamespace found).map .appNamespace) [] := by
  simp only [program, Program.meets_bind]
  apply (appNamespaceOf_meets [] trivial).imp
  rintro es r ⟨-, ⟨app, hmem, rfl⟩ | ⟨e, hmem, rfl⟩ | ⟨found, hmem, rfl⟩⟩
  · exact .inl ⟨app, hmem, rfl⟩
  · exact .inr (.inl ⟨e, hmem, rfl⟩)
  · cases hr : OwnerNamespaces.appNamespaceOfNamespace found with
    | ok app => exact .inr (.inr ⟨found, hmem, by rw [hr]; rfl⟩)
    | error e => exact .inr (.inr ⟨found, hmem, by rw [hr]; rfl⟩)

/-- An answer of the cache is the label at that moment. -/
theorem label_of_cacheLookup {u : State} {ns app : Name} {answers : ∀ q, Answer q} {w : Cluster}
    (hu : Inv u) (h : world.serve u.world (.cacheLookup ns) answers = some (w, some app)) :
    labelOf (u.world.namespaces ns) = some app := by
  have hcache : u.world.cache ns = some app := congrArg Prod.snd (Option.some.inj h)
  exact hu.cached ns app hcache

/-- In every run in which a namespace that was read keeps its label, the cache is
coherent. -/
theorem coherent_of_run {as : List PoolStep} (h : Run step Steady State.init as t) :
    Coherent as t := by
  have hstep : ∀ s a u, Inv s → Steady s a → Pool.step world program s a = some u → Inv u :=
    fun _ _ _ hs hok hnext => inv_step hs hok hnext
  have hinv : Inv t := h.invariant inv_init hstep
  refine ⟨?_, ?_⟩
  · intro i ns r past hi
    obtain ⟨app, hmem, rfl⟩ | ⟨e, hmem, rfl⟩ | ⟨found, hmem, rfl⟩ :=
      hinv.valid.meets hi (returned_meets ns)
    · refine .inr (Pool.exchange_during inv_init hstep h hi hmem fun u answers w hu hserve => ?_)
      rw [currentAppNamespace_of_label (label_of_cacheLookup hu hserve)]
      rfl
    · by_cases he : e = .other
      · subst he
        exact .inl ⟨hmem, rfl⟩
      · refine .inr (Pool.exchange_during inv_init hstep h hi hmem fun u answers w hu hserve => ?_)
        obtain ⟨hnone, rfl⟩ := serve_getNamespace_error hserve he
        simp only [currentAppNamespace, hnone]
        rfl
    · refine .inr (Pool.exchange_during inv_init hstep h hi hmem fun u answers w hu hserve => ?_)
      simp only [currentAppNamespace, (serve_getNamespace hserve).1]
  · intro i thread hi e he app hreads
    rcases (sourced_of_valid hinv.valid hi).1.told he hreads with hmem | ⟨found, hmem, hlabel⟩
    · exact Pool.exchange_during inv_init hstep h hi hmem fun u answers w hu hserve =>
        label_of_cacheLookup hu hserve
    · refine Pool.exchange_during inv_init hstep h hi hmem fun u answers w hu hserve => ?_
      rw [(serve_getNamespace hserve).1]
      exact hlabel

/-! ## A namespace that is created again -/

/-- The call is on its way. -/
def State.busy (s : State) (i : Nat) : Bool :=
  match s.threads i with
  | some ⟨_, .ask _ _, _⟩ => true
  | _ => false

/-- The moments of a concrete run. -/
theorem sometime_exec {as : List PoolStep} {i : Nat} {P : Cluster → Prop}
    (h : Sometime as t i P) : ∃ k ≤ as.length, ∃ u, exec step free State.init (as.take k) = some u ∧
      u.busy i = true ∧ P u.world := by
  obtain ⟨bs, cs, u, call, q, next, past, rfl, hbs, -, hu, hP⟩ := h
  refine ⟨bs.length, by simp, u, ?_, by simp [State.busy, hu], hP⟩
  rw [List.take_left']
  · exact hbs.exec_eq
  · rfl

/-- The namespace of the Owner `b-c` of `a`, and also of the Owner `c` of `a-b`. -/
def sharedNs : Name := "a-b-c".toList

/-- The namespace with the labels of an Owner. -/
def labelled (app owner : String) : Change :=
  ⟨sharedNs, some ⟨sharedNs, some owner.toList, some app.toList, false⟩⟩

/-- The namespace is read, deleted, and created again for another Owner. -/
def recreated : List PoolStep :=
  [.move (labelled "a" "b-c"), .start 0 (.appNamespaceOf sharedNs), .serve 0 ready, .serve 0 ready,
    .serve 0 ready, .move ⟨sharedNs, none⟩, .move (labelled "a-b" "c"),
    .start 1 (.appNamespaceOf sharedNs), .serve 1 ready,
    .start 2 (.projectCleanup ⟨"p".toList, some sharedNs, "c".toList, [], none⟩ sharedNs),
    .serve 2 ready, .serve 2 ready]

/-- The second call has got the old value from the cache, and the Project has read its
Owner from there. -/
def State.servedStale (s : State) : Bool :=
  (match s.threads 1 with
    | some ⟨.appNamespaceOf ns, .done (.ok (.appNamespace app)), [⟨.cacheLookup _, _⟩]⟩ =>
        decide (ns = sharedNs ∧ app = "a".toList)
    | _ => false) &&
  match s.threads 2 with
  | some ⟨_, _, ⟨.getOwner app _, _⟩ :: _⟩ => decide (app = "a".toList)
  | _ => false

/-- From the start of the second call on, the label has the new value. -/
theorem relabelled {u : State} {k : Nat} (hk : k ≤ recreated.length)
    (hu : exec step free State.init (recreated.take k) = some u) (hbusy : u.busy 1 = true) :
    currentAppNamespace u.world sharedNs = .ok "a-b".toList := by
  have hall : ∀ k ≤ recreated.length, (exec step free State.init (recreated.take k)).all
      (fun u => !u.busy 1 || decide (labelOf (u.world.namespaces sharedNs) = some "a-b".toList)) =
        true := by
    decide
  have hlabel := hall k hk
  rw [hu, Option.all_some, hbusy] at hlabel
  exact currentAppNamespace_of_label (of_decide_eq_true hlabel)

/-- The second call returns the application namespace of the Owner that is gone, and a
Project of the new Owner is served from there. -/
theorem recreated_is_stale :
    Crds.ownerNamespaceName "a".toList "b-c".toList = .ok sharedNs ∧
    Crds.ownerNamespaceName "a-b".toList "c".toList = .ok sharedNs ∧
    ∃ t, Run step free State.init recreated t ∧ t.servedStale = true ∧ ¬Coherent recreated t := by
  refine ⟨rfl, rfl, ?_⟩
  obtain ⟨t, hrun, ht⟩ := Run.exists_of_exec State.servedStale
    (show (exec step free State.init recreated).any State.servedStale = true by decide)
  refine ⟨t, hrun, ht, ?_⟩
  intro hcoherent
  simp only [State.servedStale, Bool.and_eq_true] at ht
  obtain ⟨hfirst, -⟩ := ht
  split at hfirst
  · next ns app ns' x hi =>
    obtain ⟨rfl, rfl⟩ := of_decide_eq_true hfirst
    rcases hcoherent.returned 1 _ _ _ hi with ⟨hmem, -⟩ | hsometime
    · simp at hmem
    · obtain ⟨k, hk, u, hu, hbusy, hr⟩ := sometime_exec hsometime
      rw [relabelled hk hu hbusy] at hr
      cases hr
  · cases hfirst

/-- No namespace changes. -/
def Quiet (_ : State) : PoolStep → Prop
  | .move _ => False
  | _ => True

instance (s : State) (a : PoolStep) : Decidable (Quiet s a) :=
  match a with
  | .move _ => isFalse id
  | .start _ _ => isTrue trivial
  | .serve _ _ => isTrue trivial

/-- A namespace that keeps its label: the second call is served from the cache. -/
theorem coherent_kept : ∃ as t, Run step Steady State.init as t ∧ t.world.cache sharedNs =
    some "a".toList ∧ Coherent as t := by
  let created : State := ⟨⟨Function.update (fun _ => none) sharedNs (labelled "a" "b-c").now,
    fun _ => none⟩, fun _ => none⟩
  have hmove : Run step Steady State.init [.move (labelled "a" "b-c")] created := by
    apply Run.single
    · exact ⟨fun app h => (by cases h), fun i call app next past h => (by cases h)⟩
    · rfl
  obtain ⟨t, hrun, ht⟩ := Run.exists_of_exec
    (fun t : State => decide (t.world.cache sharedNs = some "a".toList))
    (show (exec step Quiet created [.start 0 (.appNamespaceOf sharedNs), .serve 0 ready,
      .serve 0 ready, .serve 0 ready, .start 1 (.appNamespaceOf sharedNs), .serve 1 ready]).any _ =
        true by decide)
  have hquiet : ∀ s a, Quiet s a → Steady s a := by
    intro s a h
    cases a with
    | move c => exact h.elim
    | start i call => trivial
    | serve i answers => trivial
  have hall := hmove.append (hrun.mono hquiet)
  exact ⟨_, t, hall, of_decide_eq_true ht, coherent_of_run hall⟩

end Vanyline.Controller.NamespaceCache
