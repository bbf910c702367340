import Vanyline.Controller.Reconcilers
import Vanyline.Lib.Pool

/-!
# Finalizers

The finalizer of a Sandbox is released when `cleanup` returns `Ok`, and so is that of
a Project; the reconciler of an Owner removes the finalizer itself.  A Job removes the
worktree, or purges the volume, and the namespace of the Owner is deleted, before
that.

The model runs any number of reconciles side by side, and the answer to every request
is arbitrary: it may succeed, fail, or say that the object is not there.  `Protected`
says of a reconcile that has ended, with its exchanges, that it released the finalizer
only with a reason, and that an Owner without a namespace is let go.

The reconcilers keep this only when nothing goes wrong.  A failed read counts as an
absent Project or Owner, a remove Job that is not finished is created once more, and an
Owner with an invalid name is never let go (`finalizers_slip`).  `protected_iff` says
exactly for which answers it is kept (`Steady`).
-/

namespace Vanyline.Controller.Finalizers

open Vanyline.Lib Vanyline.Controller.Api

/-! ## Reconciles -/

/-- A reconcile that may release a finalizer. -/
inductive Call
  | sandbox (sandbox : Sandbox) (ns : Name)
  | project (project : Project) (ns : Name)
  | owner (owner : Owner)

def program : Call → Reconciler Action
  | .sandbox sandbox ns => SandboxReconciler.cleanup sandbox ns
  | .project project ns => ProjectReconciler.cleanup project ns
  | .owner owner => OwnerReconciler.reconcile owner

/-- Whatever is asked, the environment chooses the answer. -/
def world : World Unit Request Answer (∀ q, Answer q) Empty where
  serve := fun _ q answers => some ((), answers q)
  move := fun _ x => nomatch x

abbrev State := Pool Unit Nat Call Request Answer ControllerError Action

def step : State → PoolAction Nat Call (∀ q, Answer q) Empty → Option State := Pool.step world program

/-! ## The property -/

abbrev Exchanges := List (Exchange Answer)

/-- The apiserver answered that the Owner of the Project is not there. -/
def OwnerMissing (project : Project) (es : Exchanges) : Prop :=
  ∃ app, ⟨.getOwner app project.owner, .error .notFound⟩ ∈ es

/-- The apiserver answered that the Project of the Sandbox, or its Owner, is not there. -/
def ProjectMissing (sandbox : Sandbox) (ns : Name) (es : Exchanges) : Prop :=
  ⟨.getProject ns sandbox.project, .error .notFound⟩ ∈ es ∨
    ∃ project, ⟨.getProject ns sandbox.project, .ok project⟩ ∈ es ∧ OwnerMissing project es

/-- The Job was found to have succeeded. -/
def JobSucceeded (ns job : Name) (es : Exchanges) : Prop :=
  ∃ found, ⟨.getOptJob ns job, .ok (some found)⟩ ∈ es ∧ 0 < found.succeeded.getD 0

/-- The Job was found, but not to have succeeded. -/
def JobUnfinished (ns job : Name) (es : Exchanges) : Prop :=
  ∃ found, ⟨.getOptJob ns job, .ok (some found)⟩ ∈ es ∧ ¬0 < found.succeeded.getD 0

/-- A cleanup releases the finalizer only after the Job has succeeded or when what it
needs is missing, and it waits for an unfinished Job. -/
structure JobGuarded (ns job : Name) (missing : Prop) (pending : ControllerError) (es : Exchanges)
    (r : Except ControllerError Action) : Prop where
  released : ∀ a, r = .ok a → JobSucceeded ns job es ∨ missing
  waits : JobUnfinished ns job es → (∀ ns m x, ⟨.create ns m, x⟩ ∉ es) ∧ r = .error pending

/-- The requests of the cleanup of a namespace succeed. -/
def Succeeds : Exchange Answer → Prop
  | ⟨.getOptNamespace _, .error _⟩ => False
  | ⟨.delete _ _ _, .error _⟩ => False
  | ⟨.patchFinalizers _ _ _, .error _⟩ => False
  | _ => True

/-- The finalizer of the Owner is removed only when the namespace is gone; and it is
removed when the Owner is being deleted, no namespace carries its labels and all
requests succeed. -/
structure OwnerGuarded (owner : Owner) (es : Exchanges) : Prop where
  gone : ∀ ns name finalizers x, ⟨.patchFinalizers ns name finalizers, x⟩ ∈ es →
    OwnerReconciler.ownerFinalizer ∉ finalizers →
      ∃ ownerNs, OwnerNamespaces.ownerNamespaceName (OwnerReconciler.appNamespaceOfCr owner)
        owner.name = .ok ownerNs ∧ ⟨.getOptNamespace ownerNs, .ok none⟩ ∈ es
  letGo : owner.deletionTimestamp = true → (∀ e ∈ es, Succeeds e) →
    (∀ name ns, ⟨.getOptNamespace name, .ok (some ns)⟩ ∈ es →
      ¬OwnerNamespaces.ownedBy ns owner.name (OwnerReconciler.appNamespaceOfCr owner)) →
    ∃ finalizers, ⟨.patchFinalizers (OwnerReconciler.appNamespaceOfCr owner) owner.name finalizers,
      .ok ()⟩ ∈ es ∧ OwnerReconciler.ownerFinalizer ∉ finalizers

/-- The finalizer protects what it guards. -/
def Protected : Call → Exchanges → Except ControllerError Action → Prop
  | .sandbox sandbox ns, es, r =>
      JobGuarded ns (worktreeRemoveJobName sandbox.name) (ProjectMissing sandbox ns es)
        (.worktreeRemovalPending sandbox.name) es r
  | .project project ns, es, r =>
      JobGuarded ns (purgeJobName project.name) (OwnerMissing project es)
        (.purgePending project.name) es r
  | .owner owner, es, _ => OwnerGuarded owner es

/-! ## The condition -/

/-- The namespace is read and has the label, and the Owner is read and has a volume,
or it is not there. -/
def ReadsWell : Exchange Answer → Prop
  | ⟨.getNamespace _, .error _⟩ => False
  | ⟨.getNamespace _, .ok ns⟩ => ns.appNamespaceLabel ≠ none
  | ⟨.getOwner _ _, .error e⟩ => e = .notFound
  | ⟨.getOwner _ _, .ok owner⟩ => owner.status.bind (·.pvcName) ≠ none
  | _ => True

/-- No read goes wrong, and the remove Job is never found unfinished. -/
structure SandboxSteady (sandbox : Sandbox) (ns : Name) (es : Exchanges) : Prop where
  projectRead : ∀ e, ⟨.getProject ns sandbox.project, .error e⟩ ∈ es → e = .notFound
  owner : ∀ e ∈ es, ReadsWell e
  job : ¬JobUnfinished ns (worktreeRemoveJobName sandbox.name) es

/-- The Owner has a valid namespace name, under which there is no foreign namespace. -/
def OwnerSteady (owner : Owner) (es : Exchanges) : Prop :=
  owner.deletionTimestamp = true →
    (∃ ownerNs, OwnerNamespaces.ownerNamespaceName (OwnerReconciler.appNamespaceOfCr owner)
      owner.name = .ok ownerNs) ∧
    ∀ name ns, ⟨.getOptNamespace name, .ok (some ns)⟩ ∈ es →
      OwnerNamespaces.ownedBy ns owner.name (OwnerReconciler.appNamespaceOfCr owner)

/-- The answers for which the finalizer protects what it guards. -/
def Steady : Call → Exchanges → Prop
  | .sandbox sandbox ns, es => SandboxSteady sandbox ns es
  | .project _ _, es => ∀ e ∈ es, ReadsWell e
  | .owner owner, es => OwnerSteady owner es

/-! ## Reading the volume of the Owner -/

/-- The requests to find the Owner of a Project. -/
def IsLookup (project : Project) : Request → Prop
  | .cacheLookup _ | .cacheInsert _ _ | .getNamespace _ => True
  | .getOwner _ name => name = project.owner
  | _ => False

/-- What has been read when the volume of the Owner is known, or known to be
missing. -/
structure Lookup (project : Project) (read : Exchanges) (pvc : Option Name) : Prop where
  lookups : ∀ e ∈ read, IsLookup project e.1
  readable : (∀ e ∈ read, ReadsWell e) ↔ pvc ≠ none ∨ OwnerMissing project read
  missing : OwnerMissing project read → pvc = none

/-- Looking for the Owner, after reads that went well. -/
theorem lookup_getOwner {project : Project} (app : Name) {read : Exchanges}
    (hlookups : ∀ e ∈ read, IsLookup project e.1) (hwell : ∀ e ∈ read, ReadsWell e)
    (hmissing : ¬OwnerMissing project read) (x : Except ApiError Owner) :
    Lookup project (⟨.getOwner app project.owner, x⟩ :: read)
      (match x with
        | .ok owner => owner.status.bind (·.pvcName)
        | .error _ => none) := by
  have hcons : OwnerMissing project (⟨.getOwner app project.owner, x⟩ :: read) ↔
      x = .error .notFound := by
    constructor
    · rintro ⟨app', hmem⟩
      rcases List.mem_cons.1 hmem with heq | hmem
      · cases heq
        rfl
      · exact absurd ⟨app', hmem⟩ hmissing
    · rintro rfl
      exact ⟨app, List.mem_cons_self⟩
  refine ⟨List.forall_mem_cons.2 ⟨rfl, hlookups⟩, ?_, ?_⟩
  · rw [List.forall_mem_cons, hcons]
    cases x with
    | error e =>
        constructor
        · rintro ⟨he, -⟩
          exact .inr (congrArg Except.error he)
        · rintro (h | h)
          · exact absurd rfl h
          · exact ⟨Except.error.inj h, hwell⟩
    | ok owner =>
        constructor
        · rintro ⟨howner, -⟩
          exact .inl howner
        · rintro (h | h)
          · exact ⟨h, hwell⟩
          · cases h
  · rw [hcons]
    rintro rfl
    rfl

/-- A read that ends the lookup without an Owner. -/
theorem lookup_failed {project : Project} {e : Exchange Answer} {read : Exchanges}
    (hlookups : ∀ e' ∈ e :: read, IsLookup project e'.1) (he : ¬ReadsWell e)
    (hmissing : ¬OwnerMissing project (e :: read)) : Lookup project (e :: read) none := by
  refine ⟨hlookups, ?_, fun _ => rfl⟩
  constructor
  · intro h
    exact absurd (h e List.mem_cons_self) he
  · rintro (h | h)
    · exact absurd rfl h
    · exact absurd h hmissing

/-- The lookup of the application namespace reads well, or its last read does not. -/
theorem appNamespaceOf_meets (project : Project) (ns : Name) :
    (OwnerNamespaces.appNamespaceOf ns).Meets (fun es r =>
      (∀ e ∈ es, IsLookup project e.1) ∧ ¬OwnerMissing project es ∧
        ((∃ app, r = .ok app) ∧ (∀ e ∈ es, ReadsWell e) ∨
          (∃ error, r = .error error) ∧ ∃ e read, es = e :: read ∧ ¬ReadsWell e)) [] := by
  unfold OwnerNamespaces.appNamespaceOf
  rw [Program.meets_bind, meets_cacheLookup]
  intro cached
  cases cached with
  | some app =>
      exact ⟨by simp [IsLookup], by simp [OwnerMissing], .inl ⟨⟨app, rfl⟩, by simp [ReadsWell]⟩⟩
  | none =>
      simp only [Program.meets_bind, meets_getNamespace]
      intro x
      cases x with
      | error e =>
          exact ⟨by simp [IsLookup], by simp [OwnerMissing],
            .inr ⟨⟨.kube e, rfl⟩, _, _, rfl, fun h => h⟩⟩
      | ok found =>
          simp only [kubeResult, meets_decided, OwnerNamespaces.appNamespaceOfNamespace]
          rcases hlabel : found.appNamespaceLabel with _ | app
          · exact ⟨by simp [IsLookup], by simp [OwnerMissing],
              .inr ⟨⟨_, rfl⟩, _, _, rfl, by simp [ReadsWell, hlabel]⟩⟩
          · simp only [meets_cacheInsert, Program.meets_pure]
            exact ⟨by simp [IsLookup], by simp [OwnerMissing],
              .inl ⟨⟨app, rfl⟩, by simp [ReadsWell, hlabel]⟩⟩

/-- The reads of `ownerPvcName`, which never fails. -/
theorem ownerPvcName_meets (project : Project) (ns : Name) :
    (ProjectReconciler.ownerPvcName project ns).Meets (fun es r =>
      ∃ pvc, r = .ok pvc ∧ Lookup project es pvc) [] := by
  unfold ProjectReconciler.ownerPvcName ProjectReconciler.fetchOwner
  rw [Program.meets_bind, Program.meets_attempt, Program.meets_bind]
  apply (appNamespaceOf_meets project ns).imp
  rintro es r ⟨hlookups, hmissing, ⟨⟨app, rfl⟩, hwell⟩ | ⟨⟨error, rfl⟩, e, read, rfl, he⟩⟩
  · simp only [meets_getOwner]
    intro x
    have hlookup := lookup_getOwner app hlookups hwell hmissing x
    cases x with
    | ok owner => exact ⟨_, rfl, hlookup⟩
    | error e => exact ⟨_, rfl, hlookup⟩
  · exact ⟨none, rfl, lookup_failed hlookups he hmissing⟩

theorem Lookup.not_job {project : Project} {read : Exchanges} {pvc : Option Name}
    (h : Lookup project read pvc) {ns name : Name} {x : Except ApiError (Option Job)} :
    ⟨.getOptJob ns name, x⟩ ∉ read := fun hmem => h.lookups _ hmem

theorem Lookup.not_create {project : Project} {read : Exchanges} {pvc : Option Name}
    (h : Lookup project read pvc) {ns : Name} {m : Manifest} {x : Except ApiError Unit} :
    ⟨.create ns m, x⟩ ∉ read := fun hmem => h.lookups _ hmem

theorem Lookup.not_project {project : Project} {read : Exchanges} {pvc : Option Name}
    (h : Lookup project read pvc) {ns name : Name} {x : Except ApiError Project} :
    ⟨.getProject ns name, x⟩ ∉ read := fun hmem => h.lookups _ hmem

/-! ## Projects -/

/-- Without a volume, the cleanup of a Project ends as it should when the Owner is
missing. -/
theorem project_without_volume {project : Project} {ns : Name} {read : Exchanges}
    (h : Lookup project read none) :
    Protected (.project project ns) read (.ok .awaitChange) ↔ Steady (.project project ns) read := by
  show JobGuarded _ _ _ _ _ _ ↔ _
  rw [Steady, h.readable]
  constructor
  · intro hguarded
    rcases hguarded.released _ rfl with ⟨found, hmem, -⟩ | hmissing
    · exact absurd hmem h.not_job
    · exact .inr hmissing
  · rintro (hvolume | hmissing)
    · exact absurd rfl hvolume
    · refine ⟨fun _ _ => .inr hmissing, ?_⟩
      rintro ⟨found, hmem, -⟩
      exact absurd hmem h.not_job

/-- The cleanup of a Project keeps the promise exactly when its reads go well. -/
theorem project_meets (project : Project) (ns : Name) :
    (ProjectReconciler.cleanup project ns).Meets (fun es r =>
      Protected (.project project ns) es r ↔ Steady (.project project ns) es) [] := by
  unfold ProjectReconciler.cleanup
  rw [Program.meets_bind]
  apply (ownerPvcName_meets project ns).imp
  rintro read r ⟨pvc, rfl, h⟩
  cases pvc with
  | none => exact project_without_volume h
  | some pvc =>
      have hwell : ∀ e ∈ read, ReadsWell e := h.readable.2 (.inl (by simp))
      simp only [Program.meets_bind, meets_getOptJob]
      intro x
      rcases x with e | _ | job
      · refine iff_of_true ⟨by rintro a ⟨⟩, ?_⟩ (List.forall_mem_cons.2 ⟨trivial, hwell⟩)
        rintro ⟨found, hmem, -⟩
        simp [h.not_job] at hmem
      · simp only [kubeResult, Program.meets_bind, meets_create]
        intro y
        have hsteady : Steady (.project project ns) (⟨.create ns (ProjectReconciler.buildPurgeJob
            project), y⟩ :: ⟨.getOptJob ns (purgeJobName project.name), .ok none⟩ :: read) :=
          List.forall_mem_cons.2 ⟨trivial, List.forall_mem_cons.2 ⟨trivial, hwell⟩⟩
        cases y with
        | error e =>
            refine iff_of_true ⟨by rintro a ⟨⟩, ?_⟩ hsteady
            rintro ⟨found, hmem, -⟩
            simp [h.not_job] at hmem
        | ok _ =>
            refine iff_of_true ⟨by rintro a ⟨⟩, ?_⟩ hsteady
            rintro ⟨found, hmem, -⟩
            simp [h.not_job] at hmem
      · have hsteady : Steady (.project project ns)
            (⟨.getOptJob ns (purgeJobName project.name), .ok (some job)⟩ :: read) :=
          List.forall_mem_cons.2 ⟨trivial, hwell⟩
        simp only [kubeResult]
        split_ifs with hdone
        · refine iff_of_true ⟨fun _ _ => .inl ⟨job, List.mem_cons_self, hdone⟩, ?_⟩ hsteady
          rintro ⟨found, hmem, hunfinished⟩
          simp only [List.mem_cons, h.not_job, or_false] at hmem
          cases hmem
          exact absurd hdone hunfinished
        · refine iff_of_true ⟨by rintro a ⟨⟩, fun _ => ⟨?_, rfl⟩⟩ hsteady
          intro ns' m x
          simp [h.not_create]

/-! ## Sandboxes -/

/-- Sandboxes and Projects look for the volume in the same way. -/
theorem sandbox_ownerPvcName (project : Project) (ns : Name) :
    SandboxReconciler.ownerPvcName project ns = ProjectReconciler.ownerPvcName project ns := rfl

section

variable {sandbox : Sandbox} {project : Project} {ns : Name} {read : Exchanges} {pvc : Option Name}

/-- The exchanges after the Project has been read. -/
abbrev afterProject (sandbox : Sandbox) (project : Project) (ns : Name) (read : Exchanges) :
    Exchanges := read ++ [⟨.getProject ns sandbox.project, .ok project⟩]

/-- The Project is there, so only its Owner can be missing. -/
theorem projectMissing_iff (h : Lookup project read pvc) :
    ProjectMissing sandbox ns (afterProject sandbox project ns read) ↔ OwnerMissing project read := by
  constructor
  · rintro (hmem | ⟨project', hmem, app, happ⟩)
    · simp [h.not_project] at hmem
    · simp only [List.mem_append, h.not_project, List.mem_singleton, false_or] at hmem
      cases hmem
      simp only [List.mem_append, List.mem_singleton] at happ
      rcases happ with happ | happ
      · exact ⟨app, happ⟩
      · cases happ
  · rintro ⟨app, hmem⟩
    exact .inr ⟨project, by simp, app, List.mem_append_left _ hmem⟩

/-- The reads after the Project decide whether all reads go well. -/
theorem sandboxSteady_iff (h : Lookup project read pvc) (new : Exchanges)
    (hnew : ∀ e ∈ new, ReadsWell e) (hproject : ∀ name x, ⟨.getProject ns name, x⟩ ∉ new) :
    SandboxSteady sandbox ns (new ++ afterProject sandbox project ns read) ↔
      (∀ e ∈ read, ReadsWell e) ∧
        ¬JobUnfinished ns (worktreeRemoveJobName sandbox.name)
          (new ++ afterProject sandbox project ns read) := by
  constructor
  · intro hsteady
    exact ⟨fun e he => hsteady.owner e (by simp [he]), hsteady.job⟩
  · rintro ⟨hwell, hjob⟩
    refine ⟨?_, ?_, hjob⟩
    · intro e hmem
      simp [hproject, h.not_project] at hmem
    · rw [List.forall_mem_append, List.forall_mem_append]
      exact ⟨hnew, hwell, by simp [ReadsWell]⟩

/-- The lookup of the Owner says nothing about Jobs. -/
theorem not_jobUnfinished (h : Lookup project read pvc) (new : Exchanges) {job : Name}
    (hnew : ∀ found, ⟨.getOptJob ns job, .ok (some found)⟩ ∉ new) :
    ¬JobUnfinished ns job (new ++ afterProject sandbox project ns read) := by
  rintro ⟨found, hmem, -⟩
  simp [hnew, h.not_job] at hmem

/-- Without a volume, the cleanup of a Sandbox ends as it should when the Owner is
missing. -/
theorem sandbox_without_volume (h : Lookup project read none) :
    Protected (.sandbox sandbox ns) (afterProject sandbox project ns read) (.ok .awaitChange) ↔
      Steady (.sandbox sandbox ns) (afterProject sandbox project ns read) := by
  have hunfinished : ¬JobUnfinished ns (worktreeRemoveJobName sandbox.name)
      (afterProject sandbox project ns read) := not_jobUnfinished h [] (by simp)
  have hsteady : Steady (.sandbox sandbox ns) (afterProject sandbox project ns read) ↔
      OwnerMissing project read := by
    have hiff : SandboxSteady sandbox ns (afterProject sandbox project ns read) ↔ _ :=
      sandboxSteady_iff h [] (by simp) (by simp)
    rw [Steady, hiff, List.nil_append, and_iff_left hunfinished, h.readable]
    simp
  rw [hsteady]
  constructor
  · intro hguarded
    rcases hguarded.released _ rfl with ⟨found, hmem, -⟩ | hmissing
    · simp [h.not_job] at hmem
    · exact (projectMissing_iff h).1 hmissing
  · intro hmissing
    exact ⟨fun _ _ => .inr ((projectMissing_iff h).2 hmissing), fun hjob => absurd hjob hunfinished⟩

/-- With a volume, everything was read well. -/
theorem sandboxSteady_of_volume {volume : Name} (h : Lookup project read (some volume))
    {new : Exchanges} (hnew : ∀ e ∈ new, ReadsWell e)
    (hproject : ∀ name x, ⟨.getProject ns name, x⟩ ∉ new)
    (hjob : ¬JobUnfinished ns (worktreeRemoveJobName sandbox.name)
      (new ++ afterProject sandbox project ns read)) :
    Steady (.sandbox sandbox ns) (new ++ afterProject sandbox project ns read) :=
  (sandboxSteady_iff h new hnew hproject).2 ⟨h.readable.2 (.inl (by simp)), hjob⟩

/-- A cleanup that waits, and found no unfinished Job, ends as it should. -/
theorem guarded_of_error {new : Exchanges} {job : Name} {missing : Prop}
    {pending error : ControllerError} (hjob : ¬JobUnfinished ns job new) :
    JobGuarded ns job missing pending new (.error error) := by
  refine ⟨?_, fun h => absurd h hjob⟩
  rintro a ⟨⟩

theorem meets_startRemoval {P : Exchanges → Except ControllerError Action → Prop}
    {past : Exchanges} : (SandboxReconciler.startRemoval sandbox ns).Meets P past ↔
      ∀ y, P (⟨.create ns (SandboxReconciler.buildWorktreeRemoveJob sandbox), y⟩ :: past)
        (.error (match y with
          | .ok _ => .worktreeRemovalPending sandbox.name
          | .error e => .kube e)) := by
  unfold SandboxReconciler.startRemoval
  rw [Program.meets_bind, meets_create]
  apply forall_congr'
  intro y
  cases y <;> rfl

end

/-- The cleanup of a Sandbox keeps the promise exactly when its reads go well and it
finds no unfinished Job. -/
theorem sandbox_meets (sandbox : Sandbox) (ns : Name) :
    (SandboxReconciler.cleanup sandbox ns).Meets (fun es r =>
      Protected (.sandbox sandbox ns) es r ↔ Steady (.sandbox sandbox ns) es) [] := by
  unfold SandboxReconciler.cleanup SandboxReconciler.fetchProject
  simp only [Program.meets_bind, Program.meets_attempt, meets_getProject]
  intro x
  cases x with
  | error e =>
      have hmissing : ProjectMissing sandbox ns [⟨.getProject ns sandbox.project, .error e⟩] ↔
          e = .notFound := by
        simp [ProjectMissing, eq_comm]
      simp only [kubeResult, Program.meets_pure]
      show JobGuarded _ _ _ _ _ _ ↔ SandboxSteady _ _ _
      constructor
      · intro hguarded
        have he : e = .notFound := by
          rcases hguarded.released _ rfl with ⟨found, hmem, -⟩ | h
          · simp at hmem
          · exact hmissing.1 h
        refine ⟨?_, by simp [ReadsWell], by simp [JobUnfinished]⟩
        intro e' hmem
        simp only [List.mem_singleton] at hmem
        cases hmem
        exact he
      · intro hsteady
        refine ⟨fun _ _ => .inr (hmissing.2 (hsteady.projectRead e (by simp))), ?_⟩
        intro hjob
        exact absurd hjob hsteady.job
  | ok project =>
      simp only [kubeResult, Program.meets_bind]
      rw [sandbox_ownerPvcName, Program.meets_iff_append]
      apply (ownerPvcName_meets project ns).imp
      rintro read r ⟨pvc, rfl, h⟩
      cases pvc with
      | none => exact sandbox_without_volume h
      | some pvc =>
          simp only [Program.meets_bind, meets_getOptJob]
          intro x
          rcases x with e | _ | job
          · let new : Exchanges := [⟨.getOptJob ns (worktreeRemoveJobName sandbox.name), .error e⟩]
            have hjob : ¬JobUnfinished ns (worktreeRemoveJobName sandbox.name)
                (new ++ afterProject sandbox project ns read) :=
              not_jobUnfinished h new (by simp [new])
            exact iff_of_true (guarded_of_error hjob)
              (sandboxSteady_of_volume h (by simp [new, ReadsWell]) (by simp [new]) hjob)
          · simp only [kubeResult, meets_startRemoval]
            intro y
            let new : Exchanges :=
              [⟨.create ns (SandboxReconciler.buildWorktreeRemoveJob sandbox), y⟩,
                ⟨.getOptJob ns (worktreeRemoveJobName sandbox.name), .ok none⟩]
            have hjob : ¬JobUnfinished ns (worktreeRemoveJobName sandbox.name)
                (new ++ afterProject sandbox project ns read) :=
              not_jobUnfinished h new (by simp [new])
            exact iff_of_true (guarded_of_error hjob)
              (sandboxSteady_of_volume h (by simp [new, ReadsWell]) (by simp [new]) hjob)
          · let new : Exchanges :=
              [⟨.getOptJob ns (worktreeRemoveJobName sandbox.name), .ok (some job)⟩]
            simp only [kubeResult]
            split_ifs with hdone
            · have hjob : ¬JobUnfinished ns (worktreeRemoveJobName sandbox.name)
                  (new ++ afterProject sandbox project ns read) := by
                rintro ⟨found, hmem, hunfinished⟩
                simp only [new, List.mem_append, List.mem_singleton, h.not_job] at hmem
                rcases hmem with hmem | hmem | hmem
                · cases hmem
                  exact absurd hdone hunfinished
                · exact hmem
                · cases hmem
              refine iff_of_true ⟨fun _ _ => .inl ⟨job, List.mem_cons_self, hdone⟩, ?_⟩
                (sandboxSteady_of_volume h (by simp [new, ReadsWell]) (by simp [new]) hjob)
              intro hunfinished
              exact absurd hunfinished hjob
            · rw [meets_startRemoval]
              intro y
              have hjob : JobUnfinished ns (worktreeRemoveJobName sandbox.name)
                  (⟨.create ns (SandboxReconciler.buildWorktreeRemoveJob sandbox), y⟩ ::
                    (new ++ afterProject sandbox project ns read)) :=
                ⟨job, by simp [new], hdone⟩
              refine iff_of_false ?_ fun hsteady => hsteady.job hjob
              intro hguarded
              exact (hguarded.waits hjob).1 ns _ y List.mem_cons_self

/-! ## Owners -/

/-- The namespace is gone, and the Owner is let go. -/
theorem ownerGuarded_gone {owner : Owner} {ownerNs : Name}
    (hname : OwnerNamespaces.ownerNamespaceName (OwnerReconciler.appNamespaceOfCr owner)
      owner.name = .ok ownerNs) (y : Except ApiError Unit) :
    OwnerGuarded owner [⟨.patchFinalizers (OwnerReconciler.appNamespaceOfCr owner) owner.name
      (owner.finalizers.filter (· ≠ OwnerReconciler.ownerFinalizer)), y⟩,
      ⟨.getOptNamespace ownerNs, .ok none⟩] where
  gone := by
    intro ns name finalizers x hmem _
    exact ⟨ownerNs, hname, by simp⟩
  letGo := by
    intro _ hsucceeds _
    have hy := hsucceeds _ List.mem_cons_self
    cases y with
    | ok _ => exact ⟨_, List.mem_cons_self, by simp⟩
    | error e => exact absurd hy (by simp [Succeeds])

/-- The namespace of the Owner is still there, and the Owner is not let go. -/
theorem ownerGuarded_waiting {owner : Owner} {ownerNs : Name} {found : Namespace} {es : Exchanges}
    (howned : OwnerNamespaces.ownedBy found owner.name (OwnerReconciler.appNamespaceOfCr owner))
    (hfound : ⟨.getOptNamespace ownerNs, .ok (some found)⟩ ∈ es)
    (hpatch : ∀ ns name finalizers x, ⟨.patchFinalizers ns name finalizers, x⟩ ∉ es) :
    OwnerGuarded owner es where
  gone := by
    intro ns name finalizers x hmem
    exact absurd hmem (hpatch ns name finalizers x)
  letGo := by
    intro _ _ hforeign
    exact absurd howned (hforeign _ _ hfound)

/-- Whatever is found under the name of the namespace, the Owner that is being deleted
is let go exactly when nothing foreign is there. -/
theorem ownerDeleted_meets {owner : Owner} (hdeleted : owner.deletionTimestamp = true) :
    (OwnerReconciler.reconcileDeleted owner).Meets (fun es r =>
      Protected (.owner owner) es r ↔ Steady (.owner owner) es) [] := by
  unfold OwnerReconciler.reconcileDeleted OwnerNamespaces.cleanupNamespace
  simp only [Program.meets_bind, meets_decided]
  rcases hname : OwnerNamespaces.ownerNamespaceName (OwnerReconciler.appNamespaceOfCr owner)
    owner.name with error | ownerNs
  · refine iff_of_false ?_ ?_
    · intro hguarded
      obtain ⟨finalizers, hmem, -⟩ := hguarded.letGo hdeleted (by simp) (by simp)
      cases hmem
    · intro hsteady
      obtain ⟨⟨ownerNs, hname'⟩, -⟩ := hsteady hdeleted
      rw [hname] at hname'
      cases hname'
  · simp only [Program.meets_request, meets_orFail]
    intro x
    rcases x with e | _ | found
    · refine iff_of_true ⟨by simp, ?_⟩ fun _ => ⟨⟨ownerNs, hname⟩, by simp⟩
      intro _ hsucceeds
      exact absurd (hsucceeds _ List.mem_cons_self) (by simp [Succeeds])
    · simp only [kubeResult, OwnerNamespaces.cleanupDecision, Program.meets_pure, Program.meets_bind,
        Program.meets_request, meets_orFail]
      intro y
      cases y with
      | ok _ => exact iff_of_true (ownerGuarded_gone hname _) fun _ => ⟨⟨ownerNs, hname⟩, by simp⟩
      | error e => exact iff_of_true (ownerGuarded_gone hname _) fun _ => ⟨⟨ownerNs, hname⟩, by simp⟩
    · simp only [kubeResult, OwnerNamespaces.cleanupDecision]
      by_cases howned : OwnerNamespaces.ownedBy found owner.name
        (OwnerReconciler.appNamespaceOfCr owner)
      · have hsteady : ∀ new : Exchanges, (∀ name ns, ⟨.getOptNamespace name, .ok (some ns)⟩ ∉ new) →
            OwnerSteady owner (new ++ [⟨.getOptNamespace ownerNs, .ok (some found)⟩]) := by
          intro new hnew _
          refine ⟨⟨ownerNs, hname⟩, ?_⟩
          intro name ns hmem
          simp only [List.mem_append, hnew, List.mem_singleton, false_or] at hmem
          cases hmem
          exact howned
        simp only [howned, Bool.not_true, Bool.false_eq_true, if_false]
        by_cases hterminating : found.deletionTimestamp
        · simp only [hterminating, if_true, Program.meets_pure]
          exact iff_of_true (ownerGuarded_waiting howned (List.mem_cons_self) (by simp))
            (hsteady [] (by simp))
        · simp only [hterminating, Bool.false_eq_true, if_false, Program.meets_bind, meets_delete]
          intro y
          let deletion : Exchanges := [⟨.delete .ownerNamespace [] ownerNs, y⟩]
          have hguarded : OwnerGuarded owner
              (deletion ++ [⟨.getOptNamespace ownerNs, .ok (some found)⟩]) :=
            ownerGuarded_waiting howned (List.mem_cons_of_mem _ List.mem_cons_self) (by simp [deletion])
          cases y with
          | ok _ => exact iff_of_true hguarded (hsteady deletion (by simp [deletion]))
          | error e => exact iff_of_true hguarded (hsteady deletion (by simp [deletion]))
      · simp only [howned, Bool.not_false, if_true]
        refine iff_of_false ?_ ?_
        · intro hguarded
          obtain ⟨finalizers, hmem, -⟩ := hguarded.letGo hdeleted (by simp [Succeeds]) (by
            intro name ns hmem
            simp only [List.mem_singleton] at hmem
            cases hmem
            exact howned)
          simp at hmem
        · intro hsteady
          exact howned ((hsteady hdeleted).2 _ _ List.mem_cons_self)

/-- The requests of a reconcile that leave the finalizer in place. -/
def KeepsFinalizer : Request → Prop
  | .patchFinalizers _ _ finalizers => OwnerReconciler.ownerFinalizer ∈ finalizers
  | _ => True

theorem keeps_ensureFinalizer (owner : Owner) (app : Name) :
    (OwnerReconciler.ensureFinalizer owner app).Asks KeepsFinalizer := by
  unfold OwnerReconciler.ensureFinalizer
  split_ifs
  · exact Program.asks_pure
  · apply Program.Asks.bind (Program.asks_request (by simp [KeepsFinalizer]))
    rintro (_ | _) <;> trivial

theorem keeps_ensureNamespace (owner : Owner) (app : Name) :
    (OwnerNamespaces.ensureNamespace owner app).Asks KeepsFinalizer := by
  unfold OwnerNamespaces.ensureNamespace OwnerNamespaces.applicationResolves
  refine (asks_decided _).bind fun ownerNs => ?_
  refine asks_call trivial fun existing => (asks_orFail existing).bind fun _ => ?_
  refine (asks_decided _).bind fun _ => (asks_decided _).bind fun _ => ?_
  refine Program.Asks.bind (asks_call trivial asks_orFail) fun _ => ?_
  refine Program.Asks.bind ?_ fun resolves => ?_
  · split
    · exact asks_call trivial fun answer => (asks_orFail answer).bind fun _ => Program.asks_pure
    · exact Program.asks_pure
  · split
    · exact asks_call trivial asks_orFail
    · exact Program.asks_pure

theorem keeps_bumpSandboxes (owner : Owner) (ownerNs : Name) :
    (OwnerReconciler.bumpSandboxes owner ownerNs).Asks KeepsFinalizer := by
  unfold OwnerReconciler.bumpSandboxes
  refine Program.Asks.bind (asks_call trivial asks_orFail) fun projects => ?_
  dsimp only
  split_ifs
  · exact Program.asks_pure
  · refine Program.Asks.bind (asks_call trivial asks_orFail) fun sandboxes => ?_
    exact Program.asks_forM (fun sandbox => asks_call trivial asks_orFail) _

theorem keeps_reconcileLive (owner : Owner) :
    (OwnerReconciler.reconcileLive owner).Asks KeepsFinalizer := by
  unfold OwnerReconciler.reconcileLive
  refine (keeps_ensureFinalizer owner _).bind fun _ => ?_
  refine Program.Asks.bind (keeps_ensureNamespace owner _) fun _ => ?_
  refine (asks_decided _).bind fun ownerNs => ?_
  refine (asks_call trivial asks_orFail).bind fun _ => ?_
  refine (asks_call trivial asks_orFail).bind fun _ => ?_
  refine asks_call trivial fun answer => (asks_orFail answer).bind fun _ => ?_
  exact (keeps_bumpSandboxes owner ownerNs).bind fun _ => Program.asks_pure

/-- The reconcile of an Owner keeps the promise exactly when the name of its namespace is
valid, and no foreign namespace has it. -/
theorem owner_meets (owner : Owner) : (OwnerReconciler.reconcile owner).Meets (fun es r =>
    Protected (.owner owner) es r ↔ Steady (.owner owner) es) [] := by
  unfold OwnerReconciler.reconcile
  split_ifs with hdeleted
  · exact ownerDeleted_meets hdeleted
  · rw [Program.meets_iff]
    intro es r hpath
    refine iff_of_true ⟨?_, fun h => absurd h hdeleted⟩ fun h => absurd h hdeleted
    intro ns name finalizers x hmem hgone
    exact absurd ((keeps_reconcileLive owner).of_path hpath (by simp) _ hmem) hgone

theorem program_meets (call : Call) :
    (program call).Meets (fun es r => Protected call es r ↔ Steady call es) [] := by
  cases call with
  | sandbox sandbox ns => exact sandbox_meets sandbox ns
  | project project ns => exact project_meets project ns
  | owner owner => exact owner_meets owner

/-! ## Every run -/

/-- In every run, whatever the answers are, a reconcile that has ended has kept the
promise if and only if its answers were steady. -/
theorem protected_iff {as : List (PoolAction Nat Call (∀ q, Answer q) Empty)} {t : State}
    (h : Run step free (Pool.init ()) as t) {i : Nat} {call : Call}
    {r : Except ControllerError Action} {past : Exchanges}
    (hthread : t.threads i = some ⟨call, .done r, past⟩) :
    Protected call past r ↔ Steady call past := by
  have hvalid : Pool.Valid program t :=
    h.invariant Pool.valid_init fun _ _ _ hs _ hstep => Pool.valid_step hs hstep
  exact hvalid.meets hthread (program_meets call)

/-! ## Examples -/

/-- With the answers of the oracle, a reconcile ends without having kept the promise. -/
def Slips (call : Call) (oracle : ∀ q, Answer q) : Prop :=
  ∃ as t past r, Run step free (Pool.init ()) as t ∧ t.threads 0 = some ⟨call, .done r, past⟩ ∧
    (program call).answered oracle [] = (past, r) ∧ ¬Protected call past r

/-- The answers of an oracle make a run. -/
theorem exists_run (oracle : ∀ q, Answer q) (call : Call) :
    ∃ as t, Run step free (Pool.init ()) as t ∧ t.threads 0 = some
      ⟨call, .done ((program call).answered oracle []).2, ((program call).answered oracle []).1⟩ :=
  have hserve : ∀ q, world.serve () q oracle = some ((), oracle q) := fun _ => rfl
  Pool.exists_run_answered program (fun _ _ => trivial) (fun _ _ _ => trivial) hserve 0 call

theorem slips_of_answered {call : Call} {oracle : ∀ q, Answer q} (past : Exchanges)
    (r : Except ControllerError Action) (hans : (program call).answered oracle [] = (past, r))
    (h : ¬Protected call past r) : Slips call oracle := by
  obtain ⟨as, t, hrun, ht⟩ := exists_run oracle call
  rw [hans] at ht
  exact ⟨as, t, past, r, hrun, ht, hans, h⟩

/-- A Sandbox of the Project `p`. -/
def box : Sandbox := ⟨"box".toList, some "ns".toList, "p".toList, false, []⟩

/-- An Owner under deletion whose name is not a DNS label. -/
def dotted : Owner :=
  ⟨"a.b".toList, some "app".toList, true, [OwnerReconciler.ownerFinalizer], none, [], none⟩

/-- The Project cannot be read at the moment. -/
def unreadable : ∀ q, Answer q
  | .getProject _ _ => .error .other
  | q => ready q

/-- The Jobs are there, and have not succeeded. -/
def unfinished : ∀ q, Answer q
  | .getOptJob _ _ => .ok (some ⟨none⟩)
  | .create _ _ => .error .alreadyExists
  | q => ready q

/-- A read that fails once releases the finalizer of a Sandbox, an unfinished remove Job
is created again, and an Owner whose name is not valid is never let go. -/
theorem finalizers_slip : Slips (.sandbox box "ns".toList) unreadable ∧
    Slips (.sandbox box "ns".toList) unfinished ∧ Slips (.owner dotted) ready := by
  refine ⟨?_, ?_, ?_⟩
  · refine slips_of_answered [⟨.getProject "ns".toList "p".toList, .error .other⟩]
      (.ok .awaitChange) rfl ?_
    intro h
    rcases h.released _ rfl with ⟨found, hmem, -⟩ | hmissing
    · simp at hmem
    · simp [ProjectMissing, box] at hmissing
  · refine slips_of_answered
      [⟨.create "ns".toList (SandboxReconciler.buildWorktreeRemoveJob box), .error .alreadyExists⟩,
        ⟨.getOptJob "ns".toList (worktreeRemoveJobName box.name), .ok (some ⟨none⟩)⟩,
        ⟨.getOwner [] [], _⟩, ⟨.cacheLookup "ns".toList, _⟩,
        ⟨.getProject "ns".toList "p".toList, _⟩] (.error (.kube .alreadyExists)) rfl ?_
    intro h
    have hwaits := h.waits ⟨⟨none⟩, List.mem_cons_of_mem _ List.mem_cons_self, by decide⟩
    cases hwaits.2
  · refine slips_of_answered [] (.error _) rfl ?_
    intro h
    obtain ⟨finalizers, hmem, -⟩ := h.letGo rfl (by simp) (by simp)
    cases hmem

/-- A cleanup after the remove Job has succeeded keeps the promise, and its answers are
steady. -/
theorem protected_iff_box : ∃ as t past, Run step free (Pool.init ()) as t ∧
    t.threads 0 = some ⟨.sandbox box "ns".toList, .done (.ok .awaitChange), past⟩ ∧
    (Protected (.sandbox box "ns".toList) past (.ok .awaitChange) ↔
      Steady (.sandbox box "ns".toList) past) := by
  obtain ⟨as, t, hrun, ht⟩ := exists_run ready (.sandbox box "ns".toList)
  exact ⟨as, t, _, hrun, ht, protected_iff hrun ht⟩

end Vanyline.Controller.Finalizers
