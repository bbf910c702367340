import Mathlib.Data.Char
import Mathlib.Data.List.Lex
import Vanyline.Lib.Run
import Vanyline.Sandbox.Diagnostics

/-!
# Publications, invalidations and deaths in any order

A publication takes `diag_parts`, keeps it while it takes `diagnostics_cache`, and writes both.
The death of an auxiliary server takes both before it writes.  An invalidation takes the cache and
lets it go before it takes the parts.  These lock sections are the steps here, in any order in
which no two holders of `diag_parts` meet.

A clock counts the publications and the invalidations, so that one can ask which came first.

* `Guarded` says that nothing is inserted in the cache for a document while an invalidation of it
  is between its two halves.
* `consistent_of_run`: then the cache is what the parts give whenever nothing is in progress, and
  nothing is served that an invalidation was to remove.
-/

namespace Vanyline.Sandbox.DiagnosticsRuns

open Vanyline.Lib Diagnostics

/-- What a child publishes for a document, and when it did. -/
structure Publication (D : Type) where
  time : Nat
  items : List D

variable {D : Type}

/-- The first section of a publication. -/
def publishParts (d : Diagnostics (Publication D)) (uri : Uri) (child : Nat) (p : Publication D) :
    Diagnostics (Publication D) :=
  { d with
    parts := Function.update d.parts uri (Function.update (d.parts uri) child (some p)) }

/-- The second section of a publication. -/
def publishCache (d : Diagnostics (Publication D)) (uri : Uri) : Diagnostics (Publication D) :=
  { d with
    cache := Function.update d.cache uri (some (concatDiagParts d.children (d.parts uri))) }

theorem publishCache_publishParts (d : Diagnostics (Publication D)) (uri : Uri) (child : Nat)
    (p : Publication D) :
    publishCache (publishParts d uri child p) uri = d.publish uri child p := by
  simp only [publishCache, publishParts, Diagnostics.publish, Function.update_self]

structure State (D : Type) where
  maps : Diagnostics (Publication D)
  now : Nat
  /-- The document of the publication that holds `diag_parts`. -/
  publishing : Option Uri
  /-- The invalidations between their two halves, with the times when they started. -/
  invalidating : List (Uri × Nat)
  /-- When the latest completed invalidation of a document started. -/
  completed : Uri → Nat

inductive Label (D : Type)
  | publishParts (child : Nat) (uri : Uri) (items : List D)
  | publishCache
  | invalidateCache (uri : Uri)
  | invalidateParts (uri : Uri) (start : Nat)
  | auxDeath (child : Nat)

namespace State

def init (children : Nat) : State D where
  maps := Diagnostics.empty children
  now := 0
  publishing := none
  invalidating := []
  completed _ := 0

end State

def step (s : State D) : Label D → Option (State D)
  | .publishParts child uri items =>
    if s.publishing = none ∧ child < s.maps.children then
      some { s with
        maps := publishParts s.maps uri child ⟨s.now, items⟩
        now := s.now + 1
        publishing := some uri }
    else none
  | .publishCache =>
    s.publishing.map fun uri => { s with
      maps := publishCache s.maps uri
      publishing := none }
  | .invalidateCache uri =>
    some { s with
      maps := s.maps.removeCache uri
      now := s.now + 1
      invalidating := (uri, s.now) :: s.invalidating }
  | .invalidateParts uri start =>
    if s.publishing = none ∧ (uri, start) ∈ s.invalidating then
      some { s with
        maps := s.maps.removeParts uri
        invalidating := s.invalidating.erase (uri, start)
        completed := Function.update s.completed uri (max (s.completed uri) start) }
    else none
  | .auxDeath child =>
    if s.publishing = none then some { s with maps := s.maps.dropAuxParts child } else none

/-- The death of a child writes an entry of the cache. -/
def Inserts (s : State D) (child : Nat) (uri : Uri) : Prop :=
  (s.maps.parts uri child).isSome = true ∧
    concatDiagParts s.maps.children (Function.update (s.maps.parts uri) child none) ≠ []

/-- Nothing is inserted in the cache for a document that is being invalidated. -/
def Guarded (s : State D) : Label D → Prop
  | .publishCache => ∀ entry ∈ s.invalidating, s.publishing ≠ some entry.1
  | .auxDeath child => ∀ entry ∈ s.invalidating, ¬ Inserts s child entry.1
  | _ => True

/-! ## What the maps should be -/

/-- The entry of the cache is what the parts give: nothing if there are none, and else the parts
in the order of the children. -/
structure Coupled (d : Diagnostics (Publication D)) (uri : Uri) : Prop where
  present : d.cache uri ≠ none ↔ ∃ child, d.parts uri child ≠ none
  merged : ∀ ps, d.cache uri = some ps → ps = concatDiagParts d.children (d.parts uri)

structure Consistent (s : State D) : Prop where
  coupled : s.publishing = none → s.invalidating = [] → ∀ uri, Coupled s.maps uri
  fresh : ∀ uri ps, s.maps.cache uri = some ps → ∀ p ∈ ps, s.completed uri ≤ p.time

/-- The document is not the business of any operation that is in progress. -/
def Quiet (s : State D) (uri : Uri) : Prop :=
  s.publishing ≠ some uri ∧ ∀ entry ∈ s.invalidating, entry.1 ≠ uri

structure Inv (s : State D) : Prop where
  children : ∀ uri child, s.maps.parts uri child ≠ none → child < s.maps.children
  coupled : ∀ uri, Quiet s uri → Coupled s.maps uri
  removed : ∀ entry ∈ s.invalidating, s.maps.cache entry.1 = none
  parts_time : ∀ uri child p, s.maps.parts uri child = some p →
    s.completed uri ≤ p.time ∧ p.time < s.now
  cache_time : ∀ uri ps, s.maps.cache uri = some ps → ∀ p ∈ ps, s.completed uri ≤ p.time
  published : ∀ uri, s.publishing = some uri → ∃ child, s.maps.parts uri child ≠ none
  started : ∀ entry ∈ s.invalidating, entry.2 < s.now
  completed : ∀ uri, s.completed uri ≤ s.now

variable {s t : State D}

theorem Inv.consistent (h : Inv s) : Consistent s where
  coupled hpublishing hinvalidating uri := by
    apply h.coupled uri
    constructor
    · rw [hpublishing]
      exact Option.some_ne_none uri |>.symm
    · intro entry hentry
      rw [hinvalidating] at hentry
      cases hentry
  fresh := h.cache_time

theorem inv_init (children : Nat) : Inv (State.init children : State D) where
  children uri child h := absurd rfl h
  coupled uri _ := ⟨iff_of_false (fun h => h rfl) fun ⟨_, h⟩ => h rfl, fun ps h => by cases h⟩
  removed entry h := by cases h
  parts_time uri child p h := by cases h
  cache_time uri ps h := by cases h
  published uri h := by cases h
  started entry h := by cases h
  completed uri := Nat.le_refl 0

/-! ## The sections -/

theorem Inv.publishParts (h : Inv s) {child : Nat} {uri : Uri} {items : List D}
    (hstep : step s (.publishParts child uri items) = some t) : Inv t := by
  simp only [step] at hstep
  split_ifs at hstep with hfree
  cases hstep
  obtain ⟨hpublishing, hchild⟩ := hfree
  -- What the parts of a document become.
  have hparts : ∀ u c, (DiagnosticsRuns.publishParts s.maps uri child ⟨s.now, items⟩).parts u c =
      if u = uri ∧ c = child then some ⟨s.now, items⟩ else s.maps.parts u c := by
    intro u c
    show Function.update s.maps.parts uri _ u c = _
    by_cases hu : u = uri
    · subst hu
      rw [Function.update_self]
      by_cases hc : c = child
      · rw [hc, Function.update_self, if_pos ⟨rfl, rfl⟩]
      · rw [Function.update_of_ne hc, if_neg fun hand => hc hand.2]
    · rw [Function.update_of_ne hu, if_neg fun hand => hu hand.1]
  constructor
  · intro u c hne
    rw [hparts] at hne
    split_ifs at hne with hand
    · exact hand.2 ▸ hchild
    · exact h.children u c hne
  · intro u hquiet
    have hu : u ≠ uri := fun heq => hquiet.1 (heq ▸ rfl)
    have hold : Coupled s.maps u := by
      apply h.coupled u
      refine ⟨?_, hquiet.2⟩
      rw [hpublishing]
      exact fun heq => by cases heq
    have hsame : (DiagnosticsRuns.publishParts s.maps uri child ⟨s.now, items⟩).parts u =
        s.maps.parts u := Function.update_of_ne hu ..
    constructor
    · rw [hsame]
      exact hold.present
    · intro ps hps
      show ps = concatDiagParts _ _
      rw [hsame]
      exact hold.merged ps hps
  · exact h.removed
  · intro u c p hp
    rw [hparts] at hp
    split_ifs at hp
    · cases hp
      exact ⟨h.completed u, Nat.lt_succ_self _⟩
    · obtain ⟨hcompleted, hlt⟩ := h.parts_time u c p hp
      exact ⟨hcompleted, Nat.lt_succ_of_lt hlt⟩
  · exact h.cache_time
  · intro u hu
    cases hu
    exact ⟨child, by rw [hparts, if_pos ⟨rfl, rfl⟩]; exact Option.some_ne_none _⟩
  · intro entry hentry
    exact Nat.lt_succ_of_lt (h.started entry hentry)
  · intro u
    exact (h.completed u).trans (Nat.le_succ _)

theorem Inv.publishCache (h : Inv s) (hguard : Guarded s .publishCache)
    (hstep : step s .publishCache = some t) : Inv t := by
  obtain ⟨uri, hpublishing, rfl⟩ := Option.map_eq_some_iff.1 hstep
  have hnot : ∀ entry ∈ s.invalidating, entry.1 ≠ uri := by
    rintro entry hentry rfl
    exact hguard entry hentry hpublishing
  -- What the entries of the cache become.
  have hself : (DiagnosticsRuns.publishCache s.maps uri).cache uri =
      some (concatDiagParts s.maps.children (s.maps.parts uri)) := Function.update_self ..
  have hother : ∀ u, u ≠ uri →
      (DiagnosticsRuns.publishCache s.maps uri).cache u = s.maps.cache u :=
    fun u hu => Function.update_of_ne hu ..
  constructor
  · exact h.children
  · intro u hquiet
    by_cases hu : u = uri
    · subst hu
      refine ⟨iff_of_true ?_ (h.published u hpublishing), fun ps hps => ?_⟩
      · show (DiagnosticsRuns.publishCache s.maps u).cache u ≠ none
        rw [hself]
        exact Option.some_ne_none _
      · have heq := hself.symm.trans hps
        exact (Option.some.inj heq).symm
    · have hold : Coupled s.maps u := by
        apply h.coupled u
        refine ⟨?_, hquiet.2⟩
        rw [hpublishing]
        exact fun heq => hu (Option.some.inj heq).symm
      refine ⟨?_, fun ps hps => hold.merged ps ((hother u hu).symm.trans hps)⟩
      show (DiagnosticsRuns.publishCache s.maps uri).cache u ≠ none ↔ _
      rw [hother u hu]
      exact hold.present
  · intro entry hentry
    exact (hother _ (hnot entry hentry)).trans (h.removed entry hentry)
  · exact h.parts_time
  · intro u ps hps p hp
    by_cases hu : u = uri
    · subst hu
      rw [← Option.some.inj (hself.symm.trans hps)] at hp
      obtain ⟨child, -, hchild⟩ := mem_concatDiagParts.1 hp
      exact (h.parts_time u child p hchild).1
    · exact h.cache_time u ps ((hother u hu).symm.trans hps) p hp
  · intro u hu
    cases hu
  · exact h.started
  · exact h.completed

theorem Inv.invalidateCache (h : Inv s) {uri : Uri}
    (hstep : step s (.invalidateCache uri) = some t) : Inv t := by
  cases hstep
  have hself : (s.maps.removeCache uri).cache uri = none := Function.update_self ..
  have hother : ∀ u, u ≠ uri → (s.maps.removeCache uri).cache u = s.maps.cache u :=
    fun u hu => Function.update_of_ne hu ..
  constructor
  · exact h.children
  · intro u hquiet
    have hu : u ≠ uri := fun heq => hquiet.2 _ (List.mem_cons_self ..) heq.symm
    have hold : Coupled s.maps u :=
      h.coupled u ⟨hquiet.1, fun entry hentry => hquiet.2 entry (List.mem_cons_of_mem _ hentry)⟩
    refine ⟨?_, fun ps hps => hold.merged ps ((hother u hu).symm.trans hps)⟩
    show (s.maps.removeCache uri).cache u ≠ none ↔ _
    rw [hother u hu]
    exact hold.present
  · intro entry hentry
    by_cases hu : entry.1 = uri
    · rw [hu]
      exact hself
    · rcases List.mem_cons.1 hentry with rfl | hentry
      · exact absurd rfl hu
      · exact (hother _ hu).trans (h.removed entry hentry)
  · intro u child p hp
    obtain ⟨hcompleted, hlt⟩ := h.parts_time u child p hp
    exact ⟨hcompleted, Nat.lt_succ_of_lt hlt⟩
  · intro u ps hps
    by_cases hu : u = uri
    · subst hu
      cases hself.symm.trans hps
    · exact h.cache_time u ps ((hother u hu).symm.trans hps)
  · exact h.published
  · intro entry hentry
    rcases List.mem_cons.1 hentry with rfl | hentry
    · exact Nat.lt_succ_self _
    · exact Nat.lt_succ_of_lt (h.started entry hentry)
  · intro u
    exact (h.completed u).trans (Nat.le_succ _)

theorem Inv.invalidateParts (h : Inv s) {uri : Uri} {start : Nat}
    (hstep : step s (.invalidateParts uri start) = some t) : Inv t := by
  simp only [step] at hstep
  split_ifs at hstep with hfree
  cases hstep
  obtain ⟨hpublishing, hentry⟩ := hfree
  have hnone : s.maps.cache uri = none := h.removed _ hentry
  have hself : ∀ child, (s.maps.removeParts uri).parts uri child = none := by
    intro child
    show Function.update s.maps.parts uri _ uri child = none
    rw [Function.update_self]
  have hother : ∀ u, u ≠ uri → (s.maps.removeParts uri).parts u = s.maps.parts u :=
    fun u hu => Function.update_of_ne hu ..
  constructor
  · intro u child hne
    by_cases hu : u = uri
    · subst hu
      exact absurd (hself child) hne
    · exact h.children u child (by rw [← hother u hu]; exact hne)
  · intro u hquiet
    by_cases hu : u = uri
    · subst hu
      refine ⟨iff_of_false (fun hne => hne hnone) ?_, fun ps hps => ?_⟩
      · rintro ⟨child, hne⟩
        exact hne (hself child)
      · cases hnone.symm.trans hps
    · have hold : Coupled s.maps u := by
        refine h.coupled u ⟨hquiet.1, fun entry hmem heq => ?_⟩
        have hne : entry ≠ (uri, start) := by
          rintro rfl
          exact hu heq.symm
        exact hquiet.2 entry ((List.mem_erase_of_ne hne).2 hmem) heq
      constructor
      · show s.maps.cache u ≠ none ↔ ∃ child, (s.maps.removeParts uri).parts u child ≠ none
        rw [hother u hu]
        exact hold.present
      · intro ps hps
        show ps = concatDiagParts _ ((s.maps.removeParts uri).parts u)
        rw [hother u hu]
        exact hold.merged ps hps
  · intro entry hmem
    exact h.removed entry (List.mem_of_mem_erase hmem)
  · intro u child p hp
    by_cases hu : u = uri
    · subst hu
      cases (hself child).symm.trans hp
    · show Function.update s.completed uri _ u ≤ _ ∧ _
      rw [Function.update_of_ne hu]
      exact h.parts_time u child p (by rw [← hother u hu]; exact hp)
  · intro u ps hps p hp
    by_cases hu : u = uri
    · subst hu
      cases hnone.symm.trans hps
    · show Function.update s.completed uri _ u ≤ _
      rw [Function.update_of_ne hu]
      exact h.cache_time u ps hps p hp
  · intro u hu
    cases hpublishing.symm.trans hu
  · intro entry hmem
    exact h.started entry (List.mem_of_mem_erase hmem)
  · intro u
    by_cases hu : u = uri
    · subst hu
      show Function.update s.completed u _ u ≤ _
      rw [Function.update_self]
      exact max_le (h.completed u) (h.started _ hentry).le
    · show Function.update s.completed uri _ u ≤ _
      rw [Function.update_of_ne hu]
      exact h.completed u

/-- What the death of a child leaves of an entry of the cache. -/
theorem dropAuxParts_cases (d : Diagnostics (Publication D)) (child : Nat) (uri : Uri) :
    d.parts uri child = none ∧ (d.dropAuxParts child).cache uri = d.cache uri ∨
      concatDiagParts d.children ((d.dropAuxParts child).parts uri) = [] ∧
        (d.dropAuxParts child).cache uri = none ∨
      d.parts uri child ≠ none ∧
        concatDiagParts d.children ((d.dropAuxParts child).parts uri) ≠ [] ∧
        (d.dropAuxParts child).cache uri =
          some (concatDiagParts d.children ((d.dropAuxParts child).parts uri)) := by
  simp only [Diagnostics.dropAuxParts]
  split_ifs with hnone hempty
  · exact .inl ⟨Option.isNone_iff_eq_none.1 hnone, rfl⟩
  · exact .inr (.inl ⟨List.isEmpty_iff.1 hempty, rfl⟩)
  · refine .inr (.inr ⟨fun heq => hnone (Option.isNone_iff_eq_none.2 heq), ?_, rfl⟩)
    exact fun heq => hempty (List.isEmpty_iff.2 heq)

theorem parts_of_dropAuxParts {d : Diagnostics (Publication D)} {child c : Nat} {uri : Uri}
    {p : Publication D} (h : (d.dropAuxParts child).parts uri c = some p) :
    d.parts uri c = some p := by
  by_cases hc : c = child
  · subst hc
    exact absurd (h.symm.trans (Function.update_self ..)) (Option.some_ne_none p)
  · exact (Function.update_of_ne hc ..).symm.trans h

/-- A document of which the dead child had no part keeps its parts. -/
theorem dropAuxParts_parts_of_none {d : Diagnostics (Publication D)} {child : Nat} {uri : Uri}
    (h : d.parts uri child = none) : (d.dropAuxParts child).parts uri = d.parts uri := by
  show Function.update (d.parts uri) child none = _
  rw [← h, Function.update_eq_self]

theorem Inv.auxDeath (h : Inv s) {child : Nat} (hguard : Guarded s (.auxDeath child))
    (hstep : step s (.auxDeath child) = some t) : Inv t := by
  simp only [step] at hstep
  split_ifs at hstep with hpublishing
  cases hstep
  have hchildren : ∀ uri c, (s.maps.dropAuxParts child).parts uri c ≠ none →
      c < s.maps.children := by
    intro uri c hne
    obtain ⟨p, hp⟩ := Option.ne_none_iff_exists'.1 hne
    apply h.children uri c
    rw [parts_of_dropAuxParts hp]
    exact Option.some_ne_none p
  constructor
  · exact hchildren
  · intro uri hquiet
    rcases dropAuxParts_cases s.maps child uri with
      ⟨hnone, hcache⟩ | ⟨hempty, hcache⟩ | ⟨-, hrest, hcache⟩
    · have hold := h.coupled uri hquiet
      have hparts := dropAuxParts_parts_of_none hnone
      constructor
      · show (s.maps.dropAuxParts child).cache uri ≠ none ↔
          ∃ c, (s.maps.dropAuxParts child).parts uri c ≠ none
        rw [hcache, hparts]
        exact hold.present
      · intro ps hps
        show ps = concatDiagParts s.maps.children ((s.maps.dropAuxParts child).parts uri)
        rw [hparts]
        exact hold.merged ps (hcache.symm.trans hps)
    · refine ⟨iff_of_false (fun hne => hne hcache) ?_, fun ps hps => ?_⟩
      · rintro ⟨c, hne⟩
        obtain ⟨p, hp⟩ := Option.ne_none_iff_exists'.1 hne
        have hmem := mem_concatDiagParts.2 ⟨c, hchildren uri c hne, hp⟩
        rw [hempty] at hmem
        cases hmem
      · cases hcache.symm.trans hps
    · constructor
      · refine iff_of_true ?_ ?_
        · show (s.maps.dropAuxParts child).cache uri ≠ none
          rw [hcache]
          exact Option.some_ne_none _
        · obtain ⟨p, hp⟩ := List.exists_mem_of_ne_nil _ hrest
          obtain ⟨c, -, hc⟩ := mem_concatDiagParts.1 hp
          exact ⟨c, fun heq => Option.some_ne_none p (hc.symm.trans heq)⟩
      · intro ps hps
        exact (Option.some.inj (hcache.symm.trans hps)).symm
  · intro entry hentry
    rcases dropAuxParts_cases s.maps child entry.1 with
      ⟨-, hcache⟩ | ⟨-, hcache⟩ | ⟨hsome, hrest, -⟩
    · exact hcache.trans (h.removed entry hentry)
    · exact hcache
    · exact absurd ⟨Option.isSome_iff_ne_none.2 hsome, hrest⟩ (hguard entry hentry)
  · intro uri c p hp
    exact h.parts_time uri c p (parts_of_dropAuxParts hp)
  · intro uri ps hps p hp
    rcases dropAuxParts_cases s.maps child uri with ⟨-, hcache⟩ | ⟨-, hcache⟩ | ⟨-, -, hcache⟩
    · exact h.cache_time uri ps (hcache.symm.trans hps) p hp
    · cases hcache.symm.trans hps
    · rw [← Option.some.inj (hcache.symm.trans hps)] at hp
      obtain ⟨c, -, hc⟩ := mem_concatDiagParts.1 hp
      exact (h.parts_time uri c p (parts_of_dropAuxParts hc)).1
  · intro uri huri
    cases hpublishing.symm.trans huri
  · exact h.started
  · exact h.completed

theorem Inv.of_step (h : Inv s) {a : Label D} (hguard : Guarded s a) (hstep : step s a = some t) :
    Inv t := by
  cases a with
  | publishParts child uri items => exact h.publishParts hstep
  | publishCache => exact h.publishCache hguard hstep
  | invalidateCache uri => exact h.invalidateCache hstep
  | invalidateParts uri start => exact h.invalidateParts hstep
  | auxDeath child => exact h.auxDeath hguard hstep

/-- In every run in which nothing is inserted in the cache for a document between the two halves
of an invalidation of it, the cache is what the parts give and nothing stale is served. -/
theorem consistent_of_run {children : Nat} {as : List (Label D)}
    (hrun : Run step Guarded (State.init children) as t) : Consistent t := by
  have hinv : Inv t := hrun.invariant (inv_init children)
    fun _ _ _ hinv hok hstep => hinv.of_step hok hstep
  exact hinv.consistent

/-! ## An invalidation and a publication -/

instance (s : State D) (child : Nat) (uri : Uri) : Decidable (Inserts s child uri) :=
  decidable_of_iff
    ((s.maps.parts uri child).isSome = true ∧ (concatDiagParts s.maps.children
      (Function.update (s.maps.parts uri) child none)).isEmpty = false)
    (and_congr Iff.rfl (by simp))

instance (s : State D) (a : Label D) : Decidable (Guarded s a) := by
  cases a <;> unfold Guarded <;> infer_instance

/-- Two children publish, the document is invalidated and published again, and the auxiliary server
ends. -/
theorem consistent_of_run_two : ∃ t : State Nat,
    (t.maps.cache ['a']).map (·.map Publication.items) = some [[3]] ∧ Consistent t := by
  let labels : List (Label Nat) := [.publishParts 0 ['a'] [1], .publishCache,
    .publishParts 1 ['a'] [2], .publishCache, .invalidateCache ['a'], .invalidateParts ['a'] 2,
    .publishParts 1 ['a'] [4], .publishCache, .publishParts 0 ['a'] [3], .publishCache,
    .auxDeath 1]
  let test (t : State Nat) : Bool :=
    (t.maps.cache ['a']).map (·.map Publication.items) = some [[3]]
  obtain ⟨t, hrun, ht⟩ := Run.exists_of_exec test
    (show (exec step Guarded (State.init 2) labels).any test = true by decide +kernel)
  exact ⟨t, of_decide_eq_true ht, consistent_of_run hrun⟩

/-- A publication that has written the parts writes the cache between the two halves of an
invalidation: it stays there, without parts. -/
theorem stale_entry : ¬ ∀ (children : Nat) (as : List (Label Nat)) (t : State Nat),
    Run step free (State.init children) as t → Consistent t := by
  intro h
  let labels : List (Label Nat) := [.publishParts 0 ['a'] [1], .invalidateCache ['a'],
    .publishCache, .invalidateParts ['a'] 1]
  let test (t : State Nat) : Bool :=
    t.completed ['a'] = 1 ∧ (t.maps.cache ['a']).map (·.map Publication.time) = some [0]
  obtain ⟨t, hrun, ht⟩ := Run.exists_of_exec test
    (show (exec step free (State.init 1) labels).any test = true by decide +kernel)
  obtain ⟨hcompleted, htimes⟩ := of_decide_eq_true ht
  obtain ⟨ps, hps, hmap⟩ := Option.map_eq_some_iff.1 htimes
  obtain ⟨p, rfl, htime⟩ := List.map_eq_singleton_iff.1 hmap
  have hfresh := (h 1 labels t hrun).fresh ['a'] _ hps p (List.mem_singleton_self p)
  rw [hcompleted, htime] at hfresh
  exact absurd hfresh (by decide)

end Vanyline.Sandbox.DiagnosticsRuns
