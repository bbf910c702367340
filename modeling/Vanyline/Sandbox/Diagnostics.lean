import Mathlib.Data.List.Basic
import Vanyline.Sandbox.Documents

/-!
# The diagnostics of a session

A session has a main server (child 0) and auxiliary ones (children 1, 2, …).
Each publishes its own diagnostics for a document.  The session keeps the last
publication of each child (`parts`) and, for its readers, the publications of all
children one after the other (`cache`).

The code caches the diagnostics of the publications in one list.  Here the
publications stay apart, so that one can ask where a diagnostic comes from.
-/

namespace Vanyline.Sandbox

/-- The two maps, for `children` servers and publications in `P`. -/
structure Diagnostics (P : Type) where
  children : Nat
  parts : Uri → Nat → Option P
  cache : Uri → Option (List P)

namespace Diagnostics

variable {P : Type}

def empty (children : Nat) : Diagnostics P := ⟨children, fun _ _ => none, fun _ => none⟩

variable (d : Diagnostics P) (uri : Uri)

/-- The publications in the order of the children. -/
def concatDiagParts (children : Nat) (parts : Nat → Option P) : List P :=
  (List.range children).filterMap parts

/-- A publication arrives. -/
def publish (child : Nat) (p : P) : Diagnostics P :=
  let parts := Function.update (d.parts uri) child (some p)
  { d with
    parts := Function.update d.parts uri parts
    cache := Function.update d.cache uri (some (concatDiagParts d.children parts)) }

/-- The first half of `invalidate_diagnostics`. -/
def removeCache : Diagnostics P := { d with cache := Function.update d.cache uri none }

/-- The second half of `invalidate_diagnostics`. -/
def removeParts : Diagnostics P :=
  { d with parts := Function.update d.parts uri fun _ => none }

/-- The end of an auxiliary server: its publications are dropped, and the cache of
every document that had one is computed again. -/
def dropAuxParts (child : Nat) : Diagnostics P where
  children := d.children
  parts uri := Function.update (d.parts uri) child none
  cache uri :=
    if (d.parts uri child).isNone then d.cache uri
    else
      let rest := concatDiagParts d.children (Function.update (d.parts uri) child none)
      if rest.isEmpty then none else some rest

theorem mem_concatDiagParts {children : Nat} {parts : Nat → Option P} {p : P} :
    p ∈ concatDiagParts children parts ↔ ∃ child < children, parts child = some p := by
  simp [concatDiagParts, List.mem_filterMap]

/-- There is something in every entry of the cache. -/
def NoEmptyEntry (d : Diagnostics P) : Prop := ∀ uri ps, d.cache uri = some ps → ps ≠ []

variable {d} in
theorem NoEmptyEntry.publish (h : d.NoEmptyEntry) {child : Nat} (hchild : child < d.children)
    (uri : Uri) (p : P) : (d.publish uri child p).NoEmptyEntry := by
  intro uri' ps hps
  by_cases heq : uri' = uri
  · subst heq
    simp only [Diagnostics.publish, Function.update_self, Option.some.injEq] at hps
    have hmem : p ∈ ps := hps ▸ mem_concatDiagParts.2 ⟨child, hchild, by simp⟩
    exact List.ne_nil_of_mem hmem
  · simp only [Diagnostics.publish, Function.update_of_ne heq] at hps
    exact h uri' ps hps

variable {d} in
theorem NoEmptyEntry.removeCache (h : d.NoEmptyEntry) (uri : Uri) :
    (d.removeCache uri).NoEmptyEntry := by
  intro uri' ps hps
  by_cases heq : uri' = uri
  · simp [Diagnostics.removeCache, heq] at hps
  · simp only [Diagnostics.removeCache, Function.update_of_ne heq] at hps
    exact h uri' ps hps

variable {d} in
theorem NoEmptyEntry.dropAuxParts (h : d.NoEmptyEntry) (child : Nat) :
    (d.dropAuxParts child).NoEmptyEntry := by
  intro uri ps hps
  simp only [Diagnostics.dropAuxParts] at hps
  split_ifs at hps with hnone hempty
  · exact h uri ps hps
  · rw [Option.some.injEq] at hps
    rw [← hps]
    simpa using hempty

/-! ## Publications with a property -/

/-- Every publication kept for the document has the property. -/
structure All (good : P → Prop) (d : Diagnostics P) (uri : Uri) : Prop where
  parts : ∀ child p, d.parts uri child = some p → good p
  cache : ∀ ps, d.cache uri = some ps → ∀ p ∈ ps, good p

variable {d uri} {good : P → Prop} {uri' : Uri}

theorem All.publish (h : All good d uri) {child : Nat} {p : P} (hp : uri' = uri → good p) :
    All good (d.publish uri' child p) uri := by
  by_cases heq : uri = uri'
  · subst heq
    have hparts : ∀ i q, Function.update (d.parts uri) child (some p) i = some q → good q := by
      intro i q hq
      by_cases hi : i = child
      · rw [hi, Function.update_self, Option.some.injEq] at hq
        exact hq ▸ hp rfl
      · rw [Function.update_of_ne hi] at hq
        exact h.parts i q hq
    constructor
    · intro i q hq
      simp only [Diagnostics.publish, Function.update_self] at hq
      exact hparts i q hq
    · intro ps hps q hq
      simp only [Diagnostics.publish, Function.update_self, Option.some.injEq] at hps
      rw [← hps] at hq
      obtain ⟨i, -, hi⟩ := mem_concatDiagParts.1 hq
      exact hparts i q hi
  · constructor
    · intro i q hq
      simp only [Diagnostics.publish, Function.update_of_ne heq] at hq
      exact h.parts i q hq
    · intro ps hps
      simp only [Diagnostics.publish, Function.update_of_ne heq] at hps
      exact h.cache ps hps

theorem All.removeCache (h : All good d uri) (uri' : Uri) : All good (d.removeCache uri') uri where
  parts := h.parts
  cache ps hps := by
    by_cases heq : uri = uri'
    · simp [Diagnostics.removeCache, heq] at hps
    · simp only [Diagnostics.removeCache, Function.update_of_ne heq] at hps
      exact h.cache ps hps

theorem All.removeParts (h : All good d uri) (uri' : Uri) : All good (d.removeParts uri') uri where
  parts i q hq := by
    by_cases heq : uri = uri'
    · simp [Diagnostics.removeParts, heq] at hq
    · simp only [Diagnostics.removeParts, Function.update_of_ne heq] at hq
      exact h.parts i q hq
  cache := h.cache

theorem All.dropAuxParts (h : All good d uri) (child : Nat) : All good (d.dropAuxParts child) uri := by
  have hparts : ∀ i q, Function.update (d.parts uri) child none i = some q → good q := by
    intro i q hq
    by_cases hi : i = child
    · simp [hi] at hq
    · rw [Function.update_of_ne hi] at hq
      exact h.parts i q hq
  refine ⟨hparts, fun ps hps q hq => ?_⟩
  simp only [Diagnostics.dropAuxParts] at hps
  split_ifs at hps
  · exact h.cache ps hps q hq
  · rw [Option.some.injEq] at hps
    rw [← hps] at hq
    obtain ⟨i, -, hi⟩ := mem_concatDiagParts.1 hq
    exact hparts i q hi

/-- When both halves of an invalidation have met an empty cache, nothing is kept. -/
theorem All.of_removeParts (hcache : d.cache uri = none) : All good (d.removeParts uri) uri where
  parts i q hq := by simp [Diagnostics.removeParts] at hq
  cache ps hps := by simp [Diagnostics.removeParts, hcache] at hps

end Diagnostics

end Vanyline.Sandbox
