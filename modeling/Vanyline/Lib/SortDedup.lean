import Mathlib.Data.List.Destutter
import Mathlib.Data.List.Sort

/-!
# Sorting by a key and merging neighbours

A list is sorted by a key, stably, and of neighbours with the same face the first is kept.  The face
of an entry is finer than its key: what has one face has one key.

* `sortDedup` is sorted by the key, and has the faces of the list.
* It has each face once exactly if no face of the list comes again behind another one of the same
  key (`nodup_sortDedup`).
-/

namespace Vanyline.Lib

variable {α κ φ : Type*}

section Neighbours

variable [DecidableEq φ]

theorem mem_destutter' {x a : φ} {l : List φ} : x ∈ l.destutter' (· ≠ ·) a ↔ x ∈ a :: l := by
  constructor
  · exact fun h => (List.destutter'_sublist _ _ _).subset h
  · induction l generalizing a with
    | nil => exact id
    | cons b l ih =>
      intro h
      by_cases hab : a = b
      · subst hab
        rw [List.destutter'_cons_neg _ (not_not.2 rfl)]
        rcases List.mem_cons.1 h with rfl | h
        · exact ih (List.mem_cons_self ..)
        · exact ih h
      · rw [List.destutter'_cons_pos _ hab]
        rcases List.mem_cons.1 h with rfl | h
        · exact List.mem_cons_self ..
        · exact List.mem_cons_of_mem _ (ih h)

/-- Merging neighbours loses nothing. -/
theorem mem_destutter {x : φ} {l : List φ} : x ∈ l.destutter (· ≠ ·) ↔ x ∈ l := by
  cases l with
  | nil => rfl
  | cons a l => exact mem_destutter'

theorem nodup_destutter' {a : φ} {l : List φ} : (l.destutter' (· ≠ ·) a).Nodup ↔
    ¬∃ x y, x ≠ y ∧ [x, y, x].Sublist (a :: l) := by
  induction l generalizing a with
  | nil =>
    refine iff_of_true (List.nodup_singleton a) ?_
    intro h
    rcases h with ⟨x, y, -, hsub⟩
    have hlen := hsub.length_le
    simp at hlen
  | cons b l ih =>
    by_cases hab : a = b
    · subst hab
      rw [List.destutter'_cons_neg _ (not_not.2 rfl), ih, not_iff_not]
      constructor
      · intro h
        rcases h with ⟨x, y, hne, hsub⟩
        exact ⟨x, y, hne, hsub.cons a⟩
      · intro h
        rcases h with ⟨x, y, hne, hsub⟩
        refine ⟨x, y, hne, ?_⟩
        -- only one of the two equal entries is used
        cases hsub with
        | cons _ hsub => exact hsub
        | cons_cons _ hsub =>
          cases hsub with
          | cons _ hsub => exact hsub.cons_cons a
          | cons_cons _ hsub => exact absurd rfl hne
    · rw [List.destutter'_cons_pos _ hab, List.nodup_cons, ih, mem_destutter', ← not_or,
        not_iff_not]
      constructor
      · intro h
        rcases h with hmem | ⟨x, y, hne, hsub⟩
        · have hmem := (List.mem_cons.1 hmem).resolve_left hab
          exact ⟨a, b, hab, ((List.singleton_sublist.2 hmem).cons_cons b).cons_cons a⟩
        · exact ⟨x, y, hne, hsub.cons a⟩
      · intro h
        rcases h with ⟨x, y, hne, hsub⟩
        cases hsub with
        | cons _ hsub => exact .inr ⟨x, y, hne, hsub⟩
        | cons_cons _ hsub => exact .inl (hsub.subset (by simp))

/-- Merging neighbours leaves each entry once exactly if none comes again behind another one. -/
theorem nodup_destutter {l : List φ} : (l.destutter (· ≠ ·)).Nodup ↔
    ¬∃ x y, x ≠ y ∧ [x, y, x].Sublist l := by
  cases l with
  | nil =>
    refine iff_of_true List.nodup_nil ?_
    intro h
    rcases h with ⟨x, y, -, hsub⟩
    cases hsub
  | cons a l => exact nodup_destutter'

end Neighbours

section ByKey

variable [LinearOrder κ] (key : α → κ)

/-- Sorted by the key; what has one key stays in order. -/
def sortByKey (l : List α) : List α := l.insertionSort fun a b => key a ≤ key b

instance total_key : Std.Total fun a b : α => key a ≤ key b := ⟨fun a b => le_total (key a) (key b)⟩

instance trans_key : IsTrans α fun a b => key a ≤ key b := ⟨fun _ _ _ => le_trans⟩

theorem pairwise_sortByKey (l : List α) :
    (sortByKey key l).Pairwise fun a b => key a ≤ key b :=
  List.pairwise_insertionSort _ l

theorem filter_sortByKey (l : List α) (k : κ) :
    (sortByKey key l).filter (fun a => key a = k) = l.filter fun a => key a = k := by
  have hpairwise : (l.filter fun a => key a = k).Pairwise fun a b => key a ≤ key b := by
    rw [List.pairwise_iff_forall_sublist]
    intro a b hsub
    have ha := List.of_mem_filter (hsub.subset (List.mem_cons_self ..))
    have hb := List.of_mem_filter (hsub.subset (List.mem_cons_of_mem _ (List.mem_cons_self ..)))
    rw [of_decide_eq_true ha, of_decide_eq_true hb]
  have hsub := (List.sublist_insertionSort (r := fun a b => key a ≤ key b) hpairwise
    List.filter_sublist).filter fun a => key a = k
  rw [List.filter_filter] at hsub
  simp only [Bool.and_self] at hsub
  refine (hsub.eq_of_length ?_).symm
  exact ((List.perm_insertionSort (fun a b => key a ≤ key b) l).filter _).length_eq.symm

/-- Entries of one key are in the sorted list as they are in the list. -/
theorem sublist_sortByKey {l c : List α} {k : κ} (hc : ∀ a ∈ c, key a = k) :
    c.Sublist (sortByKey key l) ↔ c.Sublist l := by
  have hself : c.filter (fun a => key a = k) = c :=
    List.filter_eq_self.2 fun a ha => decide_eq_true (hc a ha)
  constructor
  · intro hsub
    have hfilter := hsub.filter fun a => key a = k
    rw [hself, filter_sortByKey] at hfilter
    exact hfilter.trans List.filter_sublist
  · intro hsub
    have hfilter := hsub.filter fun a => key a = k
    rw [hself, ← filter_sortByKey key l k] at hfilter
    exact hfilter.trans List.filter_sublist

end ByKey

section Both

variable [LinearOrder κ] [DecidableEq φ] (key : α → κ) (face : α → φ)

/-- Sorted by the key, with the first of neighbours of one face. -/
def sortDedup (l : List α) : List α :=
  (sortByKey key l).destutter fun a b => face a ≠ face b

theorem pairwise_sortDedup (l : List α) :
    (sortDedup key face l).Pairwise fun a b => key a ≤ key b :=
  (pairwise_sortByKey key l).sublist (List.destutter_sublist _ _)

theorem map_sortDedup (l : List α) : (sortDedup key face l).map face =
    ((sortByKey key l).map face).destutter (· ≠ ·) :=
  List.map_destutter fun _ _ _ _ => Iff.rfl

theorem mem_map_sortDedup {l : List α} {x : φ} :
    x ∈ (sortDedup key face l).map face ↔ x ∈ l.map face := by
  rw [map_sortDedup, mem_destutter]
  exact ((List.perm_insertionSort _ l).map face).mem_iff

theorem mem_of_mem_sortDedup {l : List α} {a : α} (h : a ∈ sortDedup key face l) : a ∈ l :=
  (List.perm_insertionSort _ l).subset ((List.destutter_sublist _ _).subset h)

/-- A face comes again behind another one of the same key. -/
def Interleaved (l : List α) : Prop :=
  ∃ a b c, [a, b, c].Sublist l ∧ key a = key b ∧ face a = face c ∧ face a ≠ face b

theorem nodup_sortDedup (hkey : ∀ a b, face a = face b → key a = key b) (l : List α) :
    ((sortDedup key face l).map face).Nodup ↔ ¬Interleaved key face l := by
  rw [map_sortDedup, nodup_destutter, not_iff_not]
  constructor
  · intro h
    rcases h with ⟨x, y, hne, hsub⟩
    rcases List.sublist_map_iff.1 hsub with ⟨triple, htriple, heq⟩
    rcases List.map_eq_cons_iff.1 heq.symm with ⟨a, rest, rfl, ha, hrest⟩
    rcases List.map_eq_cons_iff.1 hrest with ⟨b, rest, rfl, hb, hrest⟩
    rcases List.map_eq_cons_iff.1 hrest with ⟨c, rest, rfl, hc, hrest⟩
    rcases List.map_eq_nil_iff.1 hrest with rfl
    have hac : key a = key c := hkey a c (ha.trans hc.symm)
    -- the keys are sorted, and so the one between is the same
    have hpairwise := (pairwise_sortByKey key l).sublist htriple
    have hab := List.rel_of_pairwise_cons hpairwise (List.mem_cons_self ..)
    have hbc := List.rel_of_pairwise_cons hpairwise.of_cons (List.mem_cons_self ..)
    have hkeys : key a = key b := le_antisymm hab (hac ▸ hbc)
    refine ⟨a, b, c, (sublist_sortByKey key (k := key a) ?_).1 htriple, hkeys,
      ha.trans hc.symm, by rw [ha, hb]; exact hne⟩
    intro d hd
    simp only [List.mem_cons, List.not_mem_nil, or_false] at hd
    rcases hd with rfl | rfl | rfl
    · rfl
    · exact hkeys.symm
    · exact hac.symm
  · intro h
    rcases h with ⟨a, b, c, hsub, hab, hac, hne⟩
    refine ⟨face a, face b, hne, ?_⟩
    have htriple : [a, b, c].Sublist (sortByKey key l) := by
      refine (sublist_sortByKey key (k := key a) ?_).2 hsub
      intro d hd
      simp only [List.mem_cons, List.not_mem_nil, or_false] at hd
      rcases hd with rfl | rfl | rfl
      · rfl
      · exact hab.symm
      · exact (hkey a _ hac).symm
    have hmap := htriple.map face
    rw [List.map_cons, List.map_cons, List.map_singleton, ← hac] at hmap
    exact hmap

end Both

end Vanyline.Lib
