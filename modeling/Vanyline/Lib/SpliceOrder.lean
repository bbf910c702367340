import Mathlib.Data.List.TakeWhile
import Vanyline.Lib.Splices

/-!
# Splices that begin at one place

Splices that are applied one after the other, from the last place to the first one, may begin at
one place: some insert there and one at most replaces a range.  What an insertion has put there is
then behind the place for those that follow it.

* `Places` divides the splices, in the order of their application, by their places.
* `leaves` is what the splices of a place make of the elements behind it, and `Settled` says that
  this is what is meant, in terms of the new and of the old elements only.
* `applyAll_eq_replaceAll_iff`: the list is the one that is meant exactly when every place is
  settled, as what a place comes to is never longer or shorter than it should be.
-/

namespace Vanyline.Lib.Splice

universe u

variable {α : Type u} {s r : Splice α} {splices group rest ahead behind others : List (Splice α)}
  {p q n : Nat} {xs ys old front : List α}

/-! ## One place -/

def inserts (s : Splice α) : Bool := decide (s.stop = s.start)

/-- The splices that begin at a place. -/
def beginning (splices : List (Splice α)) (p : Nat) : List (Splice α) :=
  splices.filter fun s => decide (s.start = p)

theorem beginning_append_left (h : ∀ t ∈ others, t.start ≠ p) :
    beginning (splices ++ others) p = beginning splices p := by
  have hnone : beginning others p = [] := List.filter_eq_nil_iff.2 fun t ht heq =>
    h t ht (of_decide_eq_true heq)
  rw [beginning, List.filter_append]
  exact (congrArg _ hnone).trans (List.append_nil _)

theorem beginning_append_right (h : ∀ s ∈ splices, s.start ≠ p) :
    beginning (splices ++ others) p = beginning others p := by
  have hnone : beginning splices p = [] := List.filter_eq_nil_iff.2 fun s hs heq =>
    h s hs (of_decide_eq_true heq)
  rw [beginning, List.filter_append]
  exact congrArg (· ++ _) hnone

/-- What the splices of a place make of the elements behind it. -/
def leaves (group : List (Splice α)) (ys : List α) : List α :=
  group.foldl (fun ys s => s.new ++ ys.drop (s.stop - s.start)) ys

/-- What `ahead` has inserted at a place in the opposite order, and what the others then do to it
and to the old elements, comes to the insertions in their order and the replacement. -/
def Keeps (xs : List α) (p : Nat) (ahead : List (Splice α)) : List (Splice α) → Prop
  | [] => ahead.reverse.flatMap new = ahead.flatMap new
  | r :: behind =>
    behind.reverse.flatMap new ++ r.new ++
        (ahead.reverse.flatMap new ++ (xs.drop p).take (r.stop - p)).drop (r.stop - p) =
      ahead.flatMap new ++ behind.flatMap new ++ r.new

def Settled (splices : List (Splice α)) (xs : List α) (p : Nat) : Prop :=
  Keeps xs p ((beginning splices p).takeWhile inserts) ((beginning splices p).dropWhile inserts)

instance [DecidableEq α] (xs : List α) (p : Nat) (ahead : List (Splice α)) :
    (rest : List (Splice α)) → Decidable (Keeps xs p ahead rest)
  | [] => inferInstanceAs (Decidable (_ = _))
  | _ :: _ => inferInstanceAs (Decidable (_ = _))

instance [DecidableEq α] (splices : List (Splice α)) (xs : List α) (p : Nat) :
    Decidable (Settled splices xs p) :=
  inferInstanceAs (Decidable (Keeps ..))

/-- Insertions at `p`, and among them one replacement at most; the range ends at `q`. -/
inductive AtPlace (p : Nat) : List (Splice α) → Nat → Prop
  | insertions {group : List (Splice α)} (h : ∀ s ∈ group, s.start = p ∧ s.stop = p) :
      AtPlace p group p
  | replacement {ahead behind : List (Splice α)} {r : Splice α}
      (hahead : ∀ s ∈ ahead, s.start = p ∧ s.stop = p) (hr : r.start = p) (hlt : p < r.stop)
      (hbehind : ∀ s ∈ behind, s.start = p ∧ s.stop = p) :
      AtPlace p (ahead ++ r :: behind) r.stop

theorem leaves_append (group others : List (Splice α)) (ys : List α) :
    leaves (group ++ others) ys = leaves others (leaves group ys) :=
  List.foldl_append

theorem leaves_cons (s : Splice α) (rest : List (Splice α)) (ys : List α) :
    leaves (s :: rest) ys = leaves rest (s.new ++ ys.drop (s.stop - s.start)) := rfl

/-- Each insertion comes in front of those before it. -/
theorem leaves_insertions (h : ∀ s ∈ group, s.start = p ∧ s.stop = p) (ys : List α) :
    leaves group ys = group.reverse.flatMap new ++ ys := by
  induction group generalizing ys with
  | nil => rfl
  | cons s group ih =>
      obtain ⟨hstart, hstop⟩ := h s (List.mem_cons_self ..)
      rw [leaves_cons, ih fun t ht => h t (List.mem_cons_of_mem _ ht), hstart, hstop, Nat.sub_self,
        List.drop_zero, List.reverse_cons, List.flatMap_append, List.flatMap_singleton,
        List.append_assoc]

theorem leaves_replacement (hahead : ∀ s ∈ ahead, s.start = p ∧ s.stop = p) (hr : r.start = p)
    (hbehind : ∀ s ∈ behind, s.start = p ∧ s.stop = p) (ys : List α) :
    leaves (ahead ++ r :: behind) ys =
      behind.reverse.flatMap new ++ r.new ++
        (ahead.reverse.flatMap new ++ ys).drop (r.stop - p) := by
  rw [leaves_append, leaves_insertions hahead, leaves_cons, leaves_insertions hbehind, hr,
    List.append_assoc]

theorem newAt_insertions (h : ∀ s ∈ group, s.start = p ∧ s.stop = p) :
    newAt group p = group.flatMap new := by
  have hinserted : (group.filter fun s => decide (s.start = p) && decide (s.stop = p)) = group := by
    refine List.filter_eq_self.2 fun s hs => ?_
    rw [decide_eq_true (h s hs).1, decide_eq_true (h s hs).2]
    rfl
  have hreplaced : (group.filter fun s => decide (s.start = p) && decide (p < s.stop)) = [] := by
    refine List.filter_eq_nil_iff.2 fun s hs hreplaced => ?_
    have hstop := (h s hs).2
    simp only [Bool.and_eq_true, decide_eq_true_eq] at hreplaced
    omega
  rw [newAt, insertedAt, replacedAt, hinserted, hreplaced, List.flatMap_nil, List.append_nil]

theorem insertedAt_append (splices others : List (Splice α)) (p : Nat) :
    insertedAt (splices ++ others) p = insertedAt splices p ++ insertedAt others p := by
  rw [insertedAt, List.filter_append, List.flatMap_append]
  rfl

theorem replacedAt_append (splices others : List (Splice α)) (p : Nat) :
    replacedAt (splices ++ others) p = replacedAt splices p ++ replacedAt others p := by
  rw [replacedAt, List.filter_append, List.flatMap_append]
  rfl

theorem within_insertions (h : ∀ s ∈ group, s.start = p ∧ s.stop = p) : Within p group := by
  intro s hs
  obtain ⟨hstart, hstop⟩ := h s hs
  omega

theorem newAt_replacement (hahead : ∀ s ∈ ahead, s.start = p ∧ s.stop = p) (hr : r.start = p)
    (hlt : p < r.stop) (hbehind : ∀ s ∈ behind, s.start = p ∧ s.stop = p) :
    newAt (ahead ++ r :: behind) p = ahead.flatMap new ++ behind.flatMap new ++ r.new := by
  have hr' : newAt (r :: behind) p = newAt behind p ++ r.new := by
    subst hr
    exact newAt_cons_replacement hlt (within_insertions hbehind)
  have hahead' : insertedAt ahead p = ahead.flatMap new := by
    rw [← newAt_of_within (within_insertions hahead), newAt_insertions hahead]
  rw [newAt, insertedAt_append, replacedAt_append, replacedAt_eq_nil (within_insertions hahead),
    List.nil_append, List.append_assoc, ← newAt, hr', newAt_insertions hbehind, hahead',
    List.append_assoc]

/-! ## What a place comes to -/

namespace AtPlace

theorem start_eq (h : AtPlace p group q) (hs : s ∈ group) : s.start = p := by
  cases h with
  | insertions h => exact (h s hs).1
  | replacement hahead hr hlt hbehind =>
      rcases List.mem_append.1 hs with hs | hs
      · exact (hahead s hs).1
      · rcases List.mem_cons.1 hs with rfl | hs
        · exact hr
        · exact (hbehind s hs).1

theorem le (h : AtPlace p group q) : p ≤ q := by
  cases h with
  | insertions h => exact Nat.le_refl p
  | replacement hahead hr hlt hbehind => exact Nat.le_of_lt hlt

/-- A range ends where that of the place does, or at the place. -/
theorem stop_le (h : AtPlace p group q) (hs : s ∈ group) : p ≤ s.stop ∧ s.stop ≤ q := by
  cases h with
  | insertions h => exact ⟨Nat.le_of_eq (h s hs).2.symm, Nat.le_of_eq (h s hs).2⟩
  | replacement hahead hr hlt hbehind =>
      rcases List.mem_append.1 hs with hs | hs
      · have hstop := (hahead s hs).2
        omega
      · rcases List.mem_cons.1 hs with rfl | hs
        · omega
        · have hstop := (hbehind s hs).2
          omega

/-- The range of the place is covered. -/
theorem covered_eq (h : AtPlace p group q) {i : Nat} (hi : p ≤ i) :
    covered group i = decide (i < q) := by
  rw [Bool.eq_iff_iff, covered, List.any_eq_true, decide_eq_true_eq]
  constructor
  · intro hcovers
    obtain ⟨s, hs, hcovers⟩ := hcovers
    have hstop := (h.stop_le hs).2
    simp only [Bool.and_eq_true, decide_eq_true_eq] at hcovers
    omega
  · intro hlt
    cases h with
    | insertions h => omega
    | replacement hahead hr hlt' hbehind =>
        refine ⟨_, List.mem_append_right _ (List.mem_cons_self ..), ?_⟩
        rw [hr, decide_eq_true hi, decide_eq_true hlt]
        rfl

theorem leaves_append_right (h : AtPlace p group q) (hold : old.length = q - p) (ys : List α) :
    leaves group (old ++ ys) = leaves group old ++ ys := by
  cases h with
  | insertions h => rw [leaves_insertions h, leaves_insertions h, List.append_assoc]
  | replacement hahead hr hlt hbehind =>
      rw [leaves_replacement hahead hr hbehind, leaves_replacement hahead hr hbehind,
        ← List.append_assoc _ old, List.drop_append_of_le_length, List.append_assoc _ _ ys]
      rw [List.length_append, hold]
      exact Nat.le_add_left ..

theorem length_leaves (h : AtPlace p group q) (hold : old.length = q - p) :
    (leaves group old).length = (newAt group p).length := by
  have hreverse : ∀ l : List (Splice α),
      (l.reverse.flatMap new).length = (l.flatMap new).length :=
    fun l => ((List.reverse_perm l).flatMap_right new).length_eq
  cases h with
  | insertions h =>
      rw [Nat.sub_self, List.length_eq_zero_iff] at hold
      rw [leaves_insertions h, newAt_insertions h, hold, List.append_nil, hreverse]
  | replacement hahead hr hlt hbehind =>
      rw [leaves_replacement hahead hr hbehind, newAt_replacement hahead hr hlt hbehind]
      simp only [List.length_append, List.length_drop, hreverse, hold]
      omega

/-- Being settled, said of what the place comes to. -/
theorem keeps_iff (h : AtPlace p group q) (hq : q ≤ xs.length) :
    Keeps xs p (group.takeWhile inserts) (group.dropWhile inserts) ↔
      leaves group ((xs.drop p).take (q - p)) = newAt group p := by
  have hinserts : ∀ {l : List (Splice α)}, (∀ s ∈ l, s.start = p ∧ s.stop = p) →
      ∀ s ∈ l, inserts s = true :=
    fun hl s hs => decide_eq_true ((hl s hs).2.trans (hl s hs).1.symm)
  cases h with
  | insertions h =>
      rw [List.takeWhile_eq_self_iff.2 (hinserts h), List.dropWhile_eq_nil_iff.2 (hinserts h),
        leaves_insertions h, newAt_insertions h, Nat.sub_self, List.take_zero, List.append_nil]
      exact Iff.rfl
  | @replacement ahead behind r hahead hr hlt hbehind =>
      have hnot : ¬ inserts r = true := by
        intro hinserts
        have hstop := of_decide_eq_true hinserts
        omega
      rw [List.takeWhile_append_of_pos (hinserts hahead), List.takeWhile_cons_of_neg hnot,
        List.append_nil, List.dropWhile_append_of_pos (hinserts hahead),
        List.dropWhile_cons_of_neg hnot, leaves_replacement hahead hr hbehind,
        newAt_replacement hahead hr hlt hbehind]
      exact Iff.rfl

end AtPlace

/-! ## The places in the order of application -/

/-- Splices of the places below `n`, from the last place to the first one. -/
inductive Places : Nat → List (Splice α) → Prop
  | nil (n : Nat) : Places n []
  | cons {n p q : Nat} {group rest : List (Splice α)} (hgroup : AtPlace p group q) (hq : q ≤ n)
      (hlt : ∀ t ∈ rest, t.start < p) (hrest : Places p rest) : Places n (group ++ rest)

/-- The splices that begin at one place, when their ranges do not overlap. -/
theorem exists_atPlace (hstart : ∀ s ∈ group, s.start = p) (hp : p ≤ n)
    (hwithin : Within n group)
    (hdisjoint : group.Pairwise fun s t => s.stop ≤ t.start ∨ t.stop ≤ s.start) :
    ∃ q, AtPlace p group q ∧ q ≤ n := by
  by_cases hr : ∃ r ∈ group, p < r.stop
  · obtain ⟨r, hr, hlt⟩ := hr
    obtain ⟨ahead, behind, rfl⟩ := List.append_of_mem hr
    obtain ⟨-, hcons, hcross⟩ := List.pairwise_append.1 hdisjoint
    have hbehind := (List.pairwise_cons.1 hcons).1
    refine ⟨r.stop, .replacement ?_ (hstart r hr) hlt ?_, (hwithin r hr).2⟩
    · intro s hs
      have hmem : s ∈ ahead ++ r :: behind := List.mem_append_left _ hs
      have hs' := hstart s hmem
      have hle := (hwithin s hmem).1
      have hr' := hstart r hr
      have happart := hcross s hs r (List.mem_cons_self ..)
      omega
    · intro s hs
      have hmem : s ∈ ahead ++ r :: behind :=
        List.mem_append_right _ (List.mem_cons_of_mem _ hs)
      have hs' := hstart s hmem
      have hle := (hwithin s hmem).1
      have hr' := hstart r hr
      have happart := hbehind s hs
      omega
  · refine ⟨p, .insertions fun s hs => ?_, hp⟩
    have hs' := hstart s hs
    have hle := (hwithin s hs).1
    have hnot : ¬ p < s.stop := fun hlt => hr ⟨s, hs, hlt⟩
    omega

/-- The splices that are applied first begin at one place. -/
theorem exists_first_place (s : Splice α)
    (hdesc : (s :: rest).Pairwise fun s t => t.start ≤ s.start) :
    ∃ group others, s :: rest = group ++ others ∧ s ∈ group ∧ (∀ t ∈ group, t.start = s.start) ∧
      ∀ t ∈ others, t.start < s.start := by
  induction rest generalizing s with
  | nil => exact ⟨[s], [], rfl, List.mem_singleton_self s, by simp, by simp⟩
  | cons u rest ih =>
      obtain ⟨hfirst, hrest⟩ := List.pairwise_cons.1 hdesc
      have hu := hfirst u (List.mem_cons_self ..)
      rcases Nat.lt_or_eq_of_le hu with hlt | heq
      · refine ⟨[s], u :: rest, rfl, List.mem_singleton_self s, by simp, ?_⟩
        intro t ht
        rcases List.mem_cons.1 ht with rfl | ht
        · exact hlt
        · exact Nat.lt_of_le_of_lt ((List.pairwise_cons.1 hrest).1 t ht) hlt
      · obtain ⟨group, others, hdivide, -, hgroup, hothers⟩ := ih u hrest
        refine ⟨s :: group, others, by rw [hdivide, List.cons_append], List.mem_cons_self .., ?_,
          fun t ht => heq ▸ hothers t ht⟩
        intro t ht
        rcases List.mem_cons.1 ht with rfl | ht
        · rfl
        · exact (hgroup t ht).trans heq

/-- A range is settled within the elements in front of its end. -/
theorem settled_take (h : ∀ s ∈ splices, s.stop ≤ n) :
    Settled splices (xs.take n) p ↔ Settled splices xs p := by
  have hmem : ∀ s ∈ (beginning splices p).dropWhile inserts, s.stop ≤ n := fun s hs =>
    h s (List.mem_filter.1 ((List.dropWhile_sublist inserts).subset hs)).1
  rw [Settled, Settled]
  revert hmem
  generalize (beginning splices p).dropWhile inserts = others
  intro hmem
  cases others with
  | nil => exact Iff.rfl
  | cons r behind =>
      have hr := hmem r (List.mem_cons_self ..)
      have hold : ((xs.take n).drop p).take (r.stop - p) = (xs.drop p).take (r.stop - p) := by
        rw [List.drop_take, List.take_take, Nat.min_eq_left (Nat.sub_le_sub_right hr p)]
      rw [Keeps, Keeps, hold]

theorem places_of_sorted (hdesc : splices.Pairwise fun s t => t.start ≤ s.start)
    (hwithin : Within n splices)
    (hdisjoint : splices.Pairwise fun s t => s.stop ≤ t.start ∨ t.stop ≤ s.start) :
    Places n splices := by
  induction hlength : splices.length using Nat.strong_induction_on generalizing n splices with
  | _ length ih =>
      cases splices with
      | nil => exact .nil n
      | cons s more =>
          obtain ⟨group, rest, hdivide, hs, hstart, hlt⟩ := exists_first_place s hdesc
          rw [hdivide] at hdesc hwithin hdisjoint hlength ⊢
          obtain ⟨-, hdescRest, -⟩ := List.pairwise_append.1 hdesc
          obtain ⟨hdisjointGroup, hdisjointRest, hcross⟩ := List.pairwise_append.1 hdisjoint
          have hsWithin := hwithin s (List.mem_append_left _ hs)
          obtain ⟨q, hplace, hq⟩ := exists_atPlace hstart (hsWithin.1.trans hsWithin.2)
            (fun t ht => hwithin t (List.mem_append_left _ ht)) hdisjointGroup
          have hwithinRest : Within s.start rest := by
            intro t ht
            have ht' := hwithin t (List.mem_append_right _ ht)
            have hapart := hcross s hs t ht
            have htlt := hlt t ht
            omega
          have hshorter : rest.length < length := by
            have hpos := List.length_pos_of_mem hs
            rw [List.length_append] at hlength
            omega
          exact .cons hplace hq hlt (ih _ hshorter hdescRest hwithinRest hdisjointRest rfl)

/-- The last place and those in front of it. -/
theorem AtPlace.settled_append_iff (hgroup : AtPlace p group q) (hlt : ∀ t ∈ rest, t.start < p) :
    (∀ s ∈ group ++ rest, Settled (group ++ rest) xs s.start) ↔
      Keeps xs p (group.takeWhile inserts) (group.dropWhile inserts) ∧
        ∀ t ∈ rest, Settled rest xs t.start := by
  have hsame : beginning (group ++ rest) p = group := by
    rw [beginning_append_left fun t ht => Nat.ne_of_lt (hlt t ht)]
    exact List.filter_eq_self.2 fun s hs => decide_eq_true (hgroup.start_eq hs)
  have hothers : ∀ t ∈ rest, Settled (group ++ rest) xs t.start ↔ Settled rest xs t.start := by
    intro t ht
    rw [Settled, Settled, beginning_append_right]
    intro s hs
    rw [hgroup.start_eq hs]
    exact Nat.ne_of_gt (hlt t ht)
  rw [List.forall_mem_append, forall₂_congr hothers]
  refine and_congr_left fun _ => ⟨fun hsettled => ?_, fun hkeeps s hs => ?_⟩
  · cases hcase : group with
    | nil => exact rfl
    | cons s more =>
        have hs : s ∈ group := hcase ▸ List.mem_cons_self ..
        have hkeeps := hsettled s hs
        rw [hgroup.start_eq hs, Settled, hsame, hcase] at hkeeps
        exact hkeeps
  · rw [hgroup.start_eq hs, Settled, hsame]
    exact hkeeps

theorem places_descending (hwithin : Within n splices)
    (hdisjoint : splices.Pairwise fun s t => s.stop ≤ t.start ∨ t.stop ≤ s.start) :
    Places n (descending start splices) := by
  refine places_of_sorted (pairwise_descending start splices) ?_ ?_
  · exact fun s hs => hwithin s (mem_descending.1 hs)
  · refine pairwise_descending_iff.2 (hdisjoint.imp fun {s t} h => ?_)
    split_ifs
    · exact h
    · exact h.symm

namespace Places

theorem stop_le (h : Places n splices) : ∀ s ∈ splices, s.start ≤ s.stop ∧ s.stop ≤ n := by
  induction h with
  | nil n => exact fun s hs => absurd hs List.not_mem_nil
  | cons hgroup hq hlt hrest ih =>
      intro s hs
      rcases List.mem_append.1 hs with hs | hs
      · have hstop := hgroup.stop_le hs
        rw [hgroup.start_eq hs]
        omega
      · have hstop := ih s hs
        have hle := hgroup.le
        omega

end Places

/-! ## Place after place -/

theorem applyAll_divide (splices others : List (Splice α)) (xs : List α) :
    applyAll (splices ++ others) xs = applyAll others (applyAll splices xs) :=
  List.foldl_append

/-- In a list that goes on behind `front`, the splices of the place behind it. -/
theorem applyAll_place (h : ∀ s ∈ group, s.start = front.length ∧ s.start ≤ s.stop) (ys : List α) :
    applyAll group (front ++ ys) = front ++ leaves group ys := by
  induction group generalizing ys with
  | nil => rfl
  | cons s group ih =>
      obtain ⟨hstart, hle⟩ := h s (List.mem_cons_self ..)
      have happly : s.apply (front ++ ys) = front ++ (s.new ++ ys.drop (s.stop - s.start)) := by
        rw [apply, hstart, List.take_left, List.append_assoc, List.drop_append,
          List.drop_eq_nil_of_le (hstart ▸ hle), List.nil_append]
      show applyAll group (s.apply (front ++ ys)) = _
      rw [happly, ih fun t ht => h t (List.mem_cons_of_mem _ ht)]
      rfl

section Step

variable (hgroup : AtPlace p group q) (hq : q ≤ xs.length)
include hgroup hq

theorem AtPlace.length_old : ((xs.drop p).take (q - p)).length = q - p := by
  have hp := hgroup.le
  rw [List.length_take, List.length_drop]
  omega

/-- The splices of a place change its range only. -/
theorem AtPlace.applyAll_eq (ys : List α) :
    applyAll group (xs ++ ys) =
      xs.take p ++ (leaves group ((xs.drop p).take (q - p)) ++ xs.drop q ++ ys) := by
  have hp := hgroup.le
  have hlength : (xs.take p).length = p := List.length_take_of_le (hp.trans hq)
  have hxs : xs = xs.take p ++ ((xs.drop p).take (q - p) ++ xs.drop q) := by
    have hdrop : xs.drop q = (xs.drop p).drop (q - p) := by
      rw [List.drop_drop, Nat.add_sub_cancel' hp]
    rw [hdrop, List.take_append_drop, List.take_append_drop]
  conv_lhs => rw [hxs, List.append_assoc, List.append_assoc]
  rw [applyAll_place, hgroup.leaves_append_right (hgroup.length_old hq), List.append_assoc]
  intro s hs
  have hs' := hgroup.stop_le hs
  rw [hlength, hgroup.start_eq hs]
  exact ⟨rfl, hs'.1⟩

theorem replaceAll_append (hlt : ∀ t ∈ rest, t.start < p) (hrest : Places p rest) :
    replaceAll (group ++ rest) xs =
      replaceAll rest (xs.take p) ++ (newAt group p ++ xs.drop q) := by
  have hp := hgroup.le
  have hlength : (xs.take p).length = p := List.length_take_of_le (hp.trans hq)
  have hcovered : ∀ i, covered (group ++ rest) i = (covered group i || covered rest i) :=
    fun i => List.any_append
  have hnew : newAt (group ++ rest) p = newAt group p :=
    newAt_congr (beginning_append_left fun t ht => Nat.ne_of_lt (hlt t ht))
  have hnone : newAt rest p = [] := newAt_eq_nil fun t ht => Nat.ne_of_lt (hlt t ht)
  have hsplit : replaceAll (group ++ rest) xs =
      shown rest 0 (xs.take p) ++ (newAt (group ++ rest) p ++ xs.drop q) := by
    refine replaceAll_split hp hq ?_ ?_ ?_
    · intro i hi
      refine ⟨newAt_congr (beginning_append_right fun s hs => ?_), ?_⟩
      · rw [hgroup.start_eq hs]
        exact Nat.ne_of_gt hi
      · have hgroup' : covered group i = false := by
          rw [covered, List.any_eq_false]
          intro s hs
          rw [hgroup.start_eq hs, decide_eq_false (Nat.not_le_of_lt hi)]
          exact Bool.false_ne_true
        rw [hcovered, hgroup', Bool.false_or]
    · intro i hi
      apply newAt_eq_nil
      intro t ht
      rcases List.mem_append.1 ht with ht | ht
      · rw [hgroup.start_eq ht]
        exact Nat.ne_of_lt hi
      · have ht := hlt t ht
        omega
    · intro i hi
      rw [hcovered, hgroup.covered_eq hi, covered_eq_false hrest.stop_le hi, Bool.or_false]
  rw [hsplit, hnew, replaceAll, hlength, hnone, List.append_nil]

end Step

namespace Places

/-- What is behind the places stays. -/
theorem applyAll_append (h : Places n splices) (hn : n ≤ xs.length) (ys : List α) :
    applyAll splices (xs ++ ys) = applyAll splices xs ++ ys := by
  induction h generalizing xs ys with
  | nil n => rfl
  | @cons n p q group rest hgroup hq hlt hrest ih =>
      have hq' := hq.trans hn
      have hself := hgroup.applyAll_eq hq' []
      have hp : p ≤ (xs.take p).length :=
        Nat.le_of_eq (List.length_take_of_le (hgroup.le.trans hq')).symm
      rw [List.append_nil, List.append_nil] at hself
      rw [applyAll_divide, applyAll_divide, hgroup.applyAll_eq hq', hself, ih hp, ih hp]
      simp only [List.append_assoc]

/-- One place and those in front of it. -/
theorem applyAll_cons (hgroup : AtPlace p group q) (hq : q ≤ xs.length) (hrest : Places p rest) :
    applyAll (group ++ rest) xs =
      applyAll rest (xs.take p) ++
        (leaves group ((xs.drop p).take (q - p)) ++ xs.drop q) := by
  have hself := hgroup.applyAll_eq hq []
  rw [List.append_nil, List.append_nil] at hself
  rw [applyAll_divide, hself, hrest.applyAll_append]
  exact Nat.le_of_eq (List.length_take_of_le (hgroup.le.trans hq)).symm

theorem length_applyAll (h : Places n splices) (hn : n ≤ xs.length) :
    (applyAll splices xs).length = (replaceAll splices xs).length := by
  induction h generalizing xs with
  | nil n => rw [replaceAll_nil]; rfl
  | @cons n p q group rest hgroup hq hlt hrest ih =>
      have hq' := hq.trans hn
      have hp : p ≤ (xs.take p).length :=
        Nat.le_of_eq (List.length_take_of_le (hgroup.le.trans hq')).symm
      rw [applyAll_cons hgroup hq' hrest, replaceAll_append hgroup hq' hlt hrest,
        List.length_append, List.length_append, List.length_append, List.length_append, ih hp,
        hgroup.length_leaves (hgroup.length_old hq')]

/-- The list is the one that is meant exactly when every place is settled. -/
theorem applyAll_eq_iff (h : Places n splices) (hn : n ≤ xs.length) :
    applyAll splices xs = replaceAll splices xs ↔ ∀ s ∈ splices, Settled splices xs s.start := by
  induction h generalizing xs with
  | nil n =>
      rw [replaceAll_nil]
      exact iff_of_true rfl fun s hs => absurd hs List.not_mem_nil
  | @cons n p q group rest hgroup hq hlt hrest ih =>
      have hq' := hq.trans hn
      have hp : p ≤ (xs.take p).length :=
        Nat.le_of_eq (List.length_take_of_le (hgroup.le.trans hq')).symm
      have hparts : applyAll (group ++ rest) xs = replaceAll (group ++ rest) xs ↔
          leaves group ((xs.drop p).take (q - p)) = newAt group p ∧
            applyAll rest (xs.take p) = replaceAll rest (xs.take p) := by
        rw [applyAll_cons hgroup hq' hrest, replaceAll_append hgroup hq' hlt hrest]
        constructor
        · intro heq
          obtain ⟨hfront, hback⟩ := List.append_inj heq (hrest.length_applyAll hp)
          exact ⟨List.append_cancel_right hback, hfront⟩
        · intro hboth
          rw [hboth.1, hboth.2]
      have hothers : ∀ t ∈ rest,
          Settled rest (xs.take p) t.start ↔ Settled rest xs t.start := fun t _ =>
        settled_take fun s hs => (hrest.stop_le s hs).2
      rw [hparts, ih hp, hgroup.settled_append_iff hlt, hgroup.keeps_iff hq']
      exact and_congr_right fun _ => forall₂_congr hothers

end Places

/-! ## Any order of the array -/

theorem beginning_descending (splices : List (Splice α)) (p : Nat) :
    beginning (descending start splices) p = beginning splices p := by
  refine filter_descending fun a _ b _ ha hb => ?_
  rw [of_decide_eq_true ha, of_decide_eq_true hb]

theorem settled_descending :
    (∀ s ∈ descending start splices, Settled (descending start splices) xs s.start) ↔
      ∀ s ∈ splices, Settled splices xs s.start := by
  refine forall_congr' fun s => ?_
  rw [mem_descending, Settled, beginning_descending, Settled]

/-- Splices of ranges that do not overlap, sorted and applied one after the other, give the list
that is meant exactly when every place is settled. -/
theorem applyAll_eq_replaceAll_iff (hwithin : Within xs.length splices)
    (hdisjoint : splices.Pairwise fun s t => s.stop ≤ t.start ∨ t.stop ≤ s.start) :
    applyAll (descending start splices) xs = replaceAll splices xs ↔
      ∀ s ∈ splices, Settled splices xs s.start := by
  have hplaces := places_descending hwithin hdisjoint
  rw [← replaceAll_congr (beginning_descending splices), hplaces.applyAll_eq_iff (Nat.le_refl _),
    settled_descending]

/-! ## Other elements -/

section Map

universe v

variable {β : Type v} (f : α → β)

def map (s : Splice α) : Splice β := ⟨s.start, s.stop, s.new.map f⟩

theorem flatMap_map_new (l : List (Splice α)) :
    (l.map (map f)).flatMap new = (l.flatMap new).map f := by
  rw [List.flatMap_map, List.map_flatMap]
  rfl

theorem replaceAll_map (splices : List (Splice α)) (xs : List α) :
    replaceAll (splices.map (map f)) (xs.map f) = (replaceAll splices xs).map f := by
  have hnew : ∀ p, newAt (splices.map (map f)) p = (newAt splices p).map f := by
    intro p
    rw [newAt, insertedAt, replacedAt, List.filter_map, List.filter_map, flatMap_map_new,
      flatMap_map_new, ← List.map_append]
    rfl
  have hcovered : ∀ p, covered (splices.map (map f)) p = covered splices p := by
    intro p
    rw [covered, List.any_map]
    rfl
  have hshown : ∀ p, shown (splices.map (map f)) p (xs.map f) = (shown splices p xs).map f := by
    intro p
    induction xs generalizing p with
    | nil => rfl
    | cons x xs ih =>
        rw [List.map_cons, shown, shown, hnew, hcovered, ih, List.map_append, List.map_append]
        split_ifs <;> rfl
  rw [replaceAll, replaceAll, hshown, List.length_map, hnew, List.map_append]

theorem Settled.map (h : Settled splices xs p) :
    Settled (splices.map (Splice.map f)) (xs.map f) p := by
  have hbeginning : beginning (splices.map (Splice.map f)) p =
      (beginning splices p).map (Splice.map f) := List.filter_map ..
  have hkeeps : ∀ ahead others : List (Splice α), Keeps xs p ahead others →
      Keeps (xs.map f) p (ahead.map (Splice.map f)) (others.map (Splice.map f)) := by
    intro ahead others hkeeps
    cases others with
    | nil =>
        show (ahead.map (Splice.map f)).reverse.flatMap new = (ahead.map (Splice.map f)).flatMap new
        rw [← List.map_reverse, flatMap_map_new, flatMap_map_new]
        exact congrArg (List.map f) hkeeps
    | cons r behind =>
        have hmapped := congrArg (List.map f) hkeeps
        simp only [List.map_append, List.map_drop, List.map_take, ← flatMap_map_new,
          List.map_reverse] at hmapped
        exact hmapped
  rw [Settled, hbeginning, List.takeWhile_map, List.dropWhile_map]
  exact hkeeps _ _ h

end Map

end Vanyline.Lib.Splice
