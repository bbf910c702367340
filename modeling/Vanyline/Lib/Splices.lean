import Mathlib.Data.List.Sort

/-!
# Replacing several ranges of a list

A splice replaces a range of places by other elements.  Several splices of one list can be
meant at once (`replaceAll`), or they are applied one after the other, each to what the one
before has left (`applyAll`).

* `descending` sorts by a number, the greatest first, and keeps the order of equal ones.
  `filter_descending` and `pairwise_descending_iff` say so.
* `applyAll_append` says that splices of the first part of a list leave the rest alone.
* `replaceAll_cons` takes off the splice that is behind all others.
* `applyAll_eq_replaceAll` is what the two ways have in common: from the last splice to the
  first one, when no two of them insert at one place, both give the same list.
-/

namespace Vanyline.Lib

universe u v

/-! ## Sorting by a number -/

section Sorting

variable {β : Type u}

/-- The greatest numbers first; equal ones stay in their order. -/
def descending (key : β → Nat) (l : List β) : List β :=
  l.insertionSort fun a b => key b ≤ key a

variable {key : β → Nat} {l : List β}

theorem mem_descending {a : β} : a ∈ descending key l ↔ a ∈ l := List.mem_insertionSort _

theorem descending_cons (a : β) (l : List β) :
    descending key (a :: l) =
      (descending key l).orderedInsert (fun a b => key b ≤ key a) a := rfl

theorem pairwise_descending (key : β → Nat) (l : List β) :
    (descending key l).Pairwise fun a b => key b ≤ key a := by
  have htotal : Std.Total fun a b : β => key b ≤ key a := ⟨fun a b => Nat.le_total ..⟩
  have htrans : IsTrans β fun a b => key b ≤ key a := ⟨fun _ _ _ hab hbc => hbc.trans hab⟩
  exact List.pairwise_insertionSort _ l

theorem map_descending {γ : Type v} {key' : γ → Nat} {f : β → γ}
    (h : ∀ a ∈ l, ∀ b ∈ l, key b ≤ key a ↔ key' (f b) ≤ key' (f a)) :
    (descending key l).map f = descending key' (l.map f) :=
  List.map_insertionSort _ _ f l h

/-- Elements with the same number are kept in their order. -/
theorem filter_descending {p : β → Bool}
    (h : ∀ a ∈ l, ∀ b ∈ l, p a = true → p b = true → key a ≤ key b) :
    (descending key l).filter p = l.filter p := by
  have hinsert : ∀ (a : β) (sorted : List β),
      (∀ b ∈ sorted, p a = true → p b = true → key b ≤ key a) →
      (sorted.orderedInsert (fun a b => key b ≤ key a) a).filter p = (a :: sorted).filter p := by
    intro a sorted hsorted
    induction sorted with
    | nil => rfl
    | cons b sorted ih =>
        rw [List.orderedInsert_cons]
        split_ifs with hle
        · rfl
        · have hrest := ih fun c hc => hsorted c (List.mem_cons_of_mem _ hc)
          have hb := hsorted b (List.mem_cons_self ..)
          rw [List.filter_cons, hrest, List.filter_cons, List.filter_cons, List.filter_cons]
          by_cases hpa : p a = true
          · have hpb : ¬p b = true := fun hpb => hle (hb hpa hpb)
            rw [if_neg hpb, if_neg hpb]
          · rw [if_neg hpa, if_neg hpa]
  induction l with
  | nil => rfl
  | cons a l ih =>
      have hl := ih fun b hb c hc => h b (List.mem_cons_of_mem _ hb) c (List.mem_cons_of_mem _ hc)
      rw [descending_cons, hinsert, List.filter_cons, hl, List.filter_cons]
      intro b hb hpa hpb
      exact h b (List.mem_cons_of_mem _ (mem_descending.1 hb)) a (List.mem_cons_self ..) hpb hpa

theorem pairwise_descending_iff {q : β → β → Prop} :
    (descending key l).Pairwise q ↔
      l.Pairwise fun a b => if key b ≤ key a then q a b else q b a := by
  have hinsert : ∀ (a : β) (sorted : List β), (sorted.Pairwise fun a b => key b ≤ key a) →
      ((sorted.orderedInsert (fun a b => key b ≤ key a) a).Pairwise q ↔
        (∀ b ∈ sorted, if key b ≤ key a then q a b else q b a) ∧ sorted.Pairwise q) := by
    intro a sorted hsorted
    induction sorted with
    | nil => simp
    | cons b sorted ih =>
        rw [List.pairwise_cons] at hsorted
        rw [List.orderedInsert_cons]
        split_ifs with hle
        · -- `a` comes in front of all
          have hall : ∀ c ∈ b :: sorted, key c ≤ key a := by
            intro c hc
            rcases List.mem_cons.1 hc with rfl | hc
            · exact hle
            · exact (hsorted.1 c hc).trans hle
          rw [List.pairwise_cons]
          refine and_congr_left fun _ => forall₂_congr fun c hc => ?_
          rw [if_pos (hall c hc)]
        · rw [List.pairwise_cons, ih hsorted.2, List.forall_mem_cons, if_neg hle,
            List.pairwise_cons]
          constructor
          · rintro ⟨hb, hrest, hpair⟩
            refine ⟨⟨hb a ((List.mem_orderedInsert _).2 (.inl rfl)), hrest⟩, fun c hc => ?_, hpair⟩
            exact hb c ((List.mem_orderedInsert _).2 (.inr hc))
          · rintro ⟨⟨hb, hrest⟩, hpair, hpairs⟩
            refine ⟨fun c hc => ?_, hrest, hpairs⟩
            rcases (List.mem_orderedInsert _).1 hc with rfl | hc
            · exact hb
            · exact hpair c hc
  induction l with
  | nil => exact iff_of_true .nil .nil
  | cons a l ih =>
      rw [descending_cons, hinsert a _ (pairwise_descending key l), List.pairwise_cons]
      refine and_congr (forall_congr' fun b => ?_) ih
      rw [mem_descending]

end Sorting

/-- The elements `new` in place of those from `start` on and before `stop`. -/
structure Splice (α : Type u) where
  start : Nat
  stop : Nat
  new : List α

namespace Splice

variable {α : Type u}

def apply (splice : Splice α) (xs : List α) : List α :=
  xs.take splice.start ++ splice.new ++ xs.drop splice.stop

/-- One splice after the other. -/
def applyAll (splices : List (Splice α)) (xs : List α) : List α :=
  splices.foldl (fun xs splice => splice.apply xs) xs

/-- What is inserted in front of a place. -/
def insertedAt (splices : List (Splice α)) (p : Nat) : List α :=
  (splices.filter fun s => decide (s.start = p) && decide (s.stop = p)).flatMap new

/-- What replaces the range that begins at a place. -/
def replacedAt (splices : List (Splice α)) (p : Nat) : List α :=
  (splices.filter fun s => decide (s.start = p) && decide (p < s.stop)).flatMap new

def newAt (splices : List (Splice α)) (p : Nat) : List α :=
  insertedAt splices p ++ replacedAt splices p

/-- Whether a place is in one of the ranges. -/
def covered (splices : List (Splice α)) (p : Nat) : Bool :=
  splices.any fun s => decide (s.start ≤ p) && decide (p < s.stop)

/-- What becomes of the elements `xs` that begin at a place. -/
def shown (splices : List (Splice α)) : Nat → List α → List α
  | _, [] => []
  | p, x :: xs =>
    newAt splices p ++ (if covered splices p then [] else [x]) ++ shown splices (p + 1) xs

/-- All ranges replaced at once. -/
def replaceAll (splices : List (Splice α)) (xs : List α) : List α :=
  shown splices 0 xs ++ newAt splices xs.length

example : replaceAll [⟨1, 1, [7]⟩, ⟨1, 2, [8]⟩, ⟨3, 3, [9]⟩] [0, 1, 2] = [0, 7, 8, 2, 9] := by
  decide

/-- Every range is one of places in a list of `n` elements. -/
def Within (n : Nat) (splices : List (Splice α)) : Prop :=
  ∀ s ∈ splices, s.start ≤ s.stop ∧ s.stop ≤ n

variable {s : Splice α} {rest splices others : List (Splice α)} {p n stop : Nat}
  {xs ys : List α}

/-! ## One after the other -/

theorem apply_append (hs : s.start ≤ s.stop) (hstop : s.stop ≤ xs.length) (ys : List α) :
    s.apply (xs ++ ys) = xs.take s.start ++ (s.new ++ xs.drop s.stop ++ ys) := by
  rw [apply, List.take_append_of_le_length (hs.trans hstop),
    List.drop_append_of_le_length hstop]
  simp only [List.append_assoc]

theorem Within.tail_of_pairwise (hdesc : (s :: rest).Pairwise fun s t => t.stop ≤ s.start)
    (hwithin : Within n (s :: rest)) : Within s.start rest := by
  intro t ht
  have hts := (List.pairwise_cons.1 hdesc).1 t ht
  exact ⟨(hwithin t (List.mem_cons_of_mem _ ht)).1, hts⟩

/-- The other splices are of what is in front of the one behind them. -/
theorem Within.take_of_pairwise (hdesc : (s :: rest).Pairwise fun s t => t.stop ≤ s.start)
    (hwithin : Within xs.length (s :: rest)) : Within (xs.take s.start).length rest := by
  obtain ⟨hs, hstop⟩ := hwithin s (List.mem_cons_self ..)
  rw [List.length_take_of_le (hs.trans hstop)]
  exact hwithin.tail_of_pairwise hdesc

theorem applyAll_append (hdesc : splices.Pairwise fun s t => t.stop ≤ s.start)
    (hwithin : Within xs.length splices) (ys : List α) :
    applyAll splices (xs ++ ys) = applyAll splices xs ++ ys := by
  induction splices generalizing xs ys with
  | nil => rfl
  | cons s rest ih =>
      obtain ⟨hs, hstop⟩ := hwithin s (List.mem_cons_self ..)
      have hrest : ∀ zs, applyAll rest (xs.take s.start ++ zs) =
          applyAll rest (xs.take s.start) ++ zs :=
        ih (List.pairwise_cons.1 hdesc).2 (hwithin.take_of_pairwise hdesc)
      have hself := apply_append hs hstop []
      rw [List.append_nil, List.append_nil] at hself
      show applyAll rest (s.apply (xs ++ ys)) = applyAll rest (s.apply xs) ++ ys
      rw [apply_append hs hstop, hself, hrest, hrest]
      simp only [List.append_assoc]

/-- The splice that is behind the others is applied first. -/
theorem applyAll_cons (hdesc : (s :: rest).Pairwise fun s t => t.stop ≤ s.start)
    (hwithin : Within xs.length (s :: rest)) :
    applyAll (s :: rest) xs =
      applyAll rest (xs.take s.start) ++ s.new ++ xs.drop s.stop := by
  show applyAll rest (s.apply xs) = _
  rw [apply, List.append_assoc, applyAll_append (List.pairwise_cons.1 hdesc).2
    (hwithin.take_of_pairwise hdesc), List.append_assoc]

/-! ## All at once -/

theorem newAt_cons_of_ne (h : s.start ≠ p) : newAt (s :: rest) p = newAt rest p := by
  unfold newAt insertedAt replacedAt
  rw [List.filter_cons_of_neg (by simp [h]), List.filter_cons_of_neg (by simp [h])]

theorem newAt_eq_nil (h : ∀ t ∈ splices, t.start ≠ p) : newAt splices p = [] := by
  induction splices with
  | nil => rfl
  | cons t splices ih =>
      rw [newAt_cons_of_ne (h t (List.mem_cons_self ..))]
      exact ih fun u hu => h u (List.mem_cons_of_mem _ hu)

/-- No range begins at the place where all end. -/
theorem replacedAt_eq_nil (h : Within p splices) : replacedAt splices p = [] := by
  unfold replacedAt
  rw [List.filter_eq_nil_iff.2, List.flatMap_nil]
  intro t ht hreplaced
  have hstop := (h t ht).2
  simp only [Bool.and_eq_true, decide_eq_true_eq] at hreplaced
  omega

theorem newAt_of_within (h : Within p splices) : newAt splices p = insertedAt splices p := by
  rw [newAt, replacedAt_eq_nil h, List.append_nil]

theorem newAt_cons_insertion (hs : s.start = s.stop) (hrest : Within s.start rest) :
    newAt (s :: rest) s.start = s.new ++ newAt rest s.start := by
  have hreplaced : replacedAt (s :: rest) s.start = replacedAt rest s.start := by
    unfold replacedAt
    rw [List.filter_cons_of_neg (by simp [← hs])]
  rw [newAt, hreplaced, replacedAt_eq_nil hrest, List.append_nil, newAt_of_within hrest]
  unfold insertedAt
  rw [List.filter_cons_of_pos (by simp [← hs]), List.flatMap_cons]

theorem newAt_cons_replacement (hs : s.start < s.stop) (hrest : Within s.start rest) :
    newAt (s :: rest) s.start = newAt rest s.start ++ s.new := by
  have hinserted : insertedAt (s :: rest) s.start = insertedAt rest s.start := by
    unfold insertedAt
    rw [List.filter_cons_of_neg (by simp [Nat.ne_of_gt hs])]
  have hreplaced : replacedAt (s :: rest) s.start = s.new ++ replacedAt rest s.start := by
    unfold replacedAt
    rw [List.filter_cons_of_pos (by simp [hs]), List.flatMap_cons]
  rw [newAt, hinserted, hreplaced, replacedAt_eq_nil hrest, List.append_nil,
    newAt_of_within hrest]

theorem covered_cons (s : Splice α) (rest : List (Splice α)) (p : Nat) :
    covered (s :: rest) p =
      ((decide (s.start ≤ p) && decide (p < s.stop)) || covered rest p) := rfl

theorem covered_eq_false (h : Within n splices) (hp : n ≤ p) : covered splices p = false := by
  rw [covered, List.any_eq_false]
  intro t ht hcovers
  have hstop := (h t ht).2
  simp only [Bool.and_eq_true, decide_eq_true_eq] at hcovers
  omega

theorem shown_append (splices : List (Splice α)) (p : Nat) (xs ys : List α) :
    shown splices p (xs ++ ys) = shown splices p xs ++ shown splices (p + xs.length) ys := by
  induction xs generalizing p with
  | nil => rfl
  | cons x xs ih =>
      have hp : p + (x :: xs).length = p + 1 + xs.length := by
        rw [List.length_cons]
        omega
      rw [List.cons_append, shown, ih, shown, hp]
      simp only [List.append_assoc]

theorem shown_congr (h : ∀ q, p ≤ q → q < p + xs.length →
    newAt splices q = newAt others q ∧ covered splices q = covered others q) :
    shown splices p xs = shown others p xs := by
  induction xs generalizing p with
  | nil => rfl
  | cons x xs ih =>
      rw [List.length_cons] at h
      obtain ⟨hnew, hcovered⟩ := h p (Nat.le_refl p) (by omega)
      rw [shown, shown, hnew, hcovered, ih fun q hq hlt => h q (by omega) (by omega)]

/-- Where nothing new begins, only the elements of a range go. -/
theorem shown_of_old (hold : ∀ q, p ≤ q → newAt splices q = [])
    (hcovered : ∀ q, p ≤ q → covered splices q = decide (q < stop)) :
    shown splices p xs = xs.drop (stop - p) := by
  induction xs generalizing p with
  | nil => rw [shown, List.drop_nil]
  | cons x xs ih =>
      rw [shown, hold p (Nat.le_refl p), hcovered p (Nat.le_refl p), List.nil_append,
        ih (fun q hq => hold q (by omega)) (fun q hq => hcovered q (by omega))]
      by_cases hlt : p < stop
      · have hdrop : stop - p = stop - (p + 1) + 1 := by omega
        rw [decide_eq_true hlt, if_pos rfl, hdrop, List.drop_succ_cons, List.nil_append]
      · have hzero : stop - p = 0 := by omega
        have hzero' : stop - (p + 1) = 0 := by omega
        rw [decide_eq_false hlt, if_neg Bool.false_ne_true, hzero, hzero']
        rfl

theorem shown_behind (hold : ∀ q, p < q → newAt splices q = [])
    (hcovered : ∀ q, p ≤ q → covered splices q = decide (q < stop)) (hstop : p ≤ stop) :
    shown splices p xs ++ newAt splices (p + xs.length) =
      newAt splices p ++ xs.drop (stop - p) := by
  cases xs with
  | nil => rw [shown, List.drop_nil, List.append_nil]; rfl
  | cons x xs =>
      have hlength : newAt splices (p + (x :: xs).length) = [] := by
        apply hold
        rw [List.length_cons]
        omega
      have hrest : shown splices (p + 1) xs = xs.drop (stop - (p + 1)) :=
        shown_of_old (fun q hq => hold q hq) fun q hq => hcovered q (by omega)
      rw [shown, hlength, hcovered p (Nat.le_refl p), hrest, List.append_nil, List.append_assoc]
      congr 1
      by_cases hlt : p < stop
      · have hdrop : stop - p = stop - (p + 1) + 1 := by omega
        rw [decide_eq_true hlt, if_pos rfl, hdrop, List.drop_succ_cons, List.nil_append]
      · have heq : stop = p := by omega
        have hzero : p - (p + 1) = 0 := by omega
        rw [decide_eq_false hlt, if_neg Bool.false_ne_true, heq, Nat.sub_self, hzero]
        rfl

/-- The list divided at the last place where something new begins; in front of it only the splices
`others` count. -/
theorem replaceAll_split (hp : p ≤ stop) (hstop : stop ≤ xs.length)
    (hbefore : ∀ q < p, newAt splices q = newAt others q ∧ covered splices q = covered others q)
    (hold : ∀ q, p < q → newAt splices q = [])
    (hcovered : ∀ q, p ≤ q → covered splices q = decide (q < stop)) :
    replaceAll splices xs =
      shown others 0 (xs.take p) ++ (newAt splices p ++ xs.drop stop) := by
  have hlength : (xs.take p).length = p := List.length_take_of_le (hp.trans hstop)
  have hfirst : shown splices 0 (xs.take p) = shown others 0 (xs.take p) := by
    apply shown_congr
    intro q _ hq
    rw [hlength, Nat.zero_add] at hq
    exact hbefore q hq
  have hbehind : shown splices p (xs.drop p) ++ newAt splices (p + (xs.drop p).length) =
      newAt splices p ++ (xs.drop p).drop (stop - p) := shown_behind hold hcovered hp
  have hend : p + (xs.drop p).length = xs.length := by
    rw [List.length_drop]
    omega
  rw [hend, List.drop_drop, Nat.add_sub_cancel' hp] at hbehind
  rw [replaceAll]
  conv_lhs => rw [← List.take_append_drop p xs]
  rw [shown_append, hlength, Nat.zero_add, hfirst, List.take_append_drop, List.append_assoc,
    hbehind]

/-- The splice behind the others, when its elements come last at its place. -/
theorem replaceAll_cons (hs : s.start ≤ s.stop) (hstop : s.stop ≤ xs.length)
    (hrest : Within s.start rest)
    (hlast : newAt (s :: rest) s.start = newAt rest s.start ++ s.new) :
    replaceAll (s :: rest) xs =
      replaceAll rest (xs.take s.start) ++ s.new ++ xs.drop s.stop := by
  have hlength : (xs.take s.start).length = s.start := List.length_take_of_le (hs.trans hstop)
  have hsplit : replaceAll (s :: rest) xs =
      shown rest 0 (xs.take s.start) ++ (newAt (s :: rest) s.start ++ xs.drop s.stop) := by
    refine replaceAll_split hs hstop ?_ ?_ ?_
    · intro q hq
      refine ⟨newAt_cons_of_ne (by omega), ?_⟩
      rw [covered_cons, decide_eq_false (by omega), Bool.false_and, Bool.false_or]
    · intro q hq
      apply newAt_eq_nil
      intro t ht
      rcases List.mem_cons.1 ht with rfl | ht
      · exact Nat.ne_of_lt hq
      · have ht := hrest t ht
        omega
    · intro q hq
      rw [covered_cons, covered_eq_false hrest hq, decide_eq_true hq, Bool.true_and,
        Bool.or_false]
  rw [hsplit, hlast, replaceAll, hlength]
  simp only [List.append_assoc]

theorem replaceAll_nil (xs : List α) : replaceAll [] xs = xs := by
  have hshown : shown [] 0 xs = xs.drop (0 - 0) :=
    shown_of_old (fun _ _ => rfl) fun q _ => (decide_eq_false (Nat.not_lt_zero q)).symm
  rw [replaceAll, hshown]
  exact List.append_nil xs

/-- No two splices insert at one place. -/
def Apart (s t : Splice α) : Prop := s.start = s.stop → t.start = t.stop → t.start ≠ s.start

theorem applyAll_eq_replaceAll (hdesc : splices.Pairwise fun s t => t.stop ≤ s.start)
    (hwithin : Within xs.length splices) (hapart : splices.Pairwise Apart) :
    applyAll splices xs = replaceAll splices xs := by
  induction splices generalizing xs with
  | nil => exact (replaceAll_nil xs).symm
  | cons s rest ih =>
      obtain ⟨hs, hstop⟩ := hwithin s (List.mem_cons_self ..)
      have hrest := hwithin.tail_of_pairwise hdesc
      obtain ⟨hnone, hapart⟩ := List.pairwise_cons.1 hapart
      have hlast : newAt (s :: rest) s.start = newAt rest s.start ++ s.new := by
        rcases Nat.lt_or_eq_of_le hs with hlt | heq
        · exact newAt_cons_replacement hlt hrest
        · have hempty : newAt rest s.start = [] := by
            rw [newAt_of_within hrest]
            unfold insertedAt
            rw [List.filter_eq_nil_iff.2, List.flatMap_nil]
            intro t ht hinserts
            simp only [Bool.and_eq_true, decide_eq_true_eq] at hinserts
            exact hnone t ht heq (hinserts.1.trans hinserts.2.symm) hinserts.1
          rw [newAt_cons_insertion heq hrest, hempty, List.append_nil]
          rfl
      rw [applyAll_cons hdesc hwithin, replaceAll_cons hs hstop hrest hlast,
        ih (List.pairwise_cons.1 hdesc).2 (hwithin.take_of_pairwise hdesc) hapart]

theorem newAt_congr (h : (splices.filter fun s => decide (s.start = p)) =
    others.filter fun s => decide (s.start = p)) : newAt splices p = newAt others p := by
  have hboth : ∀ (l : List (Splice α)) (q : Splice α → Bool),
      (l.filter fun s => decide (s.start = p) && q s) =
        (l.filter fun s => decide (s.start = p)).filter q := by
    intro l q
    rw [List.filter_filter]
    exact List.filter_congr fun s _ => Bool.and_comm ..
  rw [newAt, newAt, insertedAt, insertedAt, replacedAt, replacedAt, hboth, hboth, hboth, hboth, h]

/-- Only the order of the splices that begin at one place matters. -/
theorem replaceAll_congr (h : ∀ p, (splices.filter fun s => decide (s.start = p)) =
    others.filter fun s => decide (s.start = p)) (xs : List α) :
    replaceAll splices xs = replaceAll others xs := by
  have hmem : ∀ t, t ∈ splices ↔ t ∈ others := by
    intro t
    have ht := congrArg (t ∈ ·) (h t.start)
    simpa using ht
  have hcovered : ∀ p, covered splices p = covered others p := by
    intro p
    rw [covered, covered, Bool.eq_iff_iff, List.any_eq_true, List.any_eq_true]
    simp only [hmem]
  rw [replaceAll, replaceAll, shown_congr fun q _ _ => ⟨newAt_congr (h q), hcovered q⟩,
    newAt_congr (h _)]

/-! ## Where the two ways differ -/

/-- The same new element for all of them. -/
theorem newAt_of_const {m : α} (h : ∀ t ∈ splices, t.new = [m]) (p : Nat) :
    ∃ n, newAt splices p = List.replicate n m := by
  have hconst : ∀ l : List (Splice α), (∀ t ∈ l, t.new = [m]) →
      l.flatMap new = List.replicate l.length m := by
    intro l hl
    induction l with
    | nil => rfl
    | cons t l ih =>
        rw [List.flatMap_cons, hl t (List.mem_cons_self ..),
          ih fun u hu => hl u (List.mem_cons_of_mem _ hu)]
        rfl
  rw [newAt, insertedAt, replacedAt, hconst _ fun t ht => h t (List.mem_filter.1 ht).1,
    hconst _ fun t ht => h t (List.mem_filter.1 ht).1, List.replicate_append_replicate]
  exact ⟨_, rfl⟩

theorem newAt_cons_const {m : α} (h : ∀ t ∈ s :: rest, t.new = [m]) (hs : s.start ≤ s.stop)
    (hrest : Within s.start rest) : newAt (s :: rest) s.start = newAt rest s.start ++ s.new := by
  rcases Nat.lt_or_eq_of_le hs with hlt | heq
  · exact newAt_cons_replacement hlt hrest
  · obtain ⟨n, hn⟩ := newAt_of_const (fun t ht => h t (List.mem_cons_of_mem _ ht)) s.start
    rw [newAt_cons_insertion heq hrest, hn, h s (List.mem_cons_self ..),
      ← List.replicate_succ', List.replicate_succ]
    rfl

theorem newAt_sublist_shown (hp : p < n + xs.length) (hn : n ≤ p) :
    List.Sublist (newAt splices p) (shown splices n xs) := by
  induction xs generalizing n with
  | nil =>
      rw [List.length_nil] at hp
      omega
  | cons x xs ih =>
      rw [shown, List.append_assoc]
      rcases Nat.lt_or_eq_of_le hn with hlt | rfl
      · rw [List.length_cons] at hp
        have hrest := ih (n := n + 1) (by omega) hlt
        exact (hrest.trans (List.sublist_append_right ..)).trans (List.sublist_append_right ..)
      · exact List.sublist_append_left ..

theorem newAt_sublist_replaceAll (hp : p ≤ xs.length) :
    List.Sublist (newAt splices p) (replaceAll splices xs) := by
  rcases Nat.lt_or_eq_of_le hp with hlt | rfl
  · exact (newAt_sublist_shown (by omega) (Nat.zero_le p)).trans (List.sublist_append_left ..)
  · exact List.sublist_append_right ..

/-- The new elements stand in the opposite order. -/
theorem filter_applyAll {f : α → Bool} (hdesc : splices.Pairwise fun s t => t.stop ≤ s.start)
    (hwithin : Within xs.length splices) (hnone : ∀ x ∈ xs, f x = false) :
    (applyAll splices xs).filter f = (splices.reverse.flatMap new).filter f := by
  induction splices generalizing xs with
  | nil => exact List.filter_eq_nil_iff.2 fun x hx => by rw [hnone x hx]; exact Bool.false_ne_true
  | cons s rest ih =>
      have hrest : (applyAll rest (xs.take s.start)).filter f =
          (rest.reverse.flatMap new).filter f :=
        ih (List.pairwise_cons.1 hdesc).2 (hwithin.take_of_pairwise hdesc)
          fun x hx => hnone x (List.mem_of_mem_take hx)
      have hdrop : (xs.drop s.stop).filter f = [] := by
        refine List.filter_eq_nil_iff.2 fun x hx => ?_
        rw [hnone x (List.mem_of_mem_drop hx)]
        exact Bool.false_ne_true
      rw [applyAll_cons hdesc hwithin, List.filter_append, List.filter_append, hrest, hdrop,
        List.append_nil, List.reverse_cons, List.flatMap_append, List.filter_append]
      rw [List.flatMap_singleton]

/-- Splices without new elements. -/
def Blank (splices : List (Splice α)) : Prop := ∀ s ∈ splices, s.new = []

theorem Blank.flatMap_filter (h : Blank splices) (q : Splice α → Bool) :
    (splices.filter q).flatMap new = [] :=
  List.flatMap_eq_nil_iff.2 fun s hs => h s (List.mem_filter.1 hs).1

section TwoInsertions

variable {first second : Splice α} {before between after : List (Splice α)}
  (hbefore : Blank before) (hbetween : Blank between) (hafter : Blank after)
  (hfirst : first.start = p ∧ first.stop = p) (hsecond : second.start = p ∧ second.stop = p)
include hbefore hbetween hafter hfirst hsecond

theorem newAt_two :
    newAt (before ++ first :: (between ++ second :: after)) p = first.new ++ second.new := by
  have hinserted : insertedAt (before ++ first :: (between ++ second :: after)) p =
      first.new ++ second.new := by
    rw [insertedAt, List.filter_append, List.filter_cons_of_pos (by simp [hfirst]),
      List.filter_append, List.filter_cons_of_pos (by simp [hsecond]), List.flatMap_append,
      List.flatMap_cons, List.flatMap_append, List.flatMap_cons, hbefore.flatMap_filter,
      hbetween.flatMap_filter, hafter.flatMap_filter]
    simp only [List.nil_append, List.append_nil]
  have hreplaced : replacedAt (before ++ first :: (between ++ second :: after)) p = [] := by
    rw [replacedAt, List.filter_append, List.filter_cons_of_neg (by simp [hfirst]),
      List.filter_append, List.filter_cons_of_neg (by simp [hsecond]), List.flatMap_append,
      List.flatMap_append, hbefore.flatMap_filter, hbetween.flatMap_filter, hafter.flatMap_filter]
    rfl
  rw [newAt, hinserted, hreplaced, List.append_nil]

/-- Splices with the same ones at the place, all others being blank. -/
theorem flatMap_reverse_two
    (hsame : (splices.filter fun s => decide (s.start = p)) =
      (before ++ first :: (between ++ second :: after)).filter fun s => decide (s.start = p))
    (hblank : ∀ s ∈ splices, s.start ≠ p → s.new = []) :
    splices.reverse.flatMap new = second.new ++ first.new := by
  have hdrop : ∀ l : List (Splice α), (∀ s ∈ l, s.start ≠ p → s.new = []) →
      l.flatMap new = (l.filter fun s => decide (s.start = p)).flatMap new := by
    intro l hl
    induction l with
    | nil => rfl
    | cons s l ih =>
        have hrest := ih fun t ht => hl t (List.mem_cons_of_mem _ ht)
        by_cases hs : s.start = p
        · rw [List.filter_cons_of_pos (by simp [hs]), List.flatMap_cons, List.flatMap_cons,
            hrest]
        · rw [List.filter_cons_of_neg (by simp [hs]), List.flatMap_cons,
            hl s (List.mem_cons_self ..) hs, hrest]
          rfl
  rw [hdrop _ fun s hs => hblank s (List.mem_reverse.1 hs), List.filter_reverse, hsame,
    ← List.filter_reverse]
  simp only [List.reverse_append, List.reverse_cons, List.filter_append, List.flatMap_append,
    List.append_assoc]
  rw [List.filter_cons_of_pos (by simp [hsecond]), List.filter_cons_of_pos (by simp [hfirst])]
  have hblankReverse : ∀ l : List (Splice α), Blank l →
      (l.reverse.filter fun s => decide (s.start = p)).flatMap new = [] := fun l hl =>
    Blank.flatMap_filter (fun s hs => hl s (List.mem_reverse.1 hs)) _
  rw [hblankReverse _ hbefore, hblankReverse _ hbetween, hblankReverse _ hafter]
  simp

end TwoInsertions

/-- Two elements that are inserted at one place come out in the opposite order. -/
theorem applyAll_ne_replaceAll [DecidableEq α] {x y : α}
    (hdesc : splices.Pairwise fun s t => t.stop ≤ s.start) (hwithin : Within xs.length splices)
    (hx : x ∉ xs) (hy : y ∉ xs) (hxy : x ≠ y) (hp : p ≤ xs.length)
    (hat : newAt splices p = [x, y]) (hnew : splices.reverse.flatMap new = [y, x]) :
    applyAll splices xs ≠ replaceAll splices xs := by
  intro heq
  have hsub : List.Sublist [x, y] (applyAll splices xs) := by
    rw [heq, ← hat]
    exact newAt_sublist_replaceAll hp
  have hnone : ∀ z ∈ xs, (decide (z = x) || decide (z = y)) = false := by
    intro z hz
    have hzx : z ≠ x := fun h => hx (h ▸ hz)
    have hzy : z ≠ y := fun h => hy (h ▸ hz)
    rw [decide_eq_false hzx, decide_eq_false hzy]
    rfl
  have hfilter := filter_applyAll hdesc hwithin hnone
  have hsub' := hsub.filter fun z => decide (z = x) || decide (z = y)
  rw [hfilter, hnew] at hsub'
  have hperm : [x, y] = [y, x] := by
    simpa [hxy] using hsub'.eq_of_length
  exact hxy (List.cons.inj hperm).1

end Splice

end Vanyline.Lib
