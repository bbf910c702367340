import Mathlib.Algebra.BigOperators.Group.Finset.Basic
import Mathlib.Algebra.GroupWithZero.Nat
import Mathlib.Data.List.AList
import Mathlib.Data.Multiset.UnionInter

/-!
# Counters by key

A `Counter` says how often each key occurs; a key that it does not have occurs never.

* `tallyUp` counts the keys of a list, and `get_tallyUp` says that it does.
* `unpaired` pairs the keys of a list off with those of a counter, one to one, and keeps what
  is left over, in its order.  `coe_unpaired` says that this is a difference of multisets.
* `overlap` sums the smaller of two counts, over all keys (`overlap_tallyUp`).
-/

namespace Vanyline.Lib

abbrev Counter (κ : Type) := AList fun _ : κ => Nat

namespace Counter

variable {κ : Type} [DecidableEq κ]

def get (c : Counter κ) (key : κ) : Nat := (c.lookup key).getD 0

def incr (c : Counter κ) (key : κ) : Counter κ := c.insert key (c.get key + 1)

def tallyUp (keys : List κ) : Counter κ := keys.foldl incr ∅

/-- The keys that are left over; `used` counts those that have been paired off. -/
def unpairedFrom (available used : Counter κ) : List κ → List κ
  | [] => []
  | key :: keys =>
    if used.get key < available.get key then unpairedFrom available (used.incr key) keys
    else key :: unpairedFrom available (used.insert key (used.get key)) keys

def unpaired (available : Counter κ) (keys : List κ) : List κ := unpairedFrom available ∅ keys

/-- The sum of the smaller counts. -/
def overlap (c other : Counter κ) : Nat :=
  (c.entries.map fun entry => min entry.2 (other.get entry.1)).sum

/-! ## Counts -/

theorem get_insert (c : Counter κ) (key k : κ) (n : Nat) :
    get (c.insert key n) k = if k = key then n else c.get k := by
  unfold get
  split_ifs with h
  · rw [h, AList.lookup_insert, Option.getD_some]
  · rw [AList.lookup_insert_ne h]

theorem get_incr (c : Counter κ) (key k : κ) :
    (c.incr key).get k = c.get k + if k = key then 1 else 0 := by
  rw [incr, get_insert]
  split_ifs with h
  · rw [h]
  · rfl

theorem get_foldl_incr (keys : List κ) (c : Counter κ) (k : κ) :
    (keys.foldl incr c).get k = c.get k + keys.count k := by
  induction keys generalizing c with
  | nil => rfl
  | cons key keys ih =>
    rw [List.foldl_cons, ih, get_incr, List.count_cons]
    by_cases h : k = key
    · rw [if_pos h, if_pos (by simp [h])]
      omega
    · rw [if_neg h, if_neg (by simpa using Ne.symm h)]
      omega

theorem get_tallyUp (keys : List κ) (k : κ) : (tallyUp keys).get k = keys.count k := by
  rw [tallyUp, get_foldl_incr]
  exact Nat.zero_add _

/-! ## What is left over -/

theorem count_unpairedFrom (available used : Counter κ) (keys : List κ) (k : κ) :
    (unpairedFrom available used keys).count k =
      keys.count k - (available.get k - used.get k) := by
  induction keys generalizing used with
  | nil => simp [unpairedFrom]
  | cons key keys ih =>
    rw [unpairedFrom]
    split_ifs with h
    · rw [ih, get_incr, List.count_cons]
      by_cases hk : k = key
      · subst hk
        rw [if_pos rfl, if_pos (by simp)]
        omega
      · rw [if_neg hk, if_neg (by simpa using Ne.symm hk)]
        omega
    · rw [List.count_cons, List.count_cons, ih, get_insert]
      by_cases hk : k = key
      · subst hk
        rw [if_pos rfl, if_pos (by simp)]
        omega
      · rw [if_neg hk, if_neg (by simpa using Ne.symm hk)]
        omega

theorem unpairedFrom_sublist (available used : Counter κ) (keys : List κ) :
    (unpairedFrom available used keys).Sublist keys := by
  induction keys generalizing used with
  | nil => exact .slnil
  | cons key keys ih =>
    rw [unpairedFrom]
    split_ifs
    · exact (ih _).cons key
    · exact (ih _).cons_cons key

/-- Pairing off is the difference of multisets. -/
theorem coe_unpaired (keys others : List κ) :
    (unpaired (tallyUp others) keys : Multiset κ) =
      (keys : Multiset κ) - (others : Multiset κ) := by
  ext k
  have hcount := count_unpairedFrom (tallyUp others) ∅ keys k
  rw [get_tallyUp] at hcount
  rw [Multiset.count_sub, Multiset.coe_count, Multiset.coe_count, Multiset.coe_count]
  exact hcount

/-! ## What is in both -/

theorem mem_entries {c : Counter κ} {entry : Sigma fun _ : κ => Nat} (h : entry ∈ c.entries) :
    c.get entry.1 = entry.2 := by
  have hlookup : c.lookup entry.1 = some entry.2 := (AList.mem_lookup_iff).2 h
  rw [get, hlookup, Option.getD_some]

theorem overlap_eq_sum (c other : Counter κ) :
    c.overlap other = ∑ k ∈ c.keys.toFinset, min (c.get k) (other.get k) := by
  rw [List.sum_toFinset _ c.keys_nodup]
  show (c.entries.map _).sum = ((c.entries.map Sigma.fst).map _).sum
  rw [List.map_map]
  apply congrArg List.sum
  apply List.map_congr_left
  intro entry hentry
  show min entry.2 _ = min (c.get entry.1) _
  rw [mem_entries hentry]

theorem mem_keys_of_get {c : Counter κ} {k : κ} (h : c.get k ≠ 0) : k ∈ c.keys := by
  by_contra hmem
  apply h
  rw [get, AList.lookup_eq_none.2 hmem]
  rfl

theorem overlap_tallyUp (keys others : List κ) :
    (tallyUp keys).overlap (tallyUp others) =
      ((keys : Multiset κ) ∩ (others : Multiset κ)).card := by
  have hsubset : ((keys : Multiset κ) ∩ (others : Multiset κ)).toFinset ⊆
      (tallyUp keys).keys.toFinset := by
    intro k hk
    rw [Multiset.mem_toFinset, Multiset.mem_inter, Multiset.mem_coe] at hk
    rw [List.mem_toFinset]
    apply mem_keys_of_get
    rw [get_tallyUp]
    exact (List.count_pos_iff.2 hk.1).ne'
  rw [overlap_eq_sum, ← Multiset.toFinset_sum_count_eq]
  rw [Finset.sum_subset hsubset fun k _ hk => Multiset.count_eq_zero.2 (by
    rwa [Multiset.mem_toFinset] at hk)]
  apply Finset.sum_congr rfl
  intro k _
  rw [get_tallyUp, get_tallyUp, Multiset.count_inter, Multiset.coe_count, Multiset.coe_count]

end Counter

end Vanyline.Lib
