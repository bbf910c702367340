import Mathlib.Order.Defs.LinearOrder
import Mathlib.Data.List.Basic
import Mathlib.Data.Set.Card
import Mathlib.Algebra.Order.BigOperators.Group.List

/-!
# Maps with sorted keys

A map is a list of its entries, with keys that grow.  `update` changes the value of a key, or
puts one in its place, and `lookup_update` says all about it.  `ofList`, `extend` and `mapValues`
make maps of lists and of maps.  `ncard_lookup` counts keys.
-/

namespace Vanyline.Lib

variable {κ ν : Type} [LinearOrder κ]

namespace SortedMap

/-- The value of a key is changed, in a list of entries. -/
def updateEntries (key : κ) (change : Option ν → ν) : List (κ × ν) → List (κ × ν)
  | [] => [(key, change none)]
  | (k, v) :: entries =>
    if key < k then (key, change none) :: (k, v) :: entries
    else if key = k then (key, change (some v)) :: entries
    else (k, v) :: updateEntries key change entries

def lookupEntries (key : κ) : List (κ × ν) → Option ν
  | [] => none
  | (k, v) :: entries => if key = k then some v else lookupEntries key entries

/-- The keys grow along the list. -/
def SortedKeys (entries : List (κ × ν)) : Prop := (entries.map Prod.fst).Pairwise (· < ·)

/-- A key behind all others is put at the end. -/
theorem updateEntries_of_lt {key : κ} {change : Option ν → ν} {entries : List (κ × ν)}
    (h : ∀ entry ∈ entries, entry.1 < key) :
    updateEntries key change entries = entries ++ [(key, change none)] := by
  induction entries with
  | nil => rfl
  | cons entry entries ih =>
      rw [List.forall_mem_cons] at h
      rw [updateEntries, if_neg (lt_asymm h.1), if_neg (ne_of_gt h.1), ih h.2]
      rfl

theorem mem_keys_update {key : κ} {change : Option ν → ν} {entries : List (κ × ν)} {k : κ}
    (h : k ∈ (updateEntries key change entries).map Prod.fst) :
    k = key ∨ k ∈ entries.map Prod.fst := by
  induction entries with
  | nil =>
      rw [updateEntries, List.map_singleton, List.mem_singleton] at h
      exact .inl h
  | cons entry entries ih =>
      obtain ⟨k', v⟩ := entry
      rw [updateEntries] at h
      split_ifs at h with hlt heq
      · rw [List.map_cons, List.mem_cons] at h
        exact h
      · rw [List.map_cons, List.mem_cons] at h
        exact h.imp_right fun hmem => List.mem_cons_of_mem _ hmem
      · rw [List.map_cons, List.mem_cons] at h
        rcases h with rfl | h
        · exact .inr (List.mem_cons_self ..)
        · exact (ih h).imp_right fun hmem => List.mem_cons_of_mem _ hmem

theorem sorted_update {key : κ} {change : Option ν → ν} {entries : List (κ × ν)}
    (h : (entries.map Prod.fst).Pairwise (· < ·)) :
    ((updateEntries key change entries).map Prod.fst).Pairwise (· < ·) := by
  induction entries with
  | nil => exact List.pairwise_singleton ..
  | cons entry entries ih =>
      obtain ⟨k, v⟩ := entry
      rw [List.map_cons, List.pairwise_cons] at h
      rw [updateEntries]
      split_ifs with hlt heq
      · rw [List.map_cons, List.map_cons, List.pairwise_cons, List.pairwise_cons]
        refine ⟨?_, h⟩
        intro k' hk'
        rcases List.mem_cons.1 hk' with rfl | hk'
        · exact hlt
        · exact lt_trans hlt (h.1 k' hk')
      · rw [List.map_cons, List.pairwise_cons]
        dsimp only at h ⊢
        rw [heq]
        exact h
      · rw [List.map_cons, List.pairwise_cons]
        refine ⟨?_, ih h.2⟩
        intro k' hk'
        rcases mem_keys_update hk' with rfl | hk'
        · exact lt_of_le_of_ne (not_lt.1 hlt) (Ne.symm heq)
        · exact h.1 k' hk'

end SortedMap

structure SortedMap (κ ν : Type) [LinearOrder κ] where
  entries : List (κ × ν)
  sorted : (entries.map Prod.fst).Pairwise (· < ·)

namespace SortedMap

def empty : SortedMap κ ν := ⟨[], .nil⟩

def update (map : SortedMap κ ν) (key : κ) (change : Option ν → ν) : SortedMap κ ν :=
  ⟨updateEntries key change map.entries, sorted_update map.sorted⟩

def lookup (map : SortedMap κ ν) (key : κ) : Option ν := lookupEntries key map.entries

@[simp] theorem lookup_empty (key : κ) : (empty : SortedMap κ ν).lookup key = none := rfl

theorem lookupEntries_of_lt {key : κ} {entries : List (κ × ν)}
    (h : ∀ k ∈ entries.map Prod.fst, key < k) : lookupEntries key entries = none := by
  induction entries with
  | nil => rfl
  | cons entry entries ih =>
      have hlt := h entry.1 (List.mem_cons_self ..)
      rw [lookupEntries, if_neg (ne_of_lt hlt)]
      exact ih fun k hk => h k (List.mem_cons_of_mem _ hk)

theorem lookupEntries_update {key : κ} {change : Option ν → ν} {entries : List (κ × ν)}
    (h : (entries.map Prod.fst).Pairwise (· < ·)) (k : κ) :
    lookupEntries k (updateEntries key change entries) =
      if k = key then some (change (lookupEntries key entries)) else lookupEntries k entries := by
  induction entries with
  | nil => rfl
  | cons entry entries ih =>
      obtain ⟨k', v⟩ := entry
      rw [List.map_cons, List.pairwise_cons] at h
      rw [updateEntries]
      by_cases hlt : key < k'
      · have hnone : lookupEntries key ((k', v) :: entries) = none := by
          apply lookupEntries_of_lt
          intro other hother
          rcases List.mem_cons.1 hother with rfl | hother
          · exact hlt
          · exact lt_trans hlt (h.1 other hother)
        rw [if_pos hlt, hnone]
        rfl
      · rw [if_neg hlt]
        by_cases heq : key = k'
        · subst heq
          rw [if_pos rfl, lookupEntries, lookupEntries, lookupEntries, if_pos rfl]
          split_ifs <;> rfl
        · rw [if_neg heq, lookupEntries, ih h.2, lookupEntries, if_neg heq, lookupEntries]
          by_cases hk : k = k'
          · subst hk
            rw [if_pos rfl, if_neg (Ne.symm heq), if_pos rfl]
          · rw [if_neg hk, if_neg hk]

theorem lookup_update (map : SortedMap κ ν) (key : κ) (change : Option ν → ν) (k : κ) :
    (map.update key change).lookup k =
      if k = key then some (change (map.lookup key)) else map.lookup k :=
  lookupEntries_update map.sorted k

theorem mem_keys_iff {map : SortedMap κ ν} {key : κ} :
    key ∈ map.entries.map Prod.fst ↔ (map.lookup key).isSome := by
  obtain ⟨entries, sorted⟩ := map
  show key ∈ entries.map Prod.fst ↔ (lookupEntries key entries).isSome
  clear sorted
  induction entries with
  | nil => simp [lookupEntries]
  | cons entry entries ih =>
      rw [List.map_cons, List.mem_cons, lookupEntries]
      split_ifs with heq
      · simp [heq]
      · rw [ih, or_iff_right heq]

theorem mem_entries_iff {map : SortedMap κ ν} {key : κ} {value : ν} :
    (key, value) ∈ map.entries ↔ map.lookup key = some value := by
  obtain ⟨entries, sorted⟩ := map
  show (key, value) ∈ entries ↔ lookupEntries key entries = some value
  induction entries with
  | nil => simp [lookupEntries]
  | cons entry entries ih =>
      obtain ⟨k, v⟩ := entry
      rw [List.map_cons, List.pairwise_cons] at sorted
      rw [List.mem_cons, lookupEntries]
      split_ifs with heq
      · subst heq
        constructor
        · rintro (hsame | hmem)
          · rw [(Prod.mk.inj hsame).2]
          · exact absurd (sorted.1 key (List.mem_map_of_mem hmem)) (lt_irrefl _)
        · intro hsome
          rw [Option.some.inj hsome]
          exact .inl rfl
      · rw [← ih sorted.2]
        constructor
        · rintro (hsame | hmem)
          · exact absurd (Prod.mk.inj hsame).1 heq
          · exact hmem
        · exact .inr

theorem nodup_keys (map : SortedMap κ ν) : (map.entries.map Prod.fst).Nodup :=
  map.sorted.imp fun hlt => ne_of_lt hlt

/-- Of one key there is at most one entry. -/
theorem filterMap_key [DecidableEq κ] (map : SortedMap κ ν) (key : κ) :
    (map.entries.filterMap fun entry => if entry.1 = key then some entry.2 else none) =
      (map.lookup key).toList := by
  obtain ⟨entries, sorted⟩ := map
  show _ = (lookupEntries key entries).toList
  induction entries with
  | nil => rfl
  | cons entry entries ih =>
      rw [List.map_cons, List.pairwise_cons] at sorted
      rw [List.filterMap_cons, lookupEntries]
      by_cases hkey : key = entry.1
      · have hrest : (entries.filterMap fun entry =>
            if entry.1 = key then some entry.2 else none) = [] := by
          rw [List.filterMap_eq_nil_iff]
          intro other hmem
          have hlt := sorted.1 other.1 (List.mem_map_of_mem hmem)
          exact if_neg fun heq => absurd (heq.trans hkey) (ne_of_gt hlt)
        rw [if_pos hkey.symm, if_pos hkey, hrest]
        rfl
      · rw [if_neg (Ne.symm hkey), if_neg hkey]
        exact ih sorted.2

/-- The keys whose values have a property are as many as their entries. -/
theorem ncard_lookup (map : SortedMap κ ν) (p : ν → Bool) :
    {key | ∃ value, map.lookup key = some value ∧ p value = true}.ncard =
      (map.entries.filter fun entry => p entry.2).length := by
  have hset : {key | ∃ value, map.lookup key = some value ∧ p value = true} =
      ↑((map.entries.filter fun entry => p entry.2).map Prod.fst).toFinset := by
    ext key
    rw [List.coe_toFinset]
    show (∃ value, map.lookup key = some value ∧ p value = true) ↔
      key ∈ (map.entries.filter fun entry => p entry.2).map Prod.fst
    rw [List.mem_map]
    constructor
    · rintro ⟨value, hlookup, hp⟩
      exact ⟨(key, value), List.mem_filter.2 ⟨mem_entries_iff.2 hlookup, hp⟩, rfl⟩
    · rintro ⟨⟨key, value⟩, hentry, rfl⟩
      obtain ⟨hmem, hp⟩ := List.mem_filter.1 hentry
      exact ⟨value, mem_entries_iff.1 hmem, hp⟩
  have hnodup : ((map.entries.filter fun entry => p entry.2).map Prod.fst).Nodup :=
    map.nodup_keys.sublist (List.filter_sublist.map Prod.fst)
  rw [hset, Set.ncard_coe_finset, List.toFinset_card_of_nodup hnodup, List.length_map]

/-! ## Maps from lists and maps -/

def ofList (entries : List (κ × ν)) : SortedMap κ ν :=
  entries.foldl (fun map entry => map.update entry.1 fun _ => entry.2) empty

theorem lookup_foldl_update (entries : List (κ × ν)) (map : SortedMap κ ν) (key : κ) :
    (entries.foldl (fun map entry => map.update entry.1 fun _ => entry.2) map).lookup key =
      (entries.reverse.lookup key).or (map.lookup key) := by
  induction entries generalizing map with
  | nil => rfl
  | cons entry entries ih =>
      rw [List.foldl_cons, ih, lookup_update, List.reverse_cons, List.lookup_append,
        Option.or_assoc]
      congr 1
      by_cases hkey : key = entry.1
      · rw [if_pos hkey, List.lookup_cons, hkey, beq_self_eq_true, Option.some_or]
      · rw [if_neg hkey, List.lookup_cons, beq_false_of_ne hkey, List.lookup_nil, Option.none_or]

/-- The last value of a key counts. -/
theorem lookup_ofList (entries : List (κ × ν)) (key : κ) :
    (ofList entries).lookup key = entries.reverse.lookup key := by
  rw [ofList, lookup_foldl_update, lookup_empty, Option.or_none]

theorem mem_of_lookup_reverse {entries : List (κ × ν)} {key : κ} {value : ν}
    (h : entries.reverse.lookup key = some value) : (key, value) ∈ entries := by
  obtain ⟨before, after, hsplit, -⟩ := List.lookup_eq_some_iff.1 h
  rw [← List.mem_reverse, hsplit]
  exact List.mem_append_right _ (List.mem_cons_self ..)

/-- The list says one value for each key. -/
theorem lookup_ofList_eq_some {entries : List (κ × ν)}
    (h : ∀ k v v', (k, v) ∈ entries → (k, v') ∈ entries → v = v') {key : κ} {value : ν} :
    (ofList entries).lookup key = some value ↔ (key, value) ∈ entries := by
  rw [lookup_ofList]
  constructor
  · exact mem_of_lookup_reverse
  · intro hmem
    cases hfound : entries.reverse.lookup key with
    | none =>
        rw [List.lookup_eq_none_iff] at hfound
        have hne := hfound _ (List.mem_reverse.2 hmem)
        simp at hne
    | some v => rw [h key v value (mem_of_lookup_reverse hfound) hmem]

theorem nodup_entries (map : SortedMap κ ν) : map.entries.Nodup :=
  map.nodup_keys.of_map

/-- A list is kept whole exactly if it has one entry for each key. -/
theorem entries_ofList_perm {entries : List (κ × ν)} :
    (ofList entries).entries.Perm entries ↔ (entries.map Prod.fst).Nodup := by
  constructor
  · intro hperm
    exact (hperm.map Prod.fst).nodup_iff.1 (ofList entries).nodup_keys
  · intro hnodup
    rw [List.perm_ext_iff_of_nodup (nodup_entries _) hnodup.of_map]
    rintro ⟨key, value⟩
    rw [mem_entries_iff]
    apply lookup_ofList_eq_some
    intro k v v' hmem hmem'
    exact congrArg Prod.snd (List.inj_on_of_nodup_map hnodup hmem hmem' rfl)

/-- The entries of the second map replace those of the first. -/
def extend (map more : SortedMap κ ν) : SortedMap κ ν :=
  more.entries.foldl (fun map entry => map.update entry.1 fun _ => entry.2) map

theorem lookup_reverse_entries (map : SortedMap κ ν) (key : κ) :
    map.entries.reverse.lookup key = map.lookup key := by
  cases hlookup : map.lookup key with
  | none =>
      rw [List.lookup_eq_none_iff]
      rintro ⟨k, v⟩ hmem
      rw [List.mem_reverse, mem_entries_iff] at hmem
      rw [bne_iff_ne]
      intro hkey
      rw [hkey, hmem] at hlookup
      cases hlookup
  | some value =>
      cases hfound : map.entries.reverse.lookup key with
      | none =>
          rw [List.lookup_eq_none_iff] at hfound
          have hmem := List.mem_reverse.2 (mem_entries_iff.2 hlookup)
          have hne := hfound _ hmem
          simp at hne
      | some v =>
          have hmem := mem_of_lookup_reverse hfound
          rw [mem_entries_iff, hlookup] at hmem
          exact hmem.symm

theorem lookup_extend (map more : SortedMap κ ν) (key : κ) :
    (map.extend more).lookup key = (more.lookup key).or (map.lookup key) := by
  rw [extend, lookup_foldl_update, lookup_reverse_entries]

def mapValues {ν' : Type} (f : ν → ν') (map : SortedMap κ ν) : SortedMap κ ν' where
  entries := map.entries.map fun entry => (entry.1, f entry.2)
  sorted := by
    rw [List.map_map]
    exact map.sorted

theorem lookup_mapValues {ν' : Type} (f : ν → ν') (map : SortedMap κ ν) (key : κ) :
    (map.mapValues f).lookup key = (map.lookup key).map f := by
  obtain ⟨entries, sorted⟩ := map
  show lookupEntries key (entries.map fun entry => (entry.1, f entry.2)) =
    (lookupEntries key entries).map f
  clear sorted
  induction entries with
  | nil => rfl
  | cons entry rest ih =>
      rw [List.map_cons, lookupEntries, lookupEntries, ih]
      split_ifs <;> rfl

theorem ext_entries {map map' : SortedMap κ ν} (h : map.entries = map'.entries) : map = map' := by
  obtain ⟨entries, sorted⟩ := map
  cases h
  rfl

/-- Maps with the same values are equal. -/
theorem ext_lookup {map map' : SortedMap κ ν} (h : ∀ key, map.lookup key = map'.lookup key) :
    map = map' := by
  have hnodup : ∀ map : SortedMap κ ν, map.entries.Nodup :=
    fun map => List.Nodup.of_map Prod.fst map.nodup_keys
  have hperm : map.entries.Perm map'.entries := by
    rw [List.perm_ext_iff_of_nodup (hnodup map) (hnodup map')]
    rintro ⟨key, value⟩
    rw [mem_entries_iff, mem_entries_iff, h]
  apply ext_entries
  refine hperm.eq_of_pairwise ?_ (List.pairwise_map.1 map.sorted)
    (List.pairwise_map.1 map'.sorted)
  intro a b _ _ hab hba
  exact absurd hab (lt_asymm hba)

theorem sum_keys_update_le (weight : κ → Nat) (key : κ) (change : Option ν → ν)
    (entries : List (κ × ν)) :
    ((updateEntries key change entries).map fun entry => weight entry.1).sum ≤
      weight key + (entries.map fun entry => weight entry.1).sum := by
  induction entries with
  | nil => exact Nat.le_refl _
  | cons entry entries ih =>
      obtain ⟨k, v⟩ := entry
      rw [updateEntries]
      split_ifs
      · exact Nat.le_refl _
      · simp only [List.map_cons, List.sum_cons]
        omega
      · simp only [List.map_cons, List.sum_cons] at ih ⊢
        omega

/-- Keys that are equal count once. -/
theorem sum_keys_ofList_le (weight : κ → Nat) (entries : List (κ × ν)) :
    ((ofList entries).entries.map fun entry => weight entry.1).sum ≤
      (entries.map fun entry => weight entry.1).sum := by
  have hfold : ∀ (entries : List (κ × ν)) (map : SortedMap κ ν),
      ((entries.foldl (fun map entry => map.update entry.1 fun _ => entry.2) map).entries.map
        fun entry => weight entry.1).sum ≤
          (map.entries.map fun entry => weight entry.1).sum +
            (entries.map fun entry => weight entry.1).sum := by
    intro entries
    induction entries with
    | nil => exact fun map => Nat.le_refl _
    | cons entry entries ih =>
        intro map
        have hrest := ih (map.update entry.1 fun _ => entry.2)
        have hupdate := sum_keys_update_le weight entry.1 (fun _ => entry.2) map.entries
        rw [List.foldl_cons, List.map_cons, List.sum_cons]
        simp only [update] at hrest ⊢
        omega
  have h := hfold entries empty
  rwa [show (empty : SortedMap κ ν).entries = [] from rfl, List.map_nil, List.sum_nil,
    Nat.zero_add] at h

/-! ## Renamed keys -/

def renameKeys (f : κ → κ) (map : SortedMap κ ν) : SortedMap κ ν :=
  ofList (map.entries.map fun entry => (f entry.1, entry.2))

theorem lookup_renameKeys {f : κ → κ} {map : SortedMap κ ν}
    (h : ∀ k k', (map.lookup k).isSome → (map.lookup k').isSome → f k = f k' → k = k')
    {key : κ} {value : ν} :
    (map.renameKeys f).lookup key = some value ↔ ∃ k, map.lookup k = some value ∧ f k = key := by
  have hmem : ∀ k v, (k, v) ∈ map.entries.map (fun entry => (f entry.1, entry.2)) ↔
      ∃ k', map.lookup k' = some v ∧ f k' = k := by
    intro k v
    rw [List.mem_map]
    constructor
    · rintro ⟨⟨k', v'⟩, hentry, heq⟩
      cases heq
      exact ⟨k', mem_entries_iff.1 hentry, rfl⟩
    · rintro ⟨k', hlookup, rfl⟩
      exact ⟨(k', v), mem_entries_iff.2 hlookup, rfl⟩
  rw [renameKeys, lookup_ofList_eq_some, hmem]
  intro k v v' hv hv'
  obtain ⟨k₁, hlookup, hk⟩ := (hmem k v).1 hv
  obtain ⟨k₂, hlookup', hk'⟩ := (hmem k v').1 hv'
  have hsame := h k₁ k₂ (by rw [hlookup]; rfl) (by rw [hlookup']; rfl) (hk.trans hk'.symm)
  rw [hsame, hlookup'] at hlookup
  exact (Option.some.inj hlookup).symm

/-- Keys that come back make the map come back. -/
theorem renameKeys_renameKeys {f g : κ → κ} {map : SortedMap κ ν}
    (h : ∀ key, (map.lookup key).isSome → g (f key) = key) :
    (map.renameKeys f).renameKeys g = map := by
  have hfirst : ∀ k v, (map.renameKeys f).lookup k = some v ↔
      ∃ k', map.lookup k' = some v ∧ f k' = k := by
    intro k v
    refine lookup_renameKeys fun k k' hk hk' heq => ?_
    rw [← h k hk, ← h k' hk', heq]
  have horigin : ∀ k, ((map.renameKeys f).lookup k).isSome → f (g k) = k := by
    intro k hk
    obtain ⟨v, hv⟩ := Option.isSome_iff_exists.1 hk
    obtain ⟨k', hlookup, rfl⟩ := (hfirst k v).1 hv
    rw [h k' (by rw [hlookup]; rfl)]
  apply ext_lookup
  intro key
  apply Option.ext
  intro value
  rw [lookup_renameKeys]
  · constructor
    · rintro ⟨k, hk, rfl⟩
      obtain ⟨k', hlookup, rfl⟩ := (hfirst k value).1 hk
      rwa [h k' (by rw [hlookup]; rfl)]
    · intro hlookup
      exact ⟨f key, (hfirst _ value).2 ⟨key, hlookup, rfl⟩, h key (by rw [hlookup]; rfl)⟩
  · intro k k' hk hk' heq
    rw [← horigin k hk, ← horigin k' hk', heq]

/-- When the map comes back, so does every key, if a key that does not come back becomes smaller
in some measure. -/
theorem key_of_renameKeys_renameKeys {f g : κ → κ} {map : SortedMap κ ν} (weight : κ → Nat)
    (hweight : ∀ key, g (f key) = key ∨ weight (g (f key)) < weight key)
    (h : (map.renameKeys f).renameKeys g = map) :
    ∀ key ∈ map.entries.map Prod.fst, g (f key) = key := by
  have hsecond := sum_keys_ofList_le weight
    ((map.renameKeys f).entries.map fun entry => (g entry.1, entry.2))
  have hfirst := sum_keys_ofList_le (fun key => weight (g key))
    (map.entries.map fun entry => (f entry.1, entry.2))
  have htotal : (map.entries.map fun entry => weight entry.1).sum ≤
      (map.entries.map fun entry => weight (g (f entry.1))).sum := by
    have hmap : (ofList ((map.renameKeys f).entries.map fun entry => (g entry.1, entry.2))) =
        map := h
    rw [hmap, List.map_map] at hsecond
    rw [List.map_map] at hfirst
    exact hsecond.trans hfirst
  refine List.forall_mem_map.2 fun entry hentry => ?_
  by_contra hne
  have hle : ∀ entry ∈ map.entries, weight (g (f entry.1)) ≤ weight entry.1 := by
    intro entry _
    rcases hweight entry.1 with heq | hlt
    · rw [heq]
    · exact Nat.le_of_lt hlt
  have hlt := List.sum_lt_sum _ _ hle ⟨entry, hentry, (hweight entry.1).resolve_left hne⟩
  exact absurd hlt (Nat.not_lt_of_le htotal)

end SortedMap

end Vanyline.Lib
