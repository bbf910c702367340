import Mathlib.Data.Char
import Mathlib.Data.List.Lex
import Vanyline.Lib.SortedMap
import Vanyline.Lib.TextLines

/-!
# JSON values and the values of a script

The two conversions of the bridge between rhai scripts and MCP servers.

* `Json` are the values of `serde_json`: integers from the least `i64` to the greatest `u64`,
  finite floats, and objects with sorted keys.  `Dynamic` are the values of a script, where an
  integer is an `i64`.
* `fieldsToDynamic_eq` and `entriesToJson_eq`: sorted fields stay in their order.
* `roundTrip_iff`: a value that goes to a script and back is unchanged exactly when all its
  integers are `i64`.  The others become floats.

Floats are a parameter: which ones are finite, and what the float of an integer is.
-/

namespace Vanyline.App.RhaiBridge

open Vanyline.Lib Vanyline.Lib.TextLines

/-! ## Values -/

/-- The floats of the two libraries. -/
structure Floats where
  Carrier : Type
  finite : Carrier → Bool
  ofU64 : UInt64 → Carrier
  ofI64 : Int64 → Carrier

variable (fl : Floats)

/-- The numbers of `serde_json`. -/
inductive Number where
  | posInt (n : UInt64)
  | negInt (n : { n : Int64 // n < 0 })
  | float (x : { x : fl.Carrier // fl.finite x = true })

inductive Json where
  | null
  | bool (b : Bool)
  | number (n : Number fl)
  | string (s : Text)
  | array (items : List Json)
  | object (fields : List (Text × Json))

/-- The values of a script.  `other` stands for all that JSON has nothing for, with its text. -/
inductive Dynamic where
  | unit
  | bool (b : Bool)
  | int (n : Int64)
  | float (x : fl.Carrier)
  | string (s : Text)
  | array (items : List Dynamic)
  | map (entries : List (Text × Dynamic))
  | other (text : Text)

variable {fl}

/-- A key is put into a map with sorted keys. -/
def insertEntry {ν : Type} (key : Text) (value : ν) (entries : List (Text × ν)) :
    List (Text × ν) :=
  SortedMap.updateEntries key (fun _ => value) entries

/-! ## The conversions -/

def Number.asI64 : Number fl → Option Int64
  | .posInt n => if n.toNat < 9223372036854775808 then some n.toInt64 else none
  | .negInt n => some n.1
  | .float _ => none

def Number.asF64 : Number fl → fl.Carrier
  | .posInt n => fl.ofU64 n
  | .negInt n => fl.ofI64 n.1
  | .float x => x.1

mutual

def jsonToDynamic : Json fl → Dynamic fl
  | .null => .unit
  | .bool b => .bool b
  | .number n =>
    match n.asI64 with
    | some i => .int i
    | none => .float n.asF64
  | .string s => .string s
  | .array items => .array (itemsToDynamic items)
  | .object fields => .map (fieldsToDynamic fields [])

def itemsToDynamic : List (Json fl) → List (Dynamic fl)
  | [] => []
  | item :: items => jsonToDynamic item :: itemsToDynamic items

/-- The fields are put into a map one after the other. -/
def fieldsToDynamic : List (Text × Json fl) → List (Text × Dynamic fl) →
    List (Text × Dynamic fl)
  | [], entries => entries
  | (key, value) :: fields, entries =>
    fieldsToDynamic fields (insertEntry key (jsonToDynamic value) entries)

end

/-- The number of an `i64`. -/
def numberOfI64 (i : Int64) : Number fl :=
  if h : i < 0 then .negInt ⟨i, h⟩ else .posInt i.toUInt64

/-- The number of a float: there is none for the infinities and for `NaN`. -/
def numberOfF64 (x : fl.Carrier) : Option (Number fl) :=
  if h : fl.finite x = true then some (.float ⟨x, h⟩) else none

mutual

def dynamicToJson : Dynamic fl → Json fl
  | .unit => .null
  | .bool b => .bool b
  | .int i => .number (numberOfI64 i)
  | .float x =>
    match numberOfF64 x with
    | some n => .number n
    | none => .null
  | .string s => .string s
  | .array items => .array (itemsToJson items)
  | .map entries => .object (entriesToJson entries [])
  | .other text => .string text

def itemsToJson : List (Dynamic fl) → List (Json fl)
  | [] => []
  | item :: items => dynamicToJson item :: itemsToJson items

def entriesToJson : List (Text × Dynamic fl) → List (Text × Json fl) → List (Text × Json fl)
  | [], fields => fields
  | (key, value) :: entries, fields =>
    entriesToJson entries (insertEntry key (dynamicToJson value) fields)

end

/-! ## Sorted keys -/

mutual

/-- The keys of all objects are sorted, as those of a `BTreeMap` are. -/
def Json.Sorted : Json fl → Prop
  | .array items => sortedItems items
  | .object fields => SortedMap.SortedKeys fields ∧ sortedFields fields
  | _ => True

def sortedItems : List (Json fl) → Prop
  | [] => True
  | item :: items => item.Sorted ∧ sortedItems items

def sortedFields : List (Text × Json fl) → Prop
  | [] => True
  | (_, value) :: fields => value.Sorted ∧ sortedFields fields

end

/-- A value of `serde_json`. -/
structure Value (fl : Floats) where
  json : Json fl
  sorted : json.Sorted

/-! ## There and back -/

/-- The number is a float or an `i64`. -/
def Number.Fits : Number fl → Prop
  | .posInt n => n.toNat < 9223372036854775808
  | .negInt _ => True
  | .float _ => True

mutual

/-- All integers of the value are `i64`. -/
def Json.Fits : Json fl → Prop
  | .number n => n.Fits
  | .array items => fitsItems items
  | .object fields => fitsFields fields
  | _ => True

def fitsItems : List (Json fl) → Prop
  | [] => True
  | item :: items => item.Fits ∧ fitsItems items

def fitsFields : List (Text × Json fl) → Prop
  | [] => True
  | (_, value) :: fields => value.Fits ∧ fitsFields fields

end

theorem fieldsToDynamic_append {fields : List (Text × Json fl)}
    {entries : List (Text × Dynamic fl)} (hsorted : SortedMap.SortedKeys fields)
    (hlt : ∀ entry ∈ entries, ∀ field ∈ fields, entry.1 < field.1) :
    fieldsToDynamic fields entries =
      entries ++ fields.map fun field => (field.1, jsonToDynamic field.2) := by
  induction fields generalizing entries with
  | nil =>
    rw [fieldsToDynamic, List.map_nil, List.append_nil]
  | cons field fields ih =>
    obtain ⟨key, value⟩ := field
    have hkeys := List.pairwise_cons.1 hsorted
    rw [fieldsToDynamic, insertEntry,
      SortedMap.updateEntries_of_lt fun entry hentry => hlt entry hentry _ List.mem_cons_self,
      ih hkeys.2, List.append_assoc]
    · rfl
    · intro entry hentry field hfield
      rcases List.mem_append.1 hentry with hentry | hentry
      · exact hlt entry hentry field (List.mem_cons_of_mem _ hfield)
      · rw [List.mem_singleton.1 hentry]
        exact hkeys.1 _ (List.mem_map_of_mem hfield)

theorem fieldsToDynamic_eq {fields : List (Text × Json fl)} (h : SortedMap.SortedKeys fields) :
    fieldsToDynamic fields [] = fields.map fun field => (field.1, jsonToDynamic field.2) :=
  fieldsToDynamic_append h fun _ hentry => (nomatch hentry)

theorem entriesToJson_append {entries : List (Text × Dynamic fl)}
    {fields : List (Text × Json fl)} (hsorted : SortedMap.SortedKeys entries)
    (hlt : ∀ field ∈ fields, ∀ entry ∈ entries, field.1 < entry.1) :
    entriesToJson entries fields =
      fields ++ entries.map fun entry => (entry.1, dynamicToJson entry.2) := by
  induction entries generalizing fields with
  | nil =>
    rw [entriesToJson, List.map_nil, List.append_nil]
  | cons entry entries ih =>
    obtain ⟨key, value⟩ := entry
    have hkeys := List.pairwise_cons.1 hsorted
    rw [entriesToJson, insertEntry,
      SortedMap.updateEntries_of_lt fun field hfield => hlt field hfield _ List.mem_cons_self,
      ih hkeys.2, List.append_assoc]
    · rfl
    · intro field hfield entry hentry
      rcases List.mem_append.1 hfield with hfield | hfield
      · exact hlt field hfield entry (List.mem_cons_of_mem _ hentry)
      · rw [List.mem_singleton.1 hfield]
        exact hkeys.1 _ (List.mem_map_of_mem hentry)

theorem entriesToJson_eq {entries : List (Text × Dynamic fl)} (h : SortedMap.SortedKeys entries) :
    entriesToJson entries [] = entries.map fun entry => (entry.1, dynamicToJson entry.2) :=
  entriesToJson_append h fun _ hfield => (nomatch hfield)

/-- An object whose fields are converted one by one. -/
theorem roundTrip_object {fields : List (Text × Json fl)} (h : SortedMap.SortedKeys fields) :
    dynamicToJson (jsonToDynamic (.object fields)) =
      .object (fields.map fun field => (field.1, dynamicToJson (jsonToDynamic field.2))) := by
  have hentries : SortedMap.SortedKeys
      (fields.map fun field => (field.1, jsonToDynamic field.2)) := by
    unfold SortedMap.SortedKeys
    rw [List.map_map]
    exact h
  rw [jsonToDynamic, dynamicToJson, fieldsToDynamic_eq h, entriesToJson_eq hentries,
    List.map_map]
  rfl

theorem numberOfI64_posInt {n : UInt64} (h : n.toNat < 9223372036854775808) :
    (numberOfI64 n.toInt64 : Number fl) = .posInt n := by
  have hsmall : 2 * n.toBitVec.toNat < 2 ^ 64 := by
    have hnat : n.toBitVec.toNat = n.toNat := rfl
    rw [hnat]
    omega
  have hnonneg : ¬n.toInt64 < 0 := by
    rw [Int64.lt_iff_toInt_lt]
    show ¬n.toBitVec.toInt < 0
    rw [BitVec.toInt_eq_toNat_of_lt hsmall]
    omega
  rw [numberOfI64, dif_neg hnonneg, UInt64.toUInt64_toInt64]

/-- A number comes back exactly when it is no integer above the greatest `i64`. -/
theorem roundTrip_number (n : Number fl) :
    dynamicToJson (jsonToDynamic (.number n)) = .number n ↔ (Json.number n).Fits := by
  rw [jsonToDynamic, Json.Fits]
  cases n with
  | posInt n =>
    rw [Number.Fits, Number.asI64]
    split_ifs with hn
    · refine ⟨fun _ => hn, fun _ => ?_⟩
      show dynamicToJson (.int n.toInt64) = _
      rw [dynamicToJson, numberOfI64_posInt hn]
    · refine ⟨fun heq => absurd heq ?_, fun h => absurd h hn⟩
      show dynamicToJson (.float (fl.ofU64 n)) ≠ _
      rw [dynamicToJson, numberOfF64]
      split_ifs
      · exact fun h => (nomatch h)
      · exact fun h => (nomatch h)
  | negInt n =>
    refine ⟨fun _ => trivial, fun _ => ?_⟩
    show dynamicToJson (.int n.1) = _
    rw [dynamicToJson, numberOfI64, dif_pos n.2]
  | float x =>
    refine ⟨fun _ => trivial, fun _ => ?_⟩
    show dynamicToJson (.float x.1) = _
    rw [dynamicToJson, numberOfF64, dif_pos x.2]

mutual

/-- Only the integers decide whether a value comes back.  The induction is over the value. -/
theorem roundTrip_iff : (v : Json fl) → v.Sorted →
    (dynamicToJson (jsonToDynamic v) = v ↔ v.Fits)
  | .null, _ => ⟨fun _ => trivial, fun _ => rfl⟩
  | .bool _, _ => ⟨fun _ => trivial, fun _ => rfl⟩
  | .number n, _ => roundTrip_number n
  | .string _, _ => ⟨fun _ => trivial, fun _ => rfl⟩
  | .array items, h => by
    rw [jsonToDynamic, dynamicToJson, Json.array.injEq, Json.Fits]
    exact roundTrip_items items h
  | .object fields, h => by
    rw [Json.Sorted] at h
    rw [roundTrip_object h.1, Json.object.injEq, Json.Fits]
    exact roundTrip_fields fields h.2

theorem roundTrip_items : (items : List (Json fl)) → sortedItems items →
    (itemsToJson (itemsToDynamic items) = items ↔ fitsItems items)
  | [], _ => ⟨fun _ => trivial, fun _ => rfl⟩
  | item :: items, h => by
    rw [sortedItems] at h
    rw [itemsToDynamic, itemsToJson, List.cons.injEq, roundTrip_iff item h.1,
      roundTrip_items items h.2, fitsItems]

theorem roundTrip_fields : (fields : List (Text × Json fl)) → sortedFields fields →
    ((fields.map fun field => (field.1, dynamicToJson (jsonToDynamic field.2))) = fields ↔
      fitsFields fields)
  | [], _ => ⟨fun _ => trivial, fun _ => rfl⟩
  | (key, value) :: fields, h => by
    rw [sortedFields] at h
    rw [List.map_cons, List.cons.injEq, Prod.mk.injEq, roundTrip_iff value h.1,
      roundTrip_fields fields h.2, fitsFields]
    exact and_congr_left' (and_iff_right rfl)

end

end Vanyline.App.RhaiBridge
