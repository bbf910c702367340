import Mathlib.Data.List.Basic

/-!
# JSON values as JavaScript sees them

`JSON.parse` gives a value of this type or throws.  A natural number is kept as such, so
that ids can be compared; another number is kept by its text.  Of equal keys of an object
the last one is kept, so the keys of `obj` differ.

* `get` is the access to a field, which other values than objects do not have.
* `truthy` is the value as a condition.
* `toText` is `String(value)`.  It throws when a field hides `toString`, as JSON has no
  functions.
-/

namespace Vanyline.Lib

inductive Json
  | null
  | bool (b : Bool)
  | num (n : Nat)
  | decimal (text : List Char)
  | str (text : List Char)
  | arr (items : List Json)
  | obj (fields : List (List Char × Json))

namespace Json

/-- An object with these fields. -/
def object (fields : List (String × Json)) : Json :=
  .obj (fields.map fun field => (field.1.toList, field.2))

/-- `typeof value === 'object' && value !== null`. -/
def isObject : Json → Bool
  | .arr _ | .obj _ => true
  | _ => false

def get (key : String) : Json → Option Json
  | .obj fields => fields.lookup key.toList
  | _ => none

def truthy : Json → Bool
  | .null | .bool false | .num 0 | .str [] => false
  | _ => true

/-- `===` for values that are not objects, each of which is equal to itself only. -/
def same : Json → Json → Bool
  | .null, .null => true
  | .bool a, .bool b => a == b
  | .num a, .num b => a == b
  | .decimal a, .decimal b | .str a, .str b => a == b
  | _, _ => false

mutual

def toText : Json → Option (List Char)
  | .null => some "null".toList
  | .bool b => some (toString b).toList
  | .num n => some (toString n).toList
  | .decimal text | .str text => some text
  | .arr items => joinTexts items
  | .obj fields =>
    if (fields.lookup "toString".toList).isSome then none else some "[object Object]".toList

/-- The texts of the items with commas; `null` has none. -/
def joinTexts : List Json → Option (List Char)
  | [] => some []
  | [.null] => some []
  | [x] => toText x
  | .null :: xs => do return ',' :: (← joinTexts xs)
  | x :: xs => do return (← toText x) ++ ',' :: (← joinTexts xs)

end

/-- `String(value)` for a value that may be missing. -/
def textOf : Option Json → Option (List Char)
  | some value => toText value
  | none => some "undefined".toList

theorem get_object_self (key : String) (value : Json) (fields : List (String × Json)) :
    (object ((key, value) :: fields)).get key = some value :=
  List.lookup_cons_self

theorem get_object_ne {key other : String} (h : (key.toList == other.toList) = false)
    (value : Json) (fields : List (String × Json)) :
    (object ((other, value) :: fields)).get key = (object fields).get key := by
  rw [object, get, List.map_cons, List.lookup_cons, h]
  rfl

theorem same_num {a b : Nat} : (num a).same (num b) = true ↔ a = b := by
  simp [same]

theorem same_num_left {a : Nat} {value : Json} (h : (num a).same value = true) : value = num a := by
  cases value with
  | num b => rw [same_num.1 h]
  | _ => cases h

theorem same_num_right {a : Nat} {value : Json} (h : value.same (num a) = true) : value = num a := by
  cases value with
  | num b => rw [same_num.1 h]
  | _ => cases h

end Json

end Vanyline.Lib
