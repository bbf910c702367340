import Mathlib.Data.List.AList
import Mathlib.Data.List.Sort

/-!
# Gathering answers

Somebody asks several members and waits for a part from each of them.  A `Gather`
is what is left to decide when the wait is over: the number of parts to expect, and
the parts that are there.  A member that will not answer is given up, which lowers
the number.  The parts are read in the order of their keys.
-/

namespace Vanyline.Lib

/-- Parts by key, and how many of them to wait for. -/
structure Gather (κ : Type*) [DecidableEq κ] (α : Type*) where
  expected : Nat
  parts : AList fun _ : κ => α

namespace Gather

variable {κ α : Type*} [DecidableEq κ]

/-- Nothing has come yet. -/
def start (expected : Nat) : Gather κ α := ⟨expected, ∅⟩

/-- A part comes, in the place of an older one with the same key. -/
def add (g : Gather κ α) (k : κ) (a : α) : Gather κ α := { g with parts := g.parts.insert k a }

/-- One member will not answer. -/
def abandon (g : Gather κ α) : Gather κ α := { g with expected := g.expected - 1 }

/-- Is the wait over? -/
def full (g : Gather κ α) : Bool := decide (g.expected ≤ g.parts.keys.length)

/-- The parts in the order of their keys. -/
def values [LinearOrder κ] (g : Gather κ α) : List α :=
  (g.parts.keys.insertionSort (· ≤ ·)).filterMap g.parts.lookup

variable {g : Gather κ α} {k : κ} {a : α}

theorem lookup_add : (g.add k a).parts.lookup k = some a := AList.lookup_insert _

theorem lookup_add_ne {k' : κ} (h : k' ≠ k) :
    (g.add k a).parts.lookup k' = g.parts.lookup k' :=
  AList.lookup_insert_ne h

end Gather

end Vanyline.Lib
