import Mathlib.Data.Char
import Mathlib.Data.List.Lex
import Vanyline.Lib.Counters
import Vanyline.Lib.JsonValue
import Vanyline.Lib.TextLines

/-!
# What an edit did to the diagnostics of a document

`edit_file` shows which diagnostics appeared with an edit and which are gone.  Two diagnostics are
the same if they are at the same place and have the same severity and message (`diagKey`); there
may be several of them, so they are counted and then paired off one to one.

`diffDiagnostics_exact`: this is the difference of the multisets of keys, in both directions.
-/

namespace Vanyline.Sandbox

open Vanyline.Lib TextLines

def i64Max : Int := 9223372036854775807

/-- `Value::as_i64`.  JSON has no leading zeros, and `-0` is read as a float. -/
def asI64 : Json → Option Int
  | .num n => if (n : Int) ≤ i64Max then some n else none
  | .decimal ('-' :: digits) =>
    (parseNat (2 ^ 63 + 1) digits).bind fun n =>
      if n = 0 ∨ digits.head? = some '+' then none else some (-n)
  | _ => none

def asStr : Json → Option Text
  | .str text => some text
  | _ => none

/-- `saturating_add` of `i64`, for a second summand that is not negative. -/
def satAddI64 (a : Int) (b : Nat) : Int := min (a + b) i64Max

/-- Line and column, counted from 1, severity and message. -/
abbrev DiagKey := Int × Int × Int × Text

def diagKey (d : Json) : DiagKey :=
  let start := ((d.get "range").bind (·.get "start")).getD .null
  let line := satAddI64 (((start.get "line").bind asI64).getD 0) 1
  let col := satAddI64 (((start.get "character").bind asI64).getD 0) 1
  let severity := ((d.get "severity").bind asI64).getD 1
  let message := ((d.get "message").bind asStr).getD []
  (line, col, severity, message)

structure DiagnosticsDiff where
  appeared : List DiagKey
  gone : List DiagKey
  unchanged : Nat

def countDiagKeys (diags : List Json) : Counter DiagKey := Counter.tallyUp (diags.map diagKey)

def diffDiagnostics (before after : List Json) : DiagnosticsDiff where
  appeared := Counter.unpaired (countDiagKeys before) (after.map diagKey)
  gone := Counter.unpaired (countDiagKeys after) (before.map diagKey)
  unchanged := (countDiagKeys after).overlap (countDiagKeys before)

/-- The keys of some diagnostics, each as often as it occurs. -/
def keysOf (diags : List Json) : Multiset DiagKey := (diags.map diagKey : List DiagKey)

namespace DiagnosticsDiff

/-- The difference with before and after exchanged. -/
def swap (diff : DiagnosticsDiff) : DiagnosticsDiff where
  appeared := diff.gone
  gone := diff.appeared
  unchanged := diff.unchanged

/-- The difference says exactly what changed from `before` to `after`. -/
structure Exact (before after : List Json) (diff : DiagnosticsDiff) : Prop where
  appeared : (diff.appeared : Multiset DiagKey) = keysOf after - keysOf before
  gone : (diff.gone : Multiset DiagKey) = keysOf before - keysOf after
  length_after : after.length = diff.unchanged + diff.appeared.length
  length_before : before.length = diff.unchanged + diff.gone.length
  disjoint : ∀ key ∈ diff.appeared, key ∉ diff.gone
  appeared_sublist : diff.appeared.Sublist (after.map diagKey)
  gone_sublist : diff.gone.Sublist (before.map diagKey)

end DiagnosticsDiff

/-! ## Multisets of keys -/

theorem card_keysOf (diags : List Json) : (keysOf diags).card = diags.length :=
  List.length_map diagKey

/-- What of a multiset is in another one and what is not make up the multiset. -/
theorem card_inter_add_card_sub {κ : Type} [DecidableEq κ] (s t : Multiset κ) :
    (s ∩ t).card + (s - t).card = s.card := by
  rw [add_comm, ← Multiset.card_add, Multiset.sub_add_inter]

/-- No key has more occurrences on both sides. -/
theorem notMem_sub_of_mem_sub {κ : Type} [DecidableEq κ] {s t : Multiset κ} {key : κ}
    (h : key ∈ s - t) : key ∉ t - s := by
  rw [Multiset.mem_sub] at h ⊢
  omega

theorem coe_appeared (before after : List Json) :
    ((diffDiagnostics before after).appeared : Multiset DiagKey) =
      keysOf after - keysOf before :=
  Counter.coe_unpaired _ _

theorem unchanged_eq_card (before after : List Json) :
    (diffDiagnostics before after).unchanged = (keysOf after ∩ keysOf before).card :=
  Counter.overlap_tallyUp _ _

theorem length_appeared (before after : List Json) :
    after.length =
      (diffDiagnostics before after).unchanged +
        (diffDiagnostics before after).appeared.length := by
  rw [← card_keysOf, unchanged_eq_card, ← card_inter_add_card_sub _ (keysOf before),
    ← coe_appeared, Multiset.coe_card]

/-- The code treats both directions alike. -/
theorem diffDiagnostics_swap (before after : List Json) :
    diffDiagnostics after before = (diffDiagnostics before after).swap := by
  have hunchanged : (diffDiagnostics after before).unchanged =
      (diffDiagnostics before after).unchanged := by
    rw [unchanged_eq_card, unchanged_eq_card, Multiset.inter_comm]
  show DiagnosticsDiff.mk _ _ (diffDiagnostics after before).unchanged = _
  rw [hunchanged]
  rfl

/-- For all lists of diagnostics the difference is exact, and exchanging them exchanges what
appeared and what is gone. -/
theorem diffDiagnostics_exact (before after : List Json) :
    (diffDiagnostics before after).Exact before after ∧
      diffDiagnostics after before = (diffDiagnostics before after).swap := by
  have hswap := diffDiagnostics_swap before after
  have hgone : ((diffDiagnostics before after).gone : Multiset DiagKey) =
      keysOf before - keysOf after := by
    have happeared := coe_appeared after before
    rwa [hswap] at happeared
  have hlength : before.length = (diffDiagnostics before after).unchanged +
      (diffDiagnostics before after).gone.length := by
    have happeared := length_appeared after before
    rwa [hswap] at happeared
  refine ⟨?_, hswap⟩
  refine
    { appeared := coe_appeared before after
      gone := hgone
      length_after := length_appeared before after
      length_before := hlength
      disjoint := ?_
      appeared_sublist := Counter.unpairedFrom_sublist _ _ _
      gone_sublist := Counter.unpairedFrom_sublist _ _ _ }
  intro key hmem
  rw [← Multiset.mem_coe, coe_appeared] at hmem
  rw [← Multiset.mem_coe, hgone]
  exact notMem_sub_of_mem_sub hmem

end Vanyline.Sandbox
