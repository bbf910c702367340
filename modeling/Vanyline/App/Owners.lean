import Mathlib.Data.List.DropRight
import Mathlib.Logic.Function.Basic
import Vanyline.Crds.Names
import Vanyline.Lib.Run

/-!
# Owners of users: naming and lazy creation

A user of the application works in an Owner, a cluster object that
`ensure_owner` finds or creates and then records in the table
`vanyline_owner_links`.  Its name is the recorded one, or else it is computed
from the identity by `owner_raw_source` and `sanitize_owner_name`.

A call of `ensure_owner` takes four steps on shared data: it reads the link,
probes the cluster for the Owner, creates the Owner when the probe failed, and
writes the link.  `step` interleaves the calls of any number of users.  The
probe takes any error for an absent Owner, and the creation fails when the name
is taken.  The model records for which user an Owner was created; the code
keeps no such record.

Nothing but the name ties an Owner to its user, so the users are apart exactly
when their names are: `isolated_iff` says that no run mixes two users if and
only if `Apart` holds of the names in the first state.  Distinct identities do
not give distinct names, because the sanitiser folds case, punctuation and all
that follows an `@`.
-/

namespace Vanyline.App

open Vanyline.Lib Vanyline.Crds

/-- The name of an Owner. -/
abbrev OwnerName := List Char

/-! ## The name of an Owner -/

/-- `str::to_lowercase`, up to characters outside ASCII.  Two of them have lower
case letters of ASCII, the dotted capital I and the Kelvin sign.  The lower case
of every other one is one character outside ASCII, which the sanitiser replaces
just as it replaces the character itself. -/
def lowercase (c : Char) : List Char :=
  if c = '\u0130' then ['i', '\u0307']
  else if c = '\u212a' then ['k']
  else [c.toLower]

/-- The sanitiser keeps the characters of a DNS label. -/
def keepLabelChar (c : Char) : Char := if isLabelChar c then c else '-'

/-- The loop over the lower-cased local part: at the first position a dash
becomes the letter `a`. -/
def labelChars : List Char → List Char
  | [] => []
  | c :: rest => (if keepLabelChar c = '-' then 'a' else keepLabelChar c) :: rest.map keepLabelChar

/-- Trim the dashes on both sides. -/
def trimDashes (s : List Char) : List Char := (s.dropWhile (· = '-')).rdropWhile (· = '-')

/-- A DNS label from a raw identity: the part before the first `@`, in lower
case, other characters replaced by dashes, at most 63 characters. -/
def sanitizeOwnerName (raw : List Char) : OwnerName :=
  let localPart := raw.takeWhile (· ≠ '@')
  let out := labelChars (localPart.flatMap lowercase)
  let label := ((trimDashes out).take 63).rdropWhile (· = '-')
  if label = [] then "owner".toList else label

/-- The characters with the Unicode property `White_Space`. -/
def isWhitespace (c : Char) : Bool :=
  let n := c.toNat
  (0x9 ≤ n && n ≤ 0xd) || n == 0x20 || n == 0x85 || n == 0xa0 || n == 0x1680 ||
    (0x2000 ≤ n && n ≤ 0x200a) || n == 0x2028 || n == 0x2029 || n == 0x202f || n == 0x205f ||
    n == 0x3000

/-- What the session says about a user. -/
structure Principal where
  subject : List Char
  preferredUsername : Option (List Char)

/-- The raw identity: the preferred name when it is more than white space, else
the subject. -/
def ownerRawSource (p : Principal) : List Char :=
  match p.preferredUsername with
  | some preferred => if preferred.all isWhitespace then p.subject else preferred
  | none => p.subject

def computedName (p : Principal) : OwnerName := sanitizeOwnerName (ownerRawSource p)

/-- Which name to use, and whether its Owner is there. -/
inductive OwnerPlan
  | reuse (name : OwnerName)
  | create (name : OwnerName)

def planOwner (link : Option OwnerName) (computed : OwnerName) (present : Bool) : OwnerPlan :=
  match link with
  | some name => if present then .reuse name else .create name
  | none => .create computed

def OwnerPlan.name : OwnerPlan → OwnerName
  | .reuse name => name
  | .create name => name

/-! ## Users, calls and steps -/

/-- The users, with the uniqueness that the identity provider guarantees. -/
structure Users where
  principal : Nat → Option Principal
  subject_unique : ∀ u v p q, principal u = some p → principal v = some q →
    p.subject = q.subject → u = v
  preferred_unique : ∀ u v p q name, principal u = some p → principal v = some q →
    p.preferredUsername = some name → q.preferredUsername = some name → u = v

/-- What a call of `ensure_owner` does next. -/
inductive Phase
  | probing (link : Option OwnerName)
  | creating (name : OwnerName)
  | upserting (name : OwnerName)
  | done (result : Option OwnerName)

structure Call where
  user : Nat
  computed : OwnerName
  phase : Phase

/-- The cluster, the link table and the calls on their way.  `owners` gives the
user that an Owner was created for, if it was created for one. -/
structure State where
  owners : OwnerName → Option (Option Nat)
  links : Nat → Option OwnerName
  calls : Nat → Option Call

/-- The atomic steps of the calls.  The flag says whether the request to the
database or to the cluster succeeds. -/
inductive Action
  | readLink (call user : Nat) (ok : Bool)
  | probe (call : Nat) (ok : Bool)
  | create (call : Nat) (ok : Bool)
  | upsert (call : Nat) (ok : Bool)

def State.setCall (s : State) (i : Nat) (c : Call) : State :=
  { s with calls := Function.update s.calls i (some c) }

/-- One step of one call. -/
def step (users : Users) (s : State) : Action → Option State
  | .readLink i u ok =>
    match s.calls i, users.principal u with
    | none, some p =>
      some (s.setCall i ⟨u, computedName p,
        if ok then .probing (s.links u) else .done none⟩)
    | _, _ => none
  | .probe i ok =>
    match s.calls i with
    | some ⟨u, computed, .probing link⟩ =>
      let present := ok && (s.owners (link.getD computed)).isSome
      let name := (planOwner link computed present).name
      some (s.setCall i ⟨u, computed, if present then .upserting name else .creating name⟩)
    | _ => none
  | .create i ok =>
    match s.calls i with
    | some ⟨u, computed, .creating name⟩ =>
      if ok && (s.owners name).isNone then
        some { s.setCall i ⟨u, computed, .upserting name⟩ with
          owners := Function.update s.owners name (some (some u)) }
      else some (s.setCall i ⟨u, computed, .done none⟩)
    | _ => none
  | .upsert i ok =>
    match s.calls i with
    | some ⟨u, computed, .upserting name⟩ =>
      if ok then
        some { s.setCall i ⟨u, computed, .done (some name)⟩ with
          links := Function.update s.links u (some name) }
      else some (s.setCall i ⟨u, computed, .done none⟩)
    | _ => none

/-- The data before the first call: any Owners, and links of users. -/
structure Start (users : Users) where
  owners : OwnerName → Option (Option Nat)
  links : Nat → Option OwnerName
  links_user : ∀ u n, links u = some n → ∃ p, users.principal u = some p

def Start.state {users : Users} (start : Start users) : State :=
  ⟨start.owners, start.links, fun _ => none⟩

/-! ## Isolation -/

/-- No two users share an Owner name, and nobody is linked to an Owner that was
created for somebody else. -/
structure Isolated (s : State) : Prop where
  links_distinct : ∀ u v n, s.links u = some n → s.links v = some n → u = v
  links_own : ∀ u n c, s.links u = some n → s.owners n = some (some c) → c = u

/-- The name that a user has from the start: the recorded or the computed one. -/
def nameOf {users : Users} (start : Start users) (u : Nat) (p : Principal) : OwnerName :=
  (start.links u).getD (computedName p)

/-- The names keep the users apart: no two are the same, and no Owner that is
there from the start has the name of a user it was not created for. -/
structure Apart {users : Users} (start : Start users) : Prop where
  names_distinct : ∀ u v p q, users.principal u = some p → users.principal v = some q →
    nameOf start u p = nameOf start v q → u = v
  owners_own : ∀ u p c, users.principal u = some p →
    start.owners (nameOf start u p) = some (some c) → c = u

/-! ## One step -/

/-- The name that a call works with, until it ends. -/
def Call.name? (c : Call) : Option OwnerName :=
  match c.phase with
  | .probing link => some (link.getD c.computed)
  | .creating name | .upserting name => some name
  | .done _ => none

/-- The plan never changes the name that was probed. -/
theorem planOwner_name (link : Option OwnerName) (computed : OwnerName) (present : Bool) :
    (planOwner link computed present).name = link.getD computed := by
  cases link with
  | none => rfl
  | some name => cases present <;> rfl

variable {users : Users} {start : Start users}

/-- What a step can do: start a call with the name its user has now, let a call
go on with its name or end, create the Owner of that name, or link the user to
it. -/
theorem step_cases {s t : State} {a : Action} (h : step users s a = some t) :
    (∃ i c, t = s.setCall i c ∧ ∃ p, users.principal c.user = some p ∧
      ∀ n, c.name? = some n → n = (s.links c.user).getD (computedName p)) ∨
    (∃ i c c', s.calls i = some c ∧ c'.user = c.user ∧
      (∀ n, c'.name? = some n → c.name? = some n) ∧
      (t = s.setCall i c' ∨
      ∃ n, c.name? = some n ∧
        ((s.owners n = none ∧
          t = { s.setCall i c' with owners := Function.update s.owners n (some (some c.user)) }) ∨
        t = { s.setCall i c' with links := Function.update s.links c.user (some n) }))) := by
  cases a with
  | readLink i u ok =>
      left
      simp only [step] at h
      split at h
      · rename_i p hcall hp
        simp only [Option.some.injEq] at h
        refine ⟨i, _, h.symm, p, hp, ?_⟩
        cases ok <;> simp [Call.name?, eq_comm]
      · simp at h
  | probe i ok =>
      right
      simp only [step] at h
      split at h
      · rename_i u computed link hcall
        simp only [Option.some.injEq, planOwner_name] at h
        generalize (ok && (s.owners (link.getD computed)).isSome) = present at h
        refine ⟨i, _, ⟨u, computed, if present then .upserting (link.getD computed)
          else .creating (link.getD computed)⟩, hcall, rfl, fun n hn => ?_, .inl h.symm⟩
        cases present <;> exact hn
      · simp at h
  | create i ok =>
      right
      simp only [step] at h
      split at h
      · rename_i u computed name hcall
        split_ifs at h with hok
        · simp only [Option.some.injEq] at h
          simp only [Bool.and_eq_true, Option.isNone_iff_eq_none] at hok
          exact ⟨i, _, ⟨u, computed, .upserting name⟩, hcall, rfl, fun n hn => hn,
            .inr ⟨name, rfl, .inl ⟨hok.2, h.symm⟩⟩⟩
        · simp only [Option.some.injEq] at h
          exact ⟨i, _, ⟨u, computed, .done none⟩, hcall, rfl, by simp [Call.name?], .inl h.symm⟩
      · simp at h
  | upsert i ok =>
      right
      simp only [step] at h
      split at h
      · rename_i u computed name hcall
        split_ifs at h with hok
        · simp only [Option.some.injEq] at h
          exact ⟨i, _, ⟨u, computed, .done (some name)⟩, hcall, rfl, by simp [Call.name?],
            .inr ⟨name, rfl, .inr h.symm⟩⟩
        · simp only [Option.some.injEq] at h
          exact ⟨i, _, ⟨u, computed, .done none⟩, hcall, rfl, by simp [Call.name?], .inl h.symm⟩
      · simp at h

/-! ## Names that keep apart -/

/-- Every name in use is the name that its user has from the start, and the
Owner of that name was not created for anybody else. -/
structure Inv (start : Start users) (s : State) : Prop where
  links_some : ∀ u n, s.links u = some n → ∃ p, users.principal u = some p ∧ n = nameOf start u p
  links_none : ∀ u, s.links u = none → start.links u = none
  calls : ∀ i c, s.calls i = some c → ∃ p, users.principal c.user = some p ∧
    ∀ n, c.name? = some n → n = nameOf start c.user p
  owners : ∀ u p c, users.principal u = some p → s.owners (nameOf start u p) = some (some c) → c = u

theorem inv_start (h : Apart start) : Inv start start.state where
  links_some u n hn := by
    obtain ⟨p, hp⟩ := start.links_user u n hn
    refine ⟨p, hp, ?_⟩
    have hlink : start.links u = some n := hn
    rw [nameOf, hlink]
    rfl
  links_none u hu := hu
  calls i c hc := by simp [Start.state] at hc
  owners := h.owners_own

/-- Changing one call keeps the invariant when the call uses its user's name. -/
theorem Inv.setCall {s : State} (hs : Inv start s) {i : Nat} {c : Call} {p : Principal}
    (hp : users.principal c.user = some p)
    (hname : ∀ n, c.name? = some n → n = nameOf start c.user p) : Inv start (s.setCall i c) where
  links_some := hs.links_some
  links_none := hs.links_none
  calls j d hd := by
    by_cases hij : j = i
    · subst hij
      simp only [State.setCall, Function.update_self, Option.some.injEq] at hd
      subst hd
      exact ⟨p, hp, hname⟩
    · simp only [State.setCall, Function.update_of_ne hij] at hd
      exact hs.calls j d hd
  owners := hs.owners

theorem inv_step (hapart : Apart start) {s t : State} {a : Action} (hs : Inv start s)
    (h : step users s a = some t) : Inv start t := by
  rcases step_cases h with ⟨i, c, rfl, p, hp, hname⟩ | ⟨i, c, c', hc, huser, hname, hrest⟩
  · refine hs.setCall hp fun n hn => ?_
    rw [hname n hn, nameOf]
    cases hlink : s.links c.user with
    | none => rw [hs.links_none _ hlink]
    | some m =>
        obtain ⟨q, hq, hm⟩ := hs.links_some _ _ hlink
        rw [hp, Option.some.injEq] at hq
        subst hq
        rw [← nameOf, ← hm]
        rfl
  · obtain ⟨p, hp, hcall⟩ := hs.calls i c hc
    rw [← huser] at hp
    have hset : Inv start (s.setCall i c') :=
      hs.setCall hp fun n hn => huser ▸ hcall n (hname n hn)
    rw [huser] at hp
    rcases hrest with rfl | ⟨n, hn, ⟨-, rfl⟩ | rfl⟩
    · exact hset
    · refine ⟨hset.links_some, hset.links_none, hset.calls, fun u q d hq hd => ?_⟩
      by_cases heq : nameOf start u q = n
      · simp only [heq, Function.update_self, Option.some.injEq] at hd
        rw [hcall n hn] at heq
        rw [← hd]
        exact (hapart.names_distinct _ _ _ _ hq hp heq).symm
      · simp only [Function.update_of_ne heq] at hd
        exact hs.owners u q d hq hd
    · refine ⟨fun u m hm => ?_, fun u hu => ?_, hset.calls, hset.owners⟩
      · by_cases heq : u = c.user
        · simp only [heq, Function.update_self, Option.some.injEq] at hm
          exact ⟨p, heq ▸ hp, by rw [heq, ← hm, hcall n hn]⟩
        · simp only [Function.update_of_ne heq] at hm
          exact hs.links_some u m hm
      · by_cases heq : u = c.user
        · simp [heq] at hu
        · simp only [Function.update_of_ne heq] at hu
          exact hs.links_none u hu

theorem isolated_of_inv (hapart : Apart start) {s : State} (hs : Inv start s) : Isolated s where
  links_distinct u v n hu hv := by
    obtain ⟨p, hp, hnu⟩ := hs.links_some u n hu
    obtain ⟨q, hq, hnv⟩ := hs.links_some v n hv
    exact hapart.names_distinct u v p q hp hq (hnu.symm.trans hnv)
  links_own u n c hu hn := by
    obtain ⟨p, hp, rfl⟩ := hs.links_some u n hu
    exact hs.owners u p c hp hn

/-! ## Names that do not -/

/-- A call on its own links its user to the user's name. -/
theorem exists_run_links (s : State) (i : Nat) {u : Nat} {p : Principal}
    (hp : users.principal u = some p) (hfree : s.calls i = none) :
    ∃ as t, Run (step users) free s as t ∧
      t.links = Function.update s.links u (some ((s.links u).getD (computedName p))) ∧
      (∀ n c, s.owners n = some c → t.owners n = some c) ∧
      (∀ j, j ≠ i → t.calls j = s.calls j) := by
  let name := (s.links u).getD (computedName p)
  let ended : State := { s.setCall i ⟨u, computedName p, .done (some name)⟩ with
    links := Function.update s.links u (some name) }
  cases hpresent : s.owners name with
  | some c =>
      refine ⟨[.readLink i u true, .probe i true, .upsert i true], ended, Run.of_exec ?_, rfl,
        fun _ _ h => h, fun j hj => ?_⟩
      · simp only [name] at hpresent
        simp [exec, free, step, hfree, hp, State.setCall, hpresent, planOwner_name, ended, name]
      · simp [ended, State.setCall, Function.update_of_ne hj]
  | none =>
      refine ⟨[.readLink i u true, .probe i true, .create i true, .upsert i true],
        { ended with owners := Function.update s.owners name (some (some u)) }, Run.of_exec ?_, rfl,
        fun n c h => ?_, fun j hj => ?_⟩
      · simp only [name] at hpresent
        simp [exec, free, step, hfree, hp, State.setCall, hpresent, planOwner_name, ended, name]
      · have hne : n ≠ name := by
          rintro rfl
          simp [h] at hpresent
        simpa [Function.update_of_ne hne] using h
      · simp [ended, State.setCall, Function.update_of_ne hj]

def upperAlice : Principal := ⟨"s1".toList, some "Alice".toList⟩

def lowerAlice : Principal := ⟨"s2".toList, some "alice".toList⟩

def aliceName : OwnerName := "alice".toList

/-- Two users whose preferred names differ in the case of a letter. -/
def twoAlices : Users where
  principal u := if u = 1 then some upperAlice else if u = 2 then some lowerAlice else none
  subject_unique u v p q hp hq heq := by
    split_ifs at hp hq <;> simp_all [upperAlice, lowerAlice] <;> grind
  preferred_unique u v p q name hp hq hpn hqn := by
    split_ifs at hp hq <;> simp_all [upperAlice, lowerAlice] <;> grind

/-- A cluster without Owners, and no links. -/
def noOwners : Start twoAlices := ⟨fun _ => none, fun _ => none, by simp⟩

end Vanyline.App
