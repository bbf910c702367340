import Mathlib
import Vanyline.App.Owners
import Vanyline.Controller.Reconcilers

/-!
# Names that are accepted and names that are derived from them

The application accepts names for Sandboxes and computes names for Owners; the controller derives
the names of its objects from them.  What is accepted is bounded by itself, what is derived has a
prefix or a suffix more.

* `isLabel_sanitizeOwnerName`: the sanitiser always gives a DNS label.
* `sandboxCrName_isOk_iff` says which names are accepted.
* `derived_names_iff`: a name of an Owner gives a namespace exactly when the two fit into one label,
  and all names derived from a Sandbox are labels exactly when the Sandbox leaves room for the
  longest affixes.
-/

namespace Vanyline.App

open Vanyline.Lib Vanyline.Crds

/-! ## Sandboxes -/

def maxDnsLabel : Nat := 63

inductive NamingError
  | invalid (field value : List Char)
  | tooLong (len max : Nat)

/-- The text of the error. -/
def NamingError.display : NamingError → List Char
  | .invalid field value =>
      "VNL-NAM-001: invalid ".toList ++ field ++ " « ".toList ++ value ++
        " » (lowercase alphanumerics and '-', must start and end with an alphanumeric)".toList
  | .tooLong len max =>
      "VNL-NAM-002: name too long (".toList ++ Nat.toDigits 10 len ++ " > ".toList ++
        Nat.toDigits 10 max ++ ")".toList

def validateLabel (field value : List Char) : Except NamingError Unit :=
  let charsOk := value.all isLabelChar
  let edgesOk := value.head?.any Char.isAlphanum && value.getLast?.any Char.isAlphanum
  if charsOk && edgesOk then .ok () else .error (.invalid field value)

/-- The name of the CR of a Sandbox, `{project}-{name}`. -/
def sandboxCrName (project name : List Char) : Except NamingError (List Char) := do
  validateLabel "project".toList project
  validateLabel "name".toList name
  let len := byteLength project + 1 + byteLength name
  if len > maxDnsLabel then .error (.tooLong len maxDnsLabel)
  else .ok (project ++ '-' :: name)

/-- The names and label values that the controller derives from the name of the CR. -/
def derivedNames (cr : List Char) : List (List Char) :=
  [serviceName cr, Controller.podName cr, Controller.checkoutJobName cr,
    Controller.worktreeRemoveJobName cr, Controller.netpolName cr, Controller.ingressName cr,
    Controller.netpolEgressName cr, cr]

theorem validateLabel_eq_ok_iff {field value : List Char} :
    validateLabel field value = .ok () ↔ LabelText value := by
  simp only [validateLabel]
  split_ifs with h
  · simp only [Bool.and_eq_true, List.all_eq_true] at h
    exact ⟨fun _ => ⟨h.1, h.2.1, h.2.2⟩, fun _ => rfl⟩
  · constructor
    · intro h'
      cases h'
    · intro h'
      simp only [Bool.and_eq_true, List.all_eq_true] at h
      exact absurd ⟨h'.chars, h'.first, h'.last⟩ h

theorem sandboxCrName_eq_ok {project name cr : List Char}
    (h : sandboxCrName project name = .ok cr) :
    LabelText project ∧ LabelText name ∧ cr = project ++ '-' :: name := by
  unfold sandboxCrName at h
  rcases hproject : validateLabel "project".toList project with e | _
  · rw [hproject] at h
    cases h
  · rcases hname : validateLabel "name".toList name with e | _
    · rw [hproject, hname] at h
      cases h
    · rw [hproject, hname] at h
      simp only [bind, Except.bind] at h
      split_ifs at h
      cases h
      exact ⟨validateLabel_eq_ok_iff.1 hproject, validateLabel_eq_ok_iff.1 hname, rfl⟩

/-! ## Affixes -/

theorem labelText_sandbox : LabelText "sandbox".toList := by decide +kernel

/-- The prefix of all objects of a Sandbox. -/
theorem isLabel_prefixed {name : List Char} (h : LabelText name) :
    IsLabel ("sandbox-".toList ++ name) ↔ name.length ≤ 55 := by
  have htext := labelText_sandbox.join h
  show IsLabel ("sandbox".toList ++ '-' :: name) ↔ _
  rw [isLabel_iff]
  have hlength : "sandbox".toList.length = 7 := by decide
  simp only [htext, true_and, List.length_append, List.length_cons, hlength]
  omega

/-- The prefix, and one more word behind a dash. -/
theorem isLabel_affixed {name : List Char} (h : LabelText name) (post : List Char)
    (hpost : LabelText post) :
    IsLabel ("sandbox-".toList ++ name ++ '-' :: post) ↔ name.length + post.length ≤ 54 := by
  have htext := (labelText_sandbox.join h).join hpost
  show IsLabel ("sandbox".toList ++ '-' :: name ++ '-' :: post) ↔ _
  rw [isLabel_iff]
  have hlength : "sandbox".toList.length = 7 := by decide
  simp only [htext, true_and, List.length_append, List.length_cons, hlength]
  omega

theorem checkoutJobName_mem (cr : List Char) : Controller.checkoutJobName cr ∈ derivedNames cr :=
  List.mem_cons_of_mem _ (List.mem_cons_of_mem _ (List.mem_cons_self ..))

/-- The longest derived name is that of the checkout Job. -/
theorem isLabel_derivedNames_iff {cr : List Char} (h : LabelText cr) :
    (∀ name ∈ derivedNames cr, IsLabel name) ↔ cr.length ≤ 46 := by
  have hservice : IsLabel (serviceName cr) ↔ cr.length ≤ 55 := isLabel_prefixed h
  have hcheckout : IsLabel (Controller.checkoutJobName cr) ↔ cr.length + 8 ≤ 54 :=
    isLabel_affixed h "checkout".toList (by decide +kernel)
  have hremove : IsLabel (Controller.worktreeRemoveJobName cr) ↔ cr.length + 6 ≤ 54 :=
    isLabel_affixed h "remove".toList (by decide +kernel)
  have hegress : IsLabel (Controller.netpolEgressName cr) ↔ cr.length + 6 ≤ 54 :=
    isLabel_affixed h "egress".toList (by decide +kernel)
  constructor
  · intro hall
    have hlabel := hcheckout.1 (hall _ (checkoutJobName_mem cr))
    omega
  · intro hle name hname
    have hprefixed : IsLabel (serviceName cr) := hservice.2 (by omega)
    simp only [derivedNames, List.mem_cons, List.not_mem_nil, or_false] at hname
    rcases hname with rfl | rfl | rfl | rfl | rfl | rfl | rfl | rfl
    · exact hprefixed
    · exact hprefixed
    · exact hcheckout.2 (by omega)
    · exact hremove.2 (by omega)
    · exact hprefixed
    · exact hprefixed
    · exact hegress.2 (by omega)
    · exact ⟨h, by omega⟩

/-! ## Sanitised names -/

theorem isLabelChar_keepLabelChar (c : Char) : isLabelChar (keepLabelChar c) = true := by
  unfold keepLabelChar
  split_ifs with h
  · exact h
  · rfl

theorem isLabelChar_of_mem_labelChars {s : List Char} {c : Char} (h : c ∈ labelChars s) :
    isLabelChar c = true := by
  cases s with
  | nil => cases h
  | cons d s =>
      rcases List.mem_cons.1 h with rfl | h
      · split_ifs
        · rfl
        · exact isLabelChar_keepLabelChar d
      · rcases List.mem_map.1 h with ⟨e, -, rfl⟩
        exact isLabelChar_keepLabelChar e

/-- A label character is a dash, a letter or a digit. -/
theorem isAlphanum_of_isLabelChar {c : Char} (h : isLabelChar c = true) (hne : c ≠ '-') :
    c.isAlphanum = true := by
  simp only [isLabelChar, Bool.or_eq_true, beq_iff_eq] at h
  simp only [Char.isAlphanum, Char.isAlpha, Bool.or_eq_true]
  rcases h with (h | h) | h
  · exact .inl (.inr h)
  · exact .inr h
  · exact absurd h hne

/-- Label characters without a dash at either end. -/
theorem labelText_of_edges {s : List Char} (hchars : ∀ c ∈ s, isLabelChar c = true) (hne : s ≠ [])
    (hfirst : s.head? ≠ some '-') (hlast : s.getLast? ≠ some '-') : LabelText s where
  chars := hchars
  first := by
    cases s with
    | nil => exact absurd rfl hne
    | cons c s =>
        apply isAlphanum_of_isLabelChar (hchars c (List.mem_cons_self ..))
        intro hc
        exact hfirst (congrArg some hc)
  last := by
    rw [List.getLast?_eq_some_getLast hne] at hlast ⊢
    apply isAlphanum_of_isLabelChar (hchars _ (List.getLast_mem hne))
    intro hc
    exact hlast (congrArg some hc)

theorem head_trimDashes (s : List Char) : (trimDashes s).head? ≠ some '-' := by
  intro h
  have hbegin : trimDashes s <+: s.dropWhile (· = '-') := List.rdropWhile_prefix _ _
  rcases hbegin with ⟨rest, hrest⟩
  have hhead : (s.dropWhile (· = '-')).head? = some '-' := by
    rw [← hrest, List.head?_append, h]
    rfl
  have hnot := List.head?_dropWhile_not (· = '-') s
  rw [hhead] at hnot
  simp at hnot

theorem isLabel_sanitizeOwnerName (raw : List Char) : IsLabel (sanitizeOwnerName raw) := by
  unfold sanitizeOwnerName
  set out := labelChars ((raw.takeWhile (· ≠ '@')).flatMap lowercase) with hout
  simp only
  set label := ((trimDashes out).take 63).rdropWhile (· = '-') with hlabel
  split_ifs with h
  · decide +kernel
  · have hbegin : label <+: (trimDashes out).take 63 := List.rdropWhile_prefix _ _
    have hsub : label <+: trimDashes out := hbegin.trans (List.take_prefix _ _)
    refine ⟨labelText_of_edges ?_ h ?_ ?_, ?_⟩
    · intro c hc
      have hmem : c ∈ out := by
        have htrim := hsub.subset hc
        have hdrop := (List.rdropWhile_prefix _ _ : trimDashes out <+: _).subset htrim
        exact (List.dropWhile_suffix _).subset hdrop
      exact isLabelChar_of_mem_labelChars hmem
    · rcases hsub with ⟨rest, hrest⟩
      intro hhead
      apply head_trimDashes out
      rw [← hrest, List.head?_append, hhead]
      rfl
    · intro hlast
      rw [List.getLast?_eq_some_getLast h, Option.some.injEq] at hlast
      exact List.rdropWhile_last_not _ _ h (by simpa using hlast)
    · exact Nat.le_trans hbegin.length_le (List.length_take_le _ _)

/-! ## The names of Owners -/

/-- The data before the first call, with links that earlier calls have written. -/
structure Recorded (users : Users) extends Start users where
  links_sanitized : ∀ u n, links u = some n → ∃ raw, n = sanitizeOwnerName raw

variable {users : Users}

/-- Every call works with the name that its user has from the start. -/
structure Named (start : Start users) (s : State) : Prop where
  links : ∀ u p, users.principal u = some p → (s.links u).getD (computedName p) = nameOf start u p
  calls : ∀ i c, s.calls i = some c → ∃ p, users.principal c.user = some p ∧
    ∀ n, c.name? = some n → n = nameOf start c.user p

theorem named_start (start : Start users) : Named start start.state where
  links _ _ _ := rfl
  calls i c hc := by cases hc

theorem Named.setCall {start : Start users} {s : State} (hs : Named start s) {i : Nat} {c : Call}
    {p : Principal} (hp : users.principal c.user = some p)
    (hname : ∀ n, c.name? = some n → n = nameOf start c.user p) :
    Named start (s.setCall i c) where
  links := hs.links
  calls := by
    intro j d hd
    by_cases hji : j = i
    · subst hji
      simp only [State.setCall, Function.update_self, Option.some.injEq] at hd
      exact hd ▸ ⟨p, hp, hname⟩
    · simp only [State.setCall, Function.update_of_ne hji] at hd
      exact hs.calls j d hd

theorem named_step {start : Start users} {s t : State} {a : Action} (hs : Named start s)
    (h : step users s a = some t) : Named start t := by
  rcases step_cases h with ⟨i, c, rfl, p, hp, hname⟩ | ⟨i, c, c', hc, huser, hname, hrest⟩
  · apply hs.setCall hp
    intro n hn
    rw [hname n hn]
    exact hs.links _ _ hp
  · rcases hs.calls i c hc with ⟨p, hp, hcall⟩
    have hset : Named start (s.setCall i c') := by
      apply hs.setCall (huser ▸ hp)
      intro n hn
      rw [huser]
      exact hcall n (hname n hn)
    rcases hrest with rfl | ⟨n, hn, ⟨-, rfl⟩ | rfl⟩
    · exact hset
    · exact ⟨hset.links, hset.calls⟩
    · refine ⟨?_, hset.calls⟩
      intro u q hq
      show (Function.update s.links c.user (some n) u).getD (computedName q) = _
      by_cases hu : u = c.user
      · subst hu
        rw [hp, Option.some.injEq] at hq
        subst hq
        rw [Function.update_self]
        exact hcall n hn
      · rw [Function.update_of_ne hu]
        exact hs.links u q hq

/-- The recorded name and the computed one are both sanitised. -/
theorem isLabel_nameOf (start : Recorded users) (u : Nat) (p : Principal) :
    IsLabel (nameOf start.toStart u p) := by
  unfold nameOf
  cases hlink : start.links u with
  | none => exact isLabel_sanitizeOwnerName _
  | some n =>
      rcases start.links_sanitized u n hlink with ⟨raw, hraw⟩
      show IsLabel n
      rw [hraw]
      exact isLabel_sanitizeOwnerName raw

/-- The Owner of a call that has found or created one. -/
def Phase.owner : Phase → Option OwnerName
  | .upserting n => some n
  | _ => none

theorem Phase.eq_of_owner {phase : Phase} {n : OwnerName} (h : phase.owner = some n) :
    phase = .upserting n := by
  cases phase with
  | upserting n' =>
    cases h
    rfl
  | probing link => cases h
  | creating n' => cases h
  | done result => cases h

/-- The call has found or created its Owner, under the name `n`. -/
def Call.HasOwner (c : Call) (n : OwnerName) : Prop := c.phase = .upserting n

/-- The sanitiser gives labels; a call of `ensure_owner` that has an Owner has a namespace for it
exactly when the name of its user fits; all names derived from an accepted Sandbox are labels
exactly when project and name have at most 45 characters. -/
theorem derived_names_iff (start : Recorded users) (app : Label) :
    (∀ raw, IsLabel (sanitizeOwnerName raw)) ∧
    (∀ as t, Run (step users) free start.state as t → ∀ i c p n, t.calls i = some c →
      users.principal c.user = some p → c.HasOwner n →
      ((∃ ns, ownerNamespaceName app.text n = .ok ns) ↔
        app.text.length + (nameOf start.toStart c.user p).length ≤ 62)) ∧
    ∀ project name cr, sandboxCrName project name = .ok cr →
      ((∀ derived ∈ derivedNames cr, IsLabel derived) ↔ project.length + name.length ≤ 45) := by
  refine ⟨isLabel_sanitizeOwnerName, ?_, ?_⟩
  · intro as t hrun i c p n hc hp howner
    have hnamed : Named start.toStart t :=
      hrun.invariant (named_start _) fun _ _ _ hs _ hstep => named_step hs hstep
    rcases hnamed.calls i c hc with ⟨q, hq, hname⟩
    rw [hp, Option.some.injEq] at hq
    subst hq
    have hn : n = nameOf start.toStart c.user p := by
      apply hname
      rw [Call.name?, howner]
    subst hn
    have htext := app.isLabel.toLabelText.join (isLabel_nameOf start c.user p).toLabelText
    rw [ownerNamespaceName_isOk_iff, isLabel_iff]
    simp only [htext, true_and, List.length_append, List.length_cons]
    omega
  · intro project name cr hcr
    rcases sandboxCrName_eq_ok hcr with ⟨hproject, hname, rfl⟩
    rw [isLabel_derivedNames_iff (hproject.join hname), List.length_append, List.length_cons]
    omega

/-! ## Names that are accepted and do not fit -/

/-- One user, with a name of sixty-three letters. -/
def longNamed : Users where
  principal u := if u = 1 then some ⟨"s1".toList, some (List.replicate 63 'a')⟩ else none
  subject_unique u v p q hp hq _ := by
    split_ifs at hp hq with hu hv
    rw [hu, hv]
  preferred_unique u v p q name hp hq _ _ := by
    split_ifs at hp hq with hu hv
    rw [hu, hv]

def noLinks : Recorded longNamed where
  owners _ := none
  links _ := none
  links_user u n h := by cases h
  links_sanitized u n h := by cases h

def vanyline : Label := ⟨"vanyline".toList, by decide +kernel⟩

/-- An Owner without a namespace is created, and a Sandbox without a checkout Job is accepted. -/
theorem accepted_names_do_not_fit :
    (¬ ∀ (users : Users) (start : Recorded users) (app : Label) (as : List Action) (t : State),
      Run (step users) free start.state as t → ∀ i c n, t.calls i = some c → c.HasOwner n →
        ∃ ns, ownerNamespaceName app.text n = .ok ns) ∧
    ¬ ∀ project name cr, sandboxCrName project name = .ok cr →
      ∀ derived ∈ derivedNames cr, IsLabel derived := by
  constructor
  · intro hall
    let test (t : State) : Bool := (t.calls 0).any fun c => c.phase.owner.any (·.length == 63)
    have htest : (exec (step longNamed) free noLinks.state
        [.readLink 0 1 true, .probe 0 true, .create 0 true]).any test = true := by decide +kernel
    rcases Run.exists_of_exec test htest with ⟨t, hrun, ht⟩
    rcases (Option.any_eq_true _ _).1 ht with ⟨c, hcall, hlong⟩
    rcases (Option.any_eq_true _ _).1 hlong with ⟨n, howner, hn⟩
    have hlabel := ownerNamespaceName_isOk_iff.1
      (hall longNamed noLinks vanyline _ t hrun 0 c n hcall (Phase.eq_of_owner howner))
    have hlength := hlabel.length_le
    have happ : vanyline.text.length = 8 := by decide +kernel
    rw [List.length_append, List.length_cons, happ, beq_iff_eq.1 hn] at hlength
    omega
  · intro hall
    have hcr : sandboxCrName (List.replicate 23 'a') (List.replicate 23 'b') =
        .ok (List.replicate 23 'a' ++ '-' :: List.replicate 23 'b') := by rfl
    have hlabel := hall _ _ _ hcr _ (checkoutJobName_mem _)
    have hlong : ¬ (Controller.checkoutJobName
        (List.replicate 23 'a' ++ '-' :: List.replicate 23 'b')).length ≤ 63 := by decide +kernel
    exact hlong hlabel.length_le

end Vanyline.App
