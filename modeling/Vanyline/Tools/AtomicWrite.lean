import Mathlib.Logic.Function.Basic
import Vanyline.Lib.Run
import Vanyline.Lib.Utf8

/-!
# Writing a file through a temporary file

`atomic_write` writes the new content to a temporary file beside the target, gives it the
permissions of the target, and renames it.  The name of the temporary file is the same for all
calls of the process on the same target.

Any number of calls of `write_file` and `edit_file` on one path run here at the same time, one
access to the file system after the other.  A file is reached by its name or by a handle, which
keeps it when the name goes to another file.  Nothing fails from outside: the directories are
there, the target is not a directory, and all accesses are permitted.

* `step` is one access of one call.
* `CallOk` says for each place in a call where its content is, and `Inv` adds what the target has.
* `atomic_of_run`: while no call creates the temporary file of another one, every reader of the
  target sees a whole content, and all calls succeed.
-/

namespace Vanyline.Tools.AtomicWrite

open Vanyline.Lib TextLines Utf8

/-! ## What the calls compute -/

inductive IoError
  | notFound
  | invalidData
deriving DecidableEq

/-- The errors of a call, without the hints of the first and the third. -/
inductive ToolsError
  | fileNotFound
  | invalidArgument (name reason : Text)
  | editNoMatch
  | editAmbiguous (count : Nat)
  | io (source : IoError)
deriving DecidableEq

/-- `matches(old).count()`; so many characters of the last match are left to skip. -/
def countMatches (old : Text) : Nat → Text → Nat
  | _, [] => 0
  | skip + 1, _ :: text => countMatches old skip text
  | 0, c :: text =>
    if old.isPrefixOf (c :: text) then countMatches old (old.length - 1) text + 1
    else countMatches old 0 text

/-- `replacen`: the first `n` matches are replaced. -/
def replacen (old new : Text) : Nat → Nat → Text → Text
  | _, _, [] => []
  | n, skip + 1, _ :: text => replacen old new n skip text
  | 0, 0, text => text
  | n + 1, 0, c :: text =>
    if old.isPrefixOf (c :: text) then new ++ replacen old new n (old.length - 1) text
    else c :: replacen old new (n + 1) 0 text

example : replacen "aa".toList "b".toList 2 0 "aaaxaa".toList = "baxb".toList := by decide

structure EditFileOptions where
  oldString : Text
  newString : Text
  replaceAll : Bool
deriving DecidableEq

/-- What `edit_file` makes of what it has read. -/
def newContent (opts : EditFileOptions) (read : Bytes) : Except ToolsError Bytes :=
  match decode read with
  | none => .error (.io .invalidData)
  | some content =>
    let count := countMatches opts.oldString 0 content
    if count = 0 then .error .editNoMatch
    else if count > 1 ∧ opts.replaceAll = false then .error (.editAmbiguous count)
    else
      let n := if opts.replaceAll then count else 1
      .ok (encode (replacen opts.oldString opts.newString n 0 content))

inductive Call
  | writeFile (content : Bytes)
  | editFile (opts : EditFileOptions)

/-! ## The file system -/

structure File where
  content : Bytes
  mode : Nat

/-- The mode of a new file. -/
def umaskMode : Nat := 0o644

/-- A write at the offset of a handle; what is missing before it is filled with zeros. -/
def overlay (content : Bytes) (offset : Nat) (chunk : Bytes) : Bytes :=
  content.take offset ++ List.replicate (offset - content.length) 0 ++ chunk ++
    content.drop (offset + chunk.length)

/-- Where a call is. -/
inductive Phase
  | idle
  /-- `edit_file` is about to read the target. -/
  | reading (opts : EditFileOptions)
  /-- About to create the temporary file. -/
  | ready (content : Bytes)
  /-- It has a handle with an offset, and this is left to write. -/
  | writing (ino offset : Nat) (rest : Bytes)
  | written
  /-- About to give the temporary file this mode. -/
  | settingMode (mode : Nat)
  /-- About to rename the temporary file. -/
  | permitted
  /-- About to remove the temporary file, because of this error. -/
  | removing (error : IoError)
  | done (result : Except ToolsError Unit)
deriving DecidableEq

/-- The call has created the temporary file, and has not renamed or removed it yet. -/
def Phase.active : Phase → Bool
  | .writing .. | .written | .settingMode _ | .permitted | .removing _ => true
  | .idle | .reading _ | .ready _ | .done _ => false

/-- The file system and the calls, which are named by the elements of `ι`. -/
structure State (ι : Type) where
  /-- The files by their numbers, and the next number. -/
  files : Nat → File
  next : Nat
  target : Option Nat
  tmp : Option Nat
  phase : ι → Phase
  /-- The content that a call is to write, once it is known. -/
  content : ι → Option Bytes
  /-- The call that has renamed last. -/
  last : Option ι

variable {ι : Type} [DecidableEq ι]

namespace State

variable (s : State ι)

def setPhase (i : ι) (phase : Phase) : State ι :=
  { s with phase := Function.update s.phase i phase }

def setContent (i : ι) (content : Bytes) : State ι :=
  { s.setPhase i (.ready content) with content := Function.update s.content i (some content) }

def setFile (ino : Nat) (file : File) : State ι :=
  { s with files := Function.update s.files ino file }

/-- What a reader of the target sees. -/
def view : Option Bytes := s.target.map fun ino => (s.files ino).content

end State

inductive Op
  | start
  | read
  | create
  | write (n : Nat)
  | close
  | metadata
  | setPermissions
  | rename
  | remove

variable (calls : ι → Call)

/-- The next access of call `i`. -/
def step (s : State ι) : ι × Op → Option (State ι)
  | (i, .start) =>
    match s.phase i, calls i with
    | .idle, .writeFile content => some (s.setContent i content)
    | .idle, .editFile opts =>
      if opts.oldString = [] then
        some (s.setPhase i (.done (.error
          (.invalidArgument "old_string".toList "must not be empty".toList))))
      else if s.target = none then some (s.setPhase i (.done (.error .fileNotFound)))
      else some (s.setPhase i (.reading opts))
    | _, _ => none
  | (i, .read) =>
    match s.phase i with
    | .reading opts =>
      match s.view with
      | none => some (s.setPhase i (.done (.error (.io .notFound))))
      | some read =>
        match newContent opts read with
        | .ok content => some (s.setContent i content)
        | .error e => some (s.setPhase i (.done (.error e)))
    | _ => none
  | (i, .create) =>
    match s.phase i, s.tmp with
    | .ready content, some ino =>
      some ((s.setFile ino { s.files ino with content := [] }).setPhase i
        (.writing ino 0 content))
    | .ready content, none =>
      some { (s.setFile s.next ⟨[], umaskMode⟩).setPhase i (.writing s.next 0 content) with
        next := s.next + 1
        tmp := some s.next }
    | _, _ => none
  | (i, .write n) =>
    match s.phase i with
    | .writing ino offset rest =>
      if 0 < n ∧ n ≤ rest.length then
        let file := s.files ino
        some ((s.setFile ino { file with
          content := overlay file.content offset (rest.take n) }).setPhase i
            (.writing ino (offset + n) (rest.drop n)))
      else none
    | _ => none
  | (i, .close) =>
    match s.phase i with
    | .writing _ _ [] => some (s.setPhase i .written)
    | _ => none
  | (i, .metadata) =>
    match s.phase i, s.target with
    | .written, some ino => some (s.setPhase i (.settingMode (s.files ino).mode))
    | .written, none => some (s.setPhase i .permitted)
    | _, _ => none
  | (i, .setPermissions) =>
    match s.phase i, s.tmp with
    | .settingMode mode, some ino =>
      some ((s.setFile ino { s.files ino with mode := mode }).setPhase i .permitted)
    | .settingMode _, none => some (s.setPhase i (.removing .notFound))
    | _, _ => none
  | (i, .rename) =>
    match s.phase i, s.tmp with
    | .permitted, some ino =>
      some { s.setPhase i (.done (.ok ())) with target := some ino, tmp := none, last := some i }
    | .permitted, none => some (s.setPhase i (.removing .notFound))
    | _, _ => none
  | (i, .remove) =>
    match s.phase i with
    | .removing error =>
      some { s.setPhase i (.done (.error (.io error))) with tmp := none }
    | _ => none

/-! ## What the writes should be -/

namespace State

/-- No call has begun. -/
structure Starts (s : State ι) : Prop where
  phase : ∀ i, s.phase i = .idle
  content : ∀ i, s.content i = none
  last : s.last = none
  target_lt : ∀ ino, s.target = some ino → ino < s.next
  tmp_lt : ∀ ino, s.tmp = some ino → ino < s.next
  distinct : ∀ ino, s.target = some ino → s.tmp ≠ some ino

/-- The call with this content has succeeded. -/
def Succeeded (s : State ι) (content : Bytes) : Prop :=
  ∃ i, s.phase i = .done (.ok ()) ∧ s.content i = some content

/-- The calls so far are atomic, from a state in which the target had the content `old`. -/
structure Atomic (old : Option Bytes) (s : State ι) : Prop where
  view : s.view = old ∨ ∃ i content, s.content i = some content ∧ s.view = some content
  succeeds : ∀ i result, s.phase i = .done result → result = .ok ()
  goes_on : ∀ i, (∀ result, s.phase i ≠ .done result) → ∃ op t, step calls s (i, op) = some t
  returned : (∀ i, s.phase i = .idle ∨ ∃ result, s.phase i = .done result) →
    (∃ i, s.phase i ≠ .idle) →
      s.tmp = none ∧ ∃ content, s.Succeeded content ∧ s.view = some content

end State

/-- An edit finds what it is to replace. -/
def FindsText (s : State ι) : ι × Op → Prop
  | (i, .start) =>
    match calls i with
    | .writeFile _ => True
    | .editFile opts => opts.oldString ≠ [] ∧ s.target ≠ none
  | (i, .read) =>
    match s.phase i, s.view with
    | .reading opts, some read => (newContent opts read).isOk = true
    | _, _ => True
  | _ => True

/-- No call creates the temporary file while another one has it. -/
def SoleOwner (s : State ι) : ι × Op → Prop
  | (i, .create) => ∀ j, j ≠ i → (s.phase j).active = false
  | _ => True

/-! ## Where the content of a call is -/

def CallOk (s : State ι) (i : ι) : Prop :=
  match s.phase i with
  | .idle => True
  | .reading _ => s.target ≠ none
  | .ready content => s.content i = some content
  | .writing ino offset rest =>
    s.tmp = some ino ∧ offset = (s.files ino).content.length ∧
      s.content i = some ((s.files ino).content ++ rest)
  | .written | .settingMode _ | .permitted =>
    ∃ ino, s.tmp = some ino ∧ s.content i = some (s.files ino).content
  | .removing _ => False
  | .done result => result = .ok () ∧ s.last ≠ none

omit [DecidableEq ι] in
theorem CallOk.writing {s : State ι} {i : ι} {ino offset : Nat} {rest c : Bytes}
    (hphase : s.phase i = .writing ino offset rest) (htmp : s.tmp = some ino)
    (hcontent : (s.files ino).content = c) (hoffset : offset = c.length)
    (hwhole : s.content i = some (c ++ rest)) : CallOk s i := by
  subst hcontent
  rw [CallOk, hphase]
  exact ⟨htmp, hoffset, hwhole⟩

structure Inv (old : Option Bytes) (s : State ι) : Prop where
  calls : ∀ i, CallOk s i
  alone : ∀ i j, (s.phase i).active = true → (s.phase j).active = true → i = j
  target_lt : ∀ ino, s.target = some ino → ino < s.next
  tmp_lt : ∀ ino, s.tmp = some ino → ino < s.next
  distinct : ∀ ino, s.target = some ino → s.tmp ≠ some ino
  /-- The temporary file belongs to a call. -/
  owned : s.last ≠ none → (∀ i, (s.phase i).active = false) → s.tmp = none
  view : match s.last with
    | none => s.view = old
    | some i => s.phase i = .done (.ok ()) ∧ s.content i ≠ none ∧ s.view = s.content i

variable {calls} {s t : State ι} {i j : ι} {old : Option Bytes}

omit [DecidableEq ι] in
theorem State.Starts.inv (h : s.Starts) : Inv s.view s where
  calls i := by
    rw [CallOk, h.phase i]
    trivial
  alone i j hi := by
    rw [h.phase i] at hi
    cases hi
  target_lt := h.target_lt
  tmp_lt := h.tmp_lt
  distinct := h.distinct
  owned hlast := absurd h.last hlast
  view := by rw [h.last]

omit [DecidableEq ι] in
/-- A call that has not created the temporary file does not care about the files. -/
theorem CallOk.of_inactive (h : CallOk s j) (hactive : (s.phase j).active = false)
    (hphase : t.phase j = s.phase j) (hcontent : t.content j = s.content j)
    (htarget : s.target ≠ none → t.target ≠ none) (hlast : s.last ≠ none → t.last ≠ none) :
    CallOk t j := by
  unfold CallOk at h ⊢
  rw [hphase, hcontent]
  cases hcase : s.phase j <;> rw [hcase] at h hactive
  case done result => exact ⟨h.1, hlast h.2⟩
  case reading => exact htarget h
  case idle | ready => exact h
  all_goals cases hactive

theorem overlay_length (content chunk : Bytes) :
    overlay content content.length chunk = content ++ chunk := by
  rw [overlay, List.take_length, Nat.sub_self, List.drop_eq_nil_of_le (Nat.le_add_right _ _)]
  simp

/-- The steps of the other calls change nothing for a call. -/
structure Others (s t : State ι) (i : ι) : Prop where
  phase : ∀ j, j ≠ i → t.phase j = s.phase j
  content : ∀ j, j ≠ i → t.content j = s.content j

omit [DecidableEq ι] in
theorem CallOk.of_same_files (h : CallOk s j) (hphase : t.phase j = s.phase j)
    (hcontent : t.content j = s.content j) (htarget : t.target = s.target)
    (hfiles : t.files = s.files) (htmp : t.tmp = s.tmp) (hlast : t.last = s.last) :
    CallOk t j := by
  unfold CallOk at h ⊢
  rw [hphase, hcontent, htarget, hfiles, htmp, hlast]
  exact h

omit [DecidableEq ι] in
theorem Inv.others_inactive (h : Inv old s) (hi : (s.phase i).active = true) :
    ∀ j, j ≠ i → (s.phase j).active = false := by
  intro j hj
  cases hactive : (s.phase j).active with
  | false => rfl
  | true => exact absurd (h.alone j i hactive hi) hj

/-- What call `i` may do without touching the target: it goes on with files as they are, or it
alone has the temporary file. -/
inductive Touches (s t : State ι) (i : ι) : Prop
  | nothing (files : t.files = s.files) (tmp : t.tmp = s.tmp)
    (active : (t.phase i).active = (s.phase i).active)
  | temporary (others : ∀ j, j ≠ i → (s.phase j).active = false)
    (active : (t.phase i).active = true)

omit [DecidableEq ι] in
theorem Inv.calls_of (h : Inv old s) (hothers : Others s t i) (htarget : t.target = s.target)
    (hlast : t.last = s.last) (htouches : Touches s t i) (hi : CallOk t i) (j : ι) :
    CallOk t j := by
  by_cases hj : j = i
  · exact hj ▸ hi
  · cases htouches with
    | nothing hfiles htmp _ =>
      exact (h.calls j).of_same_files (hothers.phase j hj) (hothers.content j hj) htarget hfiles
        htmp hlast
    | temporary hinactive _ =>
      exact (h.calls j).of_inactive (hinactive j hj) (hothers.phase j hj) (hothers.content j hj)
        (fun hne => by rwa [htarget]) fun hne => by rwa [hlast]

omit [DecidableEq ι] in
theorem Inv.alone_of (h : Inv old s) (hothers : Others s t i) (htouches : Touches s t i)
    (j k : ι) (hj : (t.phase j).active = true) (hk : (t.phase k).active = true) : j = k := by
  have hsame : ∀ l, l ≠ i → (t.phase l).active = true → (s.phase l).active = true :=
    fun l hl hactive => hothers.phase l hl ▸ hactive
  cases htouches with
  | nothing _ _ hactive =>
    have hall : ∀ l, (t.phase l).active = true → (s.phase l).active = true := by
      intro l hl
      by_cases hli : l = i
      · rw [hli, ← hactive, ← hli]
        exact hl
      · exact hsame l hli hl
    exact h.alone j k (hall j hj) (hall k hk)
  | temporary hinactive _ =>
    have hall : ∀ l, (t.phase l).active = true → l = i := by
      intro l hl
      by_contra hli
      have hactive := hsame l hli hl
      rw [hinactive l hli] at hactive
      cases hactive
    rw [hall j hj, hall k hk]

omit [DecidableEq ι] in
/-- A step of call `i` that leaves the target alone. -/
theorem Inv.keep (h : Inv old s) (hothers : Others s t i) (htarget : t.target = s.target)
    (hnext : s.next ≤ t.next) (hlast : t.last = s.last) (htouches : Touches s t i)
    (hbusy : ∀ result, s.phase i ≠ .done result) (hi : CallOk t i)
    (htmp : ∀ ino, t.tmp = some ino → ino < t.next ∧ s.target ≠ some ino)
    (hfile : ∀ ino, s.target = some ino → (t.files ino).content = (s.files ino).content) :
    Inv old t where
  calls := h.calls_of hothers htarget hlast htouches hi
  alone := h.alone_of hothers htouches
  target_lt ino hino := Nat.lt_of_lt_of_le (h.target_lt ino (htarget ▸ hino)) hnext
  tmp_lt ino hino := (htmp ino hino).1
  distinct ino hino heq := (htmp ino heq).2 (htarget ▸ hino)
  owned hne hinactive := by
    cases htouches with
    | nothing _ htmp hactive =>
      rw [htmp]
      apply h.owned (hlast ▸ hne)
      intro j
      by_cases hj : j = i
      · rw [hj, ← hactive]
        exact hinactive i
      · rw [← hothers.phase j hj]
        exact hinactive j
    | temporary _ hactive =>
      rw [hinactive i] at hactive
      cases hactive
  view := by
    have hview : t.view = s.view := by
      unfold State.view
      rw [htarget]
      cases hcase : s.target with
      | none => rfl
      | some ino => exact congrArg some (hfile ino hcase)
    have hold := h.view
    rw [hlast, hview]
    cases hcase : s.last with
    | none =>
      rw [hcase] at hold
      exact hold
    | some k =>
      rw [hcase] at hold
      have hk : k ≠ i := by
        rintro rfl
        exact hbusy _ hold.1
      show t.phase k = _ ∧ t.content k ≠ none ∧ s.view = t.content k
      rw [hothers.phase k hk, hothers.content k hk]
      exact hold

/-! ## The accesses -/

theorem others_setPhase (s : State ι) (i : ι) (phase : Phase) : Others s (s.setPhase i phase) i :=
  ⟨fun _ hj => Function.update_of_ne hj .., fun _ _ => rfl⟩

theorem others_setContent (s : State ι) (i : ι) (content : Bytes) :
    Others s (s.setContent i content) i :=
  ⟨fun _ hj => Function.update_of_ne hj .., fun _ hj => Function.update_of_ne hj ..⟩

@[simp] theorem setPhase_phase_self (s : State ι) (i : ι) (phase : Phase) :
    (s.setPhase i phase).phase i = phase := Function.update_self ..

@[simp] theorem setContent_phase_self (s : State ι) (i : ι) (content : Bytes) :
    (s.setContent i content).phase i = .ready content := Function.update_self ..

omit [DecidableEq ι] in
@[simp] theorem setFile_files_self (s : State ι) (ino : Nat) (file : File) :
    (s.setFile ino file).files ino = file := Function.update_self ..

/-- The call goes on, and the file system stays as it is. -/
theorem Inv.setPhase (h : Inv old s) {phase : Phase} (hbusy : ∀ result, s.phase i ≠ .done result)
    (hactive : phase.active = (s.phase i).active) (hi : CallOk (s.setPhase i phase) i) :
    Inv old (s.setPhase i phase) := by
  have htouches : Touches s (s.setPhase i phase) i :=
    .nothing rfl rfl (by rw [setPhase_phase_self, hactive])
  exact h.keep (others_setPhase s i phase) rfl (Nat.le_refl _) rfl htouches hbusy hi
    (fun ino hino => ⟨h.tmp_lt ino hino, fun heq => h.distinct ino heq hino⟩) fun _ _ => rfl

/-- The content of the call is known. -/
theorem Inv.setContent (h : Inv old s) (content : Bytes)
    (hphase : s.phase i = .idle ∨ ∃ opts, s.phase i = .reading opts) :
    Inv old (s.setContent i content) := by
  have hbusy : ∀ result, s.phase i ≠ .done result := by
    intro result heq
    rcases hphase with hphase | ⟨opts, hphase⟩ <;> rw [hphase] at heq <;> cases heq
  have hactive : (s.phase i).active = false := by
    rcases hphase with hphase | ⟨opts, hphase⟩ <;> rw [hphase] <;> rfl
  have htouches : Touches s (s.setContent i content) i :=
    .nothing rfl rfl (by rw [setContent_phase_self, hactive]; rfl)
  have hi : CallOk (s.setContent i content) i := by
    rw [CallOk, setContent_phase_self]
    exact Function.update_self ..
  exact h.keep (others_setContent s i content) rfl (Nat.le_refl _) rfl htouches hbusy hi
    (fun ino hino => ⟨h.tmp_lt ino hino, fun heq => h.distinct ino heq hino⟩) fun _ _ => rfl

theorem Inv.start (h : Inv old s) (hfinds : FindsText calls s (i, .start))
    (hstep : step calls s (i, .start) = some t) : Inv old t := by
  simp only [step] at hstep
  split at hstep
  case h_1 content hphase hcall =>
    cases hstep
    exact h.setContent content (.inl hphase)
  case h_2 opts hphase hcall =>
    simp only [FindsText, hcall] at hfinds
    rw [if_neg hfinds.1, if_neg hfinds.2] at hstep
    cases hstep
    refine h.setPhase (by simp [hphase]) (by rw [hphase]; rfl) ?_
    rw [CallOk, setPhase_phase_self]
    exact hfinds.2
  case h_3 => cases hstep

theorem Inv.read (h : Inv old s) (hfinds : FindsText calls s (i, .read))
    (hstep : step calls s (i, .read) = some t) : Inv old t := by
  simp only [step] at hstep
  split at hstep
  case h_1 opts hphase =>
    split at hstep
    case h_1 hview =>
      have htarget := h.calls i
      rw [CallOk, hphase] at htarget
      exact absurd (Option.map_eq_none_iff.1 hview) htarget
    case h_2 read hview =>
      simp only [FindsText, hphase, hview] at hfinds
      split at hstep
      case h_1 content hnew =>
        cases hstep
        exact h.setContent content (.inr ⟨opts, hphase⟩)
      case h_2 e hnew =>
        rw [hnew] at hfinds
        cases hfinds
  case h_2 => cases hstep

omit [DecidableEq ι] in
/-- Other calls have no temporary file, because this one has it. -/
theorem Inv.temporary (h : Inv old s) (hi : (s.phase i).active = true)
    (hactive : (t.phase i).active = true) : Touches s t i :=
  .temporary (h.others_inactive hi) hactive

theorem Inv.create (h : Inv old s) (hsole : SoleOwner s (i, .create))
    (hstep : step calls s (i, .create) = some t) : Inv old t := by
  simp only [step] at hstep
  split at hstep
  case h_1 content ino hphase htmp =>
    cases hstep
    have hready := h.calls i
    rw [CallOk, hphase] at hready
    have hne : ∀ a, s.target = some a → a ≠ ino := by
      rintro a ha rfl
      exact h.distinct a ha htmp
    refine h.keep (i := i) ⟨fun _ hj => Function.update_of_ne hj .., fun _ _ => rfl⟩ rfl
      (Nat.le_refl _) rfl (.temporary hsole ?_) (by simp [hphase]) ?_ ?_ ?_
    · rw [setPhase_phase_self]
      rfl
    · exact .writing (c := []) (Function.update_self ..) htmp
        (congrArg File.content (setFile_files_self s ino _)) rfl hready
    · intro a ha
      exact ⟨h.tmp_lt a ha, fun heq => h.distinct a heq ha⟩
    · intro a ha
      exact congrArg File.content (Function.update_of_ne (hne a ha) ..)
  case h_2 content hphase htmp =>
    cases hstep
    have hready := h.calls i
    rw [CallOk, hphase] at hready
    have hne : ∀ a, s.target = some a → a ≠ s.next := fun a ha => (h.target_lt a ha).ne
    refine h.keep (i := i) ⟨fun _ hj => Function.update_of_ne hj .., fun _ _ => rfl⟩ rfl
      (Nat.le_succ _) rfl (.temporary hsole ?_) (by simp [hphase]) ?_ ?_ ?_
    · show (Function.update s.phase i _ i).active = true
      rw [Function.update_self]
      rfl
    · exact .writing (c := []) (Function.update_self ..) rfl
        (congrArg File.content (setFile_files_self s s.next _)) rfl hready
    · intro a ha
      cases ha
      exact ⟨Nat.lt_succ_self _, fun heq => hne _ heq rfl⟩
    · intro a ha
      exact congrArg File.content (Function.update_of_ne (hne a ha) ..)
  case h_3 => cases hstep

theorem Inv.write (h : Inv old s) {n : Nat} (hstep : step calls s (i, .write n) = some t) :
    Inv old t := by
  simp only [step] at hstep
  split at hstep
  case h_1 ino offset rest hphase =>
    split_ifs at hstep with hn
    cases hstep
    have hwriting := h.calls i
    rw [CallOk, hphase] at hwriting
    obtain ⟨htmp, rfl, hcontent⟩ := hwriting
    have hactive : (s.phase i).active = true := by rw [hphase]; rfl
    have hne : ∀ a, s.target = some a → a ≠ ino := by
      rintro a ha rfl
      exact h.distinct a ha htmp
    refine h.keep (i := i) ⟨fun _ hj => Function.update_of_ne hj .., fun _ _ => rfl⟩ rfl
      (Nat.le_refl _) rfl (h.temporary hactive ?_) (by simp [hphase]) ?_ ?_ ?_
    · rw [setPhase_phase_self]
      rfl
    · refine .writing (c := (s.files ino).content ++ rest.take n) (Function.update_self ..) htmp
        ?_ ?_ ?_
      · show (Function.update s.files ino _ ino).content = _
        rw [Function.update_self]
        exact overlay_length _ _
      · rw [List.length_append, List.length_take, Nat.min_eq_left hn.2]
      · rw [List.append_assoc, List.take_append_drop]
        exact hcontent
    · intro a ha
      exact ⟨h.tmp_lt a ha, fun heq => h.distinct a heq ha⟩
    · intro a ha
      exact congrArg File.content (Function.update_of_ne (hne a ha) ..)
  case h_2 => cases hstep

theorem Inv.close (h : Inv old s) (hstep : step calls s (i, .close) = some t) : Inv old t := by
  simp only [step] at hstep
  split at hstep
  case h_1 ino offset hphase =>
    cases hstep
    have hwriting := h.calls i
    rw [CallOk, hphase] at hwriting
    obtain ⟨htmp, -, hcontent⟩ := hwriting
    rw [List.append_nil] at hcontent
    refine h.setPhase (by simp [hphase]) (by rw [hphase]; rfl) ?_
    rw [CallOk, setPhase_phase_self]
    exact ⟨ino, htmp, hcontent⟩
  case h_2 => cases hstep

theorem Inv.metadata (h : Inv old s) (hstep : step calls s (i, .metadata) = some t) :
    Inv old t := by
  have hwritten := h.calls i
  simp only [step] at hstep
  split at hstep
  case h_1 ino hphase _ | h_2 hphase _ =>
    cases hstep
    rw [CallOk, hphase] at hwritten
    refine h.setPhase (by simp [hphase]) (by rw [hphase]; rfl) ?_
    rw [CallOk, setPhase_phase_self]
    exact hwritten
  case h_3 => cases hstep

theorem Inv.setPermissions (h : Inv old s) (hstep : step calls s (i, .setPermissions) = some t) :
    Inv old t := by
  have hwritten := h.calls i
  simp only [step] at hstep
  split at hstep
  case h_1 mode ino hphase htmp =>
    cases hstep
    rw [CallOk, hphase] at hwritten
    have hactive : (s.phase i).active = true := by rw [hphase]; rfl
    have hfile : ∀ a, (Function.update s.files ino
        { s.files ino with mode := mode } a).content = (s.files a).content := by
      intro a
      by_cases ha : a = ino
      · rw [ha, Function.update_self]
      · rw [Function.update_of_ne ha]
    refine h.keep (i := i) ⟨fun _ hj => Function.update_of_ne hj .., fun _ _ => rfl⟩ rfl
      (Nat.le_refl _) rfl (h.temporary hactive ?_) (by simp [hphase]) ?_ ?_ fun a _ => hfile a
    · rw [setPhase_phase_self]
      rfl
    · obtain ⟨a, ha, hcontent⟩ := hwritten
      rw [CallOk, setPhase_phase_self]
      refine ⟨a, ha, hcontent.trans (congrArg some ?_)⟩
      exact (hfile a).symm
    · intro a ha
      exact ⟨h.tmp_lt a ha, fun heq => h.distinct a heq ha⟩
  case h_2 mode hphase htmp =>
    rw [CallOk, hphase] at hwritten
    obtain ⟨a, ha, -⟩ := hwritten
    rw [htmp] at ha
    cases ha
  case h_3 => cases hstep

theorem Inv.rename (h : Inv old s) (hstep : step calls s (i, .rename) = some t) : Inv old t := by
  have hwritten := h.calls i
  simp only [step] at hstep
  split at hstep
  case h_1 ino hphase htmp =>
    cases hstep
    rw [CallOk, hphase] at hwritten
    obtain ⟨a, ha, hcontent⟩ := hwritten
    rw [htmp] at ha
    cases ha
    have hactive : (s.phase i).active = true := by rw [hphase]; rfl
    have hothers := h.others_inactive hactive
    have hphase_of : ∀ j, j ≠ i → (s.setPhase i (.done (.ok ()))).phase j = s.phase j :=
      fun j hj => Function.update_of_ne hj ..
    have hall : ∀ j, ((s.setPhase i (.done (.ok ()))).phase j).active = false := by
      intro j
      by_cases hj : j = i
      · rw [hj, setPhase_phase_self]
        rfl
      · rw [hphase_of j hj]
        exact hothers j hj
    refine
      { calls := ?_
        alone := fun j k hj => absurd hj (by rw [hall j]; exact Bool.false_ne_true)
        target_lt := fun a ha => ?_
        tmp_lt := fun a ha => by cases ha
        distinct := fun a _ ha => by cases ha
        owned := fun _ _ => rfl
        view := ?_ }
    · intro j
      by_cases hj : j = i
      · rw [hj, CallOk, setPhase_phase_self]
        exact ⟨rfl, Option.some_ne_none i⟩
      · exact (h.calls j).of_inactive (hothers j hj) (hphase_of j hj) rfl
          (fun _ => Option.some_ne_none ino) fun _ => Option.some_ne_none i
    · cases ha
      exact h.tmp_lt _ htmp
    · refine ⟨Function.update_self .., ?_, hcontent.symm⟩
      show s.content i ≠ none
      rw [hcontent]
      exact Option.some_ne_none _
  case h_2 hphase htmp =>
    rw [CallOk, hphase] at hwritten
    obtain ⟨a, ha, -⟩ := hwritten
    rw [htmp] at ha
    cases ha
  case h_3 => cases hstep

/-- No call comes to remove its temporary file. -/
theorem Inv.remove (h : Inv old s) (hstep : step calls s (i, .remove) = some t) : Inv old t := by
  simp only [step] at hstep
  split at hstep
  case h_1 error hphase =>
    have hremoving := h.calls i
    rw [CallOk, hphase] at hremoving
    exact hremoving.elim
  case h_2 => cases hstep

theorem Inv.of_step (h : Inv old s) {a : ι × Op} (hfinds : FindsText calls s a)
    (hsole : SoleOwner s a) (hstep : step calls s a = some t) : Inv old t := by
  obtain ⟨i, op⟩ := a
  cases op with
  | start => exact h.start hfinds hstep
  | read => exact h.read hfinds hstep
  | create => exact h.create hsole hstep
  | write n => exact h.write hstep
  | close => exact h.close hstep
  | metadata => exact h.metadata hstep
  | setPermissions => exact h.setPermissions hstep
  | rename => exact h.rename hstep
  | remove => exact h.remove hstep

/-! ## Runs -/

/-- Wherever a call is, there is an access that it can make. -/
theorem goes_on (s : State ι) (i : ι) (hbusy : ∀ result, s.phase i ≠ .done result) :
    ∃ op t, step calls s (i, op) = some t := by
  cases hphase : s.phase i with
  | idle =>
    refine ⟨.start, ?_⟩
    simp only [step, hphase]
    cases calls i with
    | writeFile content => exact ⟨_, rfl⟩
    | editFile opts =>
      dsimp only
      split_ifs <;> exact ⟨_, rfl⟩
  | reading opts =>
    refine ⟨.read, ?_⟩
    simp only [step, hphase]
    split
    · exact ⟨_, rfl⟩
    · split <;> exact ⟨_, rfl⟩
  | ready content =>
    refine ⟨.create, ?_⟩
    simp only [step, hphase]
    cases s.tmp <;> exact ⟨_, rfl⟩
  | writing ino offset rest =>
    cases rest with
    | nil =>
      refine ⟨.close, ?_⟩
      simp only [step, hphase]
      exact ⟨_, rfl⟩
    | cons b rest =>
      refine ⟨.write 1, ?_⟩
      simp only [step, hphase, List.length_cons]
      rw [if_pos ⟨Nat.one_pos, Nat.le_add_left 1 _⟩]
      exact ⟨_, rfl⟩
  | written =>
    refine ⟨.metadata, ?_⟩
    simp only [step, hphase]
    cases s.target <;> exact ⟨_, rfl⟩
  | settingMode mode =>
    refine ⟨.setPermissions, ?_⟩
    simp only [step, hphase]
    cases s.tmp <;> exact ⟨_, rfl⟩
  | permitted =>
    refine ⟨.rename, ?_⟩
    simp only [step, hphase]
    cases s.tmp <;> exact ⟨_, rfl⟩
  | removing error =>
    refine ⟨.remove, ?_⟩
    simp only [step, hphase]
    exact ⟨_, rfl⟩
  | done result => exact absurd hphase (hbusy result)

theorem Inv.atomic (h : Inv old s) : s.Atomic calls old where
  view := by
    have hview := h.view
    cases hcase : s.last with
    | none =>
      rw [hcase] at hview
      exact .inl hview
    | some i =>
      rw [hcase] at hview
      obtain ⟨-, hne, heq⟩ := hview
      obtain ⟨content, hcontent⟩ := Option.ne_none_iff_exists'.1 hne
      exact .inr ⟨i, content, hcontent, heq.trans hcontent⟩
  succeeds i result hdone := by
    have hi := h.calls i
    rw [CallOk, hdone] at hi
    exact hi.1
  goes_on := goes_on s
  returned hall := by
    rintro ⟨i, hi⟩
    have hlast : s.last ≠ none := by
      rcases hall i with hidle | ⟨result, hdone⟩
      · exact absurd hidle hi
      · have hok := h.calls i
        rw [CallOk, hdone] at hok
        exact hok.2
    refine ⟨h.owned hlast ?_, ?_⟩
    · intro j
      rcases hall j with hidle | ⟨result, hdone⟩
      · rw [hidle]
        rfl
      · rw [hdone]
        rfl
    · obtain ⟨k, hk⟩ := Option.ne_none_iff_exists'.1 hlast
      have hview := h.view
      rw [hk] at hview
      obtain ⟨hdone, hne, heq⟩ := hview
      obtain ⟨content, hcontent⟩ := Option.ne_none_iff_exists'.1 hne
      exact ⟨content, ⟨k, hdone, hcontent⟩, heq.trans hcontent⟩

/-- What the calls of a process are asked to keep to. -/
def Undisturbed (calls : ι → Call) (s : State ι) (a : ι × Op) : Prop :=
  FindsText calls s a ∧ SoleOwner s a

/-- In every run in which no call creates the temporary file while another one has it, and the
edits find their text, all states are those of atomic writes. -/
theorem atomic_of_run {as : List (ι × Op)} (hstart : s.Starts)
    (hrun : Run (step calls) (Undisturbed calls) s as t) : t.Atomic calls s.view := by
  have hinv : Inv s.view t := hrun.invariant hstart.inv
    fun _ _ _ hinv hok hstep => hinv.of_step hok.1 hok.2 hstep
  exact hinv.atomic

/-! ## Two calls -/

/-- A directory with a file, and no call has begun. -/
def oneFile (content : Bytes) : State (Fin 2) where
  files _ := ⟨content, 0o600⟩
  next := 1
  target := some 0
  tmp := none
  phase _ := .idle
  content _ := none
  last := none

theorem starts_oneFile (content : Bytes) : (oneFile content).Starts where
  phase _ := rfl
  content _ := rfl
  last := rfl
  target_lt ino h := by
    cases h
    exact Nat.one_pos
  tmp_lt ino h := by cases h
  distinct ino _ h := by cases h

/-- One of the calls writes, and the other one edits what it finds. -/
def writeAndEdit : Fin 2 → Call
  | 0 => .writeFile [97, 98]
  | 1 => .editFile ⟨['b'], ['c'], false⟩

instance (calls : Fin 2 → Call) (s : State (Fin 2)) (a : Fin 2 × Op) :
    Decidable (FindsText calls s a) := by
  obtain ⟨i, op⟩ := a
  cases op <;> unfold FindsText <;> first | infer_instance | (dsimp only; split <;> infer_instance)

instance (s : State (Fin 2)) (a : Fin 2 × Op) : Decidable (SoleOwner s a) := by
  obtain ⟨i, op⟩ := a
  cases op <;> unfold SoleOwner <;> infer_instance

instance (calls : Fin 2 → Call) (s : State (Fin 2)) (a : Fin 2 × Op) :
    Decidable (Undisturbed calls s a) := instDecidableAnd

/-- The edit reads what is there before the write, and takes the temporary file after it. -/
theorem atomic_of_run_two : ∃ t : State (Fin 2), t.view = some [97, 99] ∧
    t.Atomic writeAndEdit (some [98]) := by
  let labels : List (Fin 2 × Op) := [(0, .start), (0, .create), (0, .write 1), (1, .start),
    (0, .write 1), (0, .close), (0, .metadata), (0, .setPermissions), (0, .rename), (1, .read),
    (1, .create), (1, .write 2), (1, .close), (1, .metadata), (1, .setPermissions), (1, .rename)]
  let test (t : State (Fin 2)) : Bool := t.view = some [97, 99]
  obtain ⟨t, hrun, ht⟩ := Run.exists_of_exec test
    (show (exec (step writeAndEdit) (Undisturbed writeAndEdit) (oneFile [98]) labels).any test =
      true by decide +kernel)
  exact ⟨t, of_decide_eq_true ht, atomic_of_run (starts_oneFile [98]) hrun⟩

def twoWrites : Fin 2 → Call
  | 0 => .writeFile [97, 98]
  | 1 => .writeFile [99, 100]

/-- The second call empties the temporary file of the first one, which is then renamed. -/
theorem torn_write : ¬ ∀ (calls : Fin 2 → Call) (s : State (Fin 2)) as t, s.Starts →
    Run (step calls) (FindsText calls) s as t → t.Atomic calls s.view := by
  intro h
  let labels : List (Fin 2 × Op) := [(0, .start), (1, .start), (0, .create), (0, .write 2),
    (0, .close), (0, .metadata), (0, .setPermissions), (1, .create), (1, .write 1),
    (0, .rename), (1, .write 1), (1, .close), (1, .metadata), (1, .setPermissions), (1, .remove)]
  let test (t : State (Fin 2)) : Bool :=
    t.phase 1 = .done (.error (.io .notFound))
  obtain ⟨t, hrun, ht⟩ := Run.exists_of_exec test
    (show (exec (step twoWrites) (FindsText twoWrites) (oneFile [98]) labels).any test =
      true by decide +kernel)
  have hatomic := h _ _ _ t (starts_oneFile [98]) hrun
  have hok := hatomic.succeeds 1 _ (of_decide_eq_true ht)
  cases hok

end Vanyline.Tools.AtomicWrite
