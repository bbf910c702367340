import Mathlib.Data.List.Nodup
import Mathlib.Logic.Function.Basic
import Vanyline.Lib.Run
import Vanyline.Sandbox.Documents

/-!
# The ruff wrapper

`vnl-ruff-lsp` keeps the text of the open documents, lints it with `ruff` and publishes the
result.  A lint notes the version and the generation of the document when it starts, and
publishes only if these are still the same when `ruff` ends.  Otherwise it starts a lint of
the present text after a pause.

The main loop takes one event after the other, in the sections of its lock.  The tasks go on
between these, each from its pause to the snapshot, the end of `ruff`, the check and the
frame.

* `Fresh` says that what is published is never older than the document, that each state of
  the document is published once at most, and that the last publication is of the text of
  the document when nothing goes on.
* It fails when an event comes between the check and the frame, when a document is closed
  and opened again, and when a slow lint starts a second one (`lints_fail`).
* `fresh_of_run` holds without these (`Sound`).
-/

namespace Vanyline.Sandbox.RuffLint

open Vanyline.Lib

abbrev Text := List Char

/-! ## Changes of the text -/

structure Position where
  line : Int
  character : Int

/-- The `range` of a change; without one the whole text is replaced. -/
inductive Span
  | whole
  | malformed
  | edit (start stop : Position)

structure Change where
  text : Option Text
  range : Span

/-- Where the lines start. -/
def lineStarts (text : Text) : List Nat :=
  0 :: text.zipIdx.filterMap fun (c, i) => if c = '\n' then some (i + 1) else none

/-- `char::len_utf16`. -/
def lenUtf16 (c : Char) : Nat := if c.toNat < 65536 then 1 else 2

/-- How many characters of the line are before so many units of UTF-16. -/
def column (target : Nat) : Text → Nat → Nat
  | [], _ => 0
  | c :: rest, units =>
    if c = '\n' ∨ target < units + lenUtf16 c then 0
    else column target rest (units + lenUtf16 c) + 1

/-- The place of a position in the text. -/
def utf16Offset (text : Text) (position : Position) : Nat :=
  let starts := lineStarts text
  let start := starts.getD (min position.line.toNat (starts.length - 1)) 0
  start + column position.character.toNat (text.drop start) 0

def applyChange (text : Text) (change : Change) : Text :=
  match change.text, change.range with
  | none, _ | some _, .malformed => text
  | some new, .whole => new
  | some new, .edit start stop =>
    let i := utf16Offset text start
    let j := utf16Offset text stop
    text.take (min i j) ++ new ++ text.drop (max i j)

def applyContentChanges (text : Text) (changes : List Change) : Text :=
  changes.foldl applyChange text

theorem column_le (target : Nat) (text : Text) (units : Nat) :
    column target text units ≤ text.length := by
  induction text generalizing units with
  | nil => exact Nat.le_refl _
  | cons c rest ih =>
      rw [column]
      split_ifs
      · exact Nat.zero_le _
      · exact Nat.succ_le_succ (ih _)

theorem lineStarts_le {text : Text} {start : Nat} (h : start ∈ lineStarts text) :
    start ≤ text.length := by
  rcases List.mem_cons.1 h with rfl | h
  · exact Nat.zero_le _
  · obtain ⟨⟨c, i⟩, hmem, hstart⟩ := List.mem_filterMap.1 h
    have hi := (List.mem_zipIdx hmem).2.1
    dsimp only at hstart
    split_ifs at hstart
    cases hstart
    omega

/-- A position is always a place in the text. -/
theorem utf16Offset_le (text : Text) (position : Position) :
    utf16Offset text position ≤ text.length := by
  unfold utf16Offset
  have hstart : (lineStarts text).getD (min position.line.toNat ((lineStarts text).length - 1)) 0 ≤
      text.length := by
    apply lineStarts_le
    rw [List.getD_eq_getElem?_getD, List.getElem?_eq_getElem]
    · exact List.getElem_mem _
    · have hpos : 0 < (lineStarts text).length := Nat.succ_pos _
      omega
  have hcolumn := column_le position.character.toNat (text.drop
    ((lineStarts text).getD (min position.line.toNat ((lineStarts text).length - 1)) 0)) 0
  rw [List.length_drop] at hcolumn
  dsimp only
  omega

/-! ## Documents and lints -/

structure Doc where
  text : Text
  version : Int

/-- Where a task is: in its pause, before the snapshot, at `ruff`, before the frame, or, when
it is not current, before `doc_exists` and before the new pause. -/
inductive Stage
  | sleeping
  | awake
  | linting (text : Text) (version : Int)
  | checked (text : Text) (version : Int)
  | stale
  | rearming
  | done

/-- A task with its generation; how often the document had been closed when it started, and the
state of the document of which it has the text. -/
structure Task where
  stage : Stage
  generation : Nat
  opening : Nat
  epoch : Nat

/-- What the main loop has still to do for an event. -/
inductive Phase
  | idle
  | bump (immediate : Bool)
  | snapshot
  | closing (version : Int)

/-- A published list: of a lint, with its text and its state, or the empty one of a close. -/
structure Publication where
  version : Int
  lintOf : Option (Text × Nat)

/-- All about one URI.  The last fields are only noted by the model: how often the document was
closed, and for how many of these that is done; the number of its state, which each event changes;
its text after the last event that is done; whether the present generation was found current; and
whether something old was published. -/
structure File where
  doc : Option Doc
  gen : Option Nat
  tasks : Nat → Task
  spawned : Nat
  phase : Phase
  log : List Publication
  closes : Nat
  closed : Nat
  epoch : Nat
  settled : Option Text
  passed : Bool
  late : Bool

def u64Max : Nat := 18446744073709551615

namespace File

def new : File where
  doc := none
  gen := none
  tasks := fun _ => ⟨.done, 0, 0, 0⟩
  spawned := 0
  phase := .idle
  log := []
  closes := 0
  closed := 0
  epoch := 0
  settled := none
  passed := false
  late := false

variable (f : File)

def text : Option Text := f.doc.map Doc.text

/-- The generation that `bump_gen` sets. -/
def nextGen : Nat := min (f.gen.getD 0 + 1) u64Max

def bumpGen : File := { f with gen := some f.nextGen, passed := false }

def setTask (i : Nat) (task : Task) : File := { f with tasks := Function.update f.tasks i task }

theorem tasks_setTask_self (i : Nat) (task : Task) : (f.setTask i task).tasks i = task :=
  Function.update_self ..

theorem tasks_setTask_of_ne {i j : Nat} (task : Task) (h : j ≠ i) :
    (f.setTask i task).tasks j = f.tasks j := Function.update_of_ne h ..

def spawn (task : Task) : File :=
  { f.setTask f.spawned task with spawned := f.spawned + 1 }

/-- `lint_debounced`. -/
def lintDebounced : File := f.bumpGen.spawn ⟨.sleeping, f.nextGen, f.closes, f.epoch⟩

/-- `is_current`. -/
def isCurrent (version : Int) (generation : Nat) : Bool :=
  f.doc.any (fun doc => doc.version == version) && f.gen == some generation

/-- The event is done. -/
def finish : File := { f with phase := .idle, settled := f.text, closed := f.closes }

/-- The document is in a new state, and the event goes on. -/
def enter (doc : Option Doc) (phase : Phase) : File :=
  { f with doc := doc, phase := phase, epoch := f.epoch + 1 }

/-- `didClose` up to the publication. -/
def remove : File :=
  let f := { f with gen := none, closes := f.closes + 1 }
  match f.doc with
  | some doc => f.enter none (.closing doc.version)
  | none => f.finish

/-- The main loop goes on with its event. -/
def resume : Option File :=
  match f.phase with
  | .idle => none
  | .bump true => some { f.bumpGen with phase := .snapshot }
  | .bump false => some f.lintDebounced.finish
  | .snapshot =>
    match f.doc, f.gen with
    | some doc, some gen =>
      some (f.spawn ⟨.linting doc.text doc.version, gen, f.closes, f.epoch⟩).finish
    | _, _ => some f.finish
  | .closing version => some { f.finish with log := ⟨version, none⟩ :: f.log }

/-- The text is the present one, or the one after the last event that is done; and it was not
read before a close that is done. -/
def fresh (task : Task) (text : Text) : Bool :=
  (f.text == some text || f.settled == some text) && decide (f.closed ≤ task.opening)

/-- The lint passes the check. -/
def pass (i : Nat) (text : Text) (version : Int) : File :=
  { f.setTask i { f.tasks i with stage := .checked text version } with passed := true }

/-- The frame of a lint is written. -/
def publish (i : Nat) (text : Text) (version : Int) : File :=
  let task := f.tasks i
  { f.setTask i { task with stage := .done } with
    log := ⟨version, some (text, task.epoch)⟩ :: f.log
    late := f.late || !f.fresh task text }

end File

/-! ## Steps -/

/-- An event of the main loop, its going on, or a step of a task. -/
inductive Label
  | didOpen (text : Text) (version : Option Int)
  | didChange (changes : List Change) (version : Option Int)
  | didSave
  | didClose
  | resume
  | wake (i : Nat)
  | snapshot (i : Nat)
  | check (i : Nat)
  | docExists (i : Nat)
  | rearm (i : Nat)
  | write (i : Nat)

def Label.isEvent : Label → Bool
  | .didOpen .. | .didChange .. | .didSave | .didClose => true
  | _ => false

def Label.isMain : Label → Bool
  | .resume => true
  | l => l.isEvent

namespace File

variable (f : File)

def event : Label → Option File
  | .didOpen text version => some (f.enter (some ⟨text, version.getD 1⟩) (.bump true))
  | .didChange changes version =>
    match f.doc with
    | some doc =>
      let doc := ⟨applyContentChanges doc.text changes, version.getD doc.version⟩
      some (f.enter (some doc) (.bump false))
    | none => some f
  | .didSave =>
    match f.doc with
    | some doc => some (f.enter (some doc) (.bump true))
    | none => some f
  | .didClose => some f.remove
  | _ => none

def stepTask (i : Nat) : Label → Option File
  | .wake _ =>
    match (f.tasks i).stage with
    | .sleeping =>
      let stage := if f.gen = some (f.tasks i).generation then .awake else .done
      some (f.setTask i { f.tasks i with stage })
    | _ => none
  | .snapshot _ =>
    match (f.tasks i).stage with
    | .awake =>
      match f.doc, f.gen with
      | some doc, some _ =>
        some (f.setTask i { f.tasks i with
          stage := .linting doc.text doc.version
          epoch := f.epoch })
      | _, _ => some (f.setTask i { f.tasks i with stage := .done })
    | _ => none
  | .check _ =>
    match (f.tasks i).stage with
    | .linting text version =>
      if f.isCurrent version (f.tasks i).generation then some (f.pass i text version)
      else some (f.setTask i { f.tasks i with stage := .stale })
    | _ => none
  | .docExists _ =>
    match (f.tasks i).stage with
    | .stale =>
      let stage := if f.doc.isSome then .rearming else .done
      some (f.setTask i { f.tasks i with stage })
    | _ => none
  | .rearm _ =>
    match (f.tasks i).stage with
    | .rearming => some (f.setTask i { f.tasks i with stage := .done }).lintDebounced
    | _ => none
  | .write _ =>
    match (f.tasks i).stage with
    | .checked text version => some (f.publish i text version)
    | _ => none
  | _ => none

def step (l : Label) : Option File :=
  match l with
  | .didOpen .. | .didChange .. | .didSave | .didClose =>
    match f.phase with
    | .idle => f.event l
    | _ => none
  | .resume => f.resume
  | .wake i | .snapshot i | .check i | .docExists i | .rearm i | .write i => f.stepTask i l

end File

/-- All documents, and the one of the event that the main loop is at. -/
structure State where
  files : Uri → File
  busy : Option Uri

def State.init : State := ⟨fun _ => .new, none⟩

def step (s : State) (l : Uri × Label) : Option State :=
  if l.2.isEvent && s.busy.isSome then none
  else ((s.files l.1).step l.2).map fun f =>
    { files := Function.update s.files l.1 f
      busy :=
        if l.2.isMain then
          match f.phase with
          | .idle => none
          | _ => some l.1
        else s.busy }

/-! ## The property -/

/-- The states that have been published. -/
def File.published (f : File) : List Nat := f.log.filterMap fun p => p.lintOf.map Prod.snd

structure Fresh (f : File) : Prop where
  young : f.late = false
  once : f.published.Nodup
  last : f.phase = .idle → (∀ i, (f.tasks i).stage = .done) → ∀ doc, f.doc = some doc →
    ∃ p n, f.log.head? = some p ∧ p.lintOf = some (doc.text, n)

/-! ## The condition -/

/-- What waits to be written is of the present text. -/
def File.settles (f : File) : Bool :=
  (List.range f.spawned).all fun i =>
    match (f.tasks i).stage with
    | .checked text _ => f.text == some text
    | _ => true

/-- The condition for one document.
* When an event is done, the lints of another text that passed the check are written.
* What started before a close is not taken for current after it, and a lint of the new text does
  not pass the check before the event has set its generation.
* A lint starts another one only when the present generation was not found current, and not between
  a generation and the snapshot for it.
* Generations are below the greatest `u64`. -/
def File.Sound (f : File) : Label → Prop
  | .resume =>
    match f.phase with
    | .idle => True
    | .bump immediate =>
      f.gen.getD 0 < u64Max ∧ (immediate = false → f.settles = true)
    | .snapshot | .closing _ => f.settles = true
  | .wake i => f.gen = some (f.tasks i).generation → (f.tasks i).opening = f.closes
  | .check i =>
    match (f.tasks i).stage with
    | .linting _ version =>
      f.isCurrent version (f.tasks i).generation = true →
        (f.tasks i).opening = f.closes ∧
          match f.phase with
          | .bump _ => (f.tasks i).epoch ≠ f.epoch
          | _ => True
    | _ => True
  | .rearm _ =>
    f.passed = false ∧ f.gen.getD 0 < u64Max ∧
      match f.phase with
      | .snapshot => False
      | _ => True
  | _ => True

def Sound (s : State) (l : Uri × Label) : Prop := (s.files l.1).Sound l.2

/-! ## The invariant -/

variable {f g : File} {l : Label} {task : Task} {i j n : Nat} {text : Text} {version : Int}

/-- The task has still to ask whether it is current. -/
def Task.armed (task : Task) : Bool :=
  match task.stage with
  | .sleeping | .awake | .linting .. => true
  | _ => false

def Phase.isBump : Phase → Bool
  | .bump _ => true
  | _ => false

/-- The task has the present generation, of the present opening. -/
def File.Holds (f : File) (i : Nat) : Prop :=
  (f.tasks i).armed = true ∧ (f.tasks i).opening = f.closes ∧ f.gen = some (f.tasks i).generation

/-- A lint of this state is published, or passed the check. -/
def File.Made (f : File) (n : Nat) : Prop :=
  n ∈ f.published ∨
    ∃ i text version, (f.tasks i).stage = .checked text version ∧ (f.tasks i).epoch = n

structure Inv (f : File) : Prop where
  unspawned : ∀ i, f.spawned ≤ i → (f.tasks i).stage = .done
  opening_le : ∀ i, (f.tasks i).opening ≤ f.closes
  gen_le : ∀ i, (f.tasks i).armed = true → (f.tasks i).opening = f.closes →
    ∃ gen, f.gen = some gen ∧ (f.tasks i).generation ≤ gen
  sole : ∀ i j, f.Holds i → f.Holds j → i = j
  unheld : f.passed = true ∨ f.phase = .snapshot → ∀ i, ¬ f.Holds i
  made_le : ∀ n, f.Made n → n ≤ f.epoch
  made_now : f.Made f.epoch → f.passed = true ∧ f.phase.isBump = false
  unmade : ∀ i text version, f.Holds i → (f.tasks i).stage = .linting text version →
    ¬ f.Made (f.tasks i).epoch
  once : f.published.Nodup
  apart : ∀ i text version, (f.tasks i).stage = .checked text version →
    (f.tasks i).epoch ∉ f.published
  alone : ∀ i j text version text' version', (f.tasks i).stage = .checked text version →
    (f.tasks j).stage = .checked text' version' → (f.tasks i).epoch = (f.tasks j).epoch → i = j
  reads : ∀ i text version, f.Holds i → (f.tasks i).stage = .linting text version →
    ((f.tasks i).epoch = f.epoch ∧ f.text = some text) ∨
      (f.phase.isBump = true ∧ f.settled = some text ∧ (f.tasks i).epoch < f.epoch)
  keeps : ∀ i text version, (f.tasks i).stage = .checked text version →
    f.fresh (f.tasks i) text = true
  current : ∀ i text version, (f.tasks i).stage = .checked text version →
    (f.tasks i).opening = f.closes ∨ ∃ v, f.phase = .closing v
  closed_le : f.closed ≤ f.closes
  idle : f.phase = .idle → f.settled = f.text
  snapshot : f.phase = .snapshot → f.gen.isSome = true ∧ f.passed = false
  closing : ∀ v, f.phase = .closing v → f.doc = none
  young : f.late = false

theorem inv_new : Inv .new := by
  constructor <;> simp [File.new, File.Holds, File.Made, File.published, File.text, Task.armed]

/-! ## Tasks that go on -/

/-- A task that did not pass the check, and does not now, goes on. -/
theorem Inv.setTask (hs : Inv f) (hopening : task.opening = (f.tasks i).opening)
    (hgen : task.generation = (f.tasks i).generation)
    (harmed : task.armed = true → (f.tasks i).armed = true)
    (hold : ∀ text version, (f.tasks i).stage ≠ .checked text version)
    (hnew : ∀ text version, task.stage ≠ .checked text version)
    (hspawned : f.spawned ≤ i → task.stage = .done)
    (hlint : ∀ text version, task.stage = .linting text version →
      task.epoch = f.epoch ∧ f.text = some text) : Inv (f.setTask i task) := by
  have hself := f.tasks_setTask_self i task
  have hother : ∀ {j}, j ≠ i → (f.setTask i task).tasks j = f.tasks j :=
    f.tasks_setTask_of_ne task
  have hholds : ∀ {j}, (f.setTask i task).Holds j → f.Holds j := by
    intro j hj
    by_cases hji : j = i
    · subst hji
      obtain ⟨h₁, h₂, h₃⟩ := hj
      rw [hself] at h₁ h₂ h₃
      exact ⟨harmed h₁, hopening ▸ h₂, hgen ▸ h₃⟩
    · unfold File.Holds at hj
      rw [hother hji] at hj
      exact hj
  have hchecked : ∀ {j text version}, ((f.setTask i task).tasks j).stage = .checked text version →
      j ≠ i := by
    intro j text version hstage hji
    subst hji
    rw [hself] at hstage
    exact hnew text version hstage
  have hmade : ∀ {n}, (f.setTask i task).Made n → f.Made n := by
    intro n hn
    rcases hn with hn | ⟨j, text, version, hstage, hepoch⟩
    · exact .inl hn
    · have hji := hchecked hstage
      rw [hother hji] at hstage hepoch
      exact .inr ⟨j, text, version, hstage, hepoch⟩
  exact { hs with
    unspawned := by
      intro j hj
      by_cases hji : j = i
      · subst hji
        rw [hself]
        exact hspawned hj
      · rw [hother hji]
        exact hs.unspawned j hj
    opening_le := by
      intro j
      by_cases hji : j = i
      · subst hji
        rw [hself, hopening]
        exact hs.opening_le j
      · rw [hother hji]
        exact hs.opening_le j
    gen_le := by
      intro j h₁ h₂
      by_cases hji : j = i
      · subst hji
        rw [hself] at h₁ h₂ ⊢
        rw [hgen]
        exact hs.gen_le j (harmed h₁) (hopening ▸ h₂)
      · rw [hother hji] at h₁ h₂ ⊢
        exact hs.gen_le j h₁ h₂
    sole := fun j k hj hk => hs.sole j k (hholds hj) (hholds hk)
    unheld := fun h j hj => hs.unheld h j (hholds hj)
    made_le := fun n hn => hs.made_le n (hmade hn)
    made_now := fun h => hs.made_now (hmade h)
    unmade := by
      intro j text version hj hstage hn
      by_cases hji : j = i
      · subst hji
        rw [hself] at hstage hn
        rw [(hlint text version hstage).1] at hn
        exact hs.unheld (.inl (hs.made_now (hmade hn)).1) j (hholds hj)
      · rw [hother hji] at hstage hn
        exact hs.unmade j text version (hholds hj) hstage (hmade hn)
    apart := by
      intro j text version hstage
      have hji := hchecked hstage
      rw [hother hji] at hstage ⊢
      exact hs.apart j text version hstage
    alone := by
      intro j k text version text' version' hj hk hepoch
      have hji := hchecked hj
      have hki := hchecked hk
      rw [hother hji] at hj hepoch
      rw [hother hki] at hk hepoch
      exact hs.alone j k text version text' version' hj hk hepoch
    reads := by
      intro j text version hj hstage
      by_cases hji : j = i
      · subst hji
        rw [hself] at hstage ⊢
        exact .inl (hlint text version hstage)
      · rw [hother hji] at hstage ⊢
        exact hs.reads j text version (hholds hj) hstage
    keeps := by
      intro j text version hstage
      have hji := hchecked hstage
      rw [hother hji] at hstage ⊢
      exact hs.keeps j text version hstage
    current := by
      intro j text version hstage
      have hji := hchecked hstage
      rw [hother hji] at hstage ⊢
      exact hs.current j text version hstage }

/-- A lint passes the check, in the present opening, and not of a text whose event has not set its
generation. -/
theorem Inv.pass (hs : Inv f) (hstage : (f.tasks i).stage = .linting text version)
    (hgen : f.gen = some (f.tasks i).generation) (hopening : (f.tasks i).opening = f.closes)
    (hbump : f.phase.isBump = true → (f.tasks i).epoch ≠ f.epoch) :
    Inv (f.pass i text version) := by
  have hheld : f.Holds i := ⟨by rw [Task.armed, hstage], hopening, hgen⟩
  have hself : (f.pass i text version).tasks i =
      { f.tasks i with stage := .checked text version } := Function.update_self ..
  have hother : ∀ {j}, j ≠ i → (f.pass i text version).tasks j = f.tasks j := fun h =>
    Function.update_of_ne h ..
  have hnone : ∀ j, ¬ (f.pass i text version).Holds j := by
    intro j hj
    by_cases hji : j = i
    · subst hji
      have harmed := hj.1
      rw [hself] at harmed
      cases harmed
    · unfold File.Holds at hj
      rw [hother hji] at hj
      exact hji (hs.sole j i hj hheld)
  have hmade : ∀ {n}, (f.pass i text version).Made n → f.Made n ∨ n = (f.tasks i).epoch := by
    intro n hn
    rcases hn with hn | ⟨j, text', version', hj, hepoch⟩
    · exact .inl (.inl hn)
    · by_cases hji : j = i
      · subst hji
        rw [hself] at hepoch
        exact .inr hepoch.symm
      · rw [hother hji] at hj hepoch
        exact .inl (.inr ⟨j, text', version', hj, hepoch⟩)
  have hunmade := hs.unmade i text version hheld hstage
  have hreads := hs.reads i text version hheld hstage
  exact { hs with
    unspawned := by
      intro j hj
      by_cases hji : j = i
      · subst hji
        rw [hs.unspawned j hj] at hstage
        cases hstage
      · rw [hother hji]
        exact hs.unspawned j hj
    opening_le := by
      intro j
      by_cases hji : j = i
      · subst hji
        rw [hself]
        exact hs.opening_le j
      · rw [hother hji]
        exact hs.opening_le j
    gen_le := by
      intro j h₁ h₂
      by_cases hji : j = i
      · subst hji
        rw [hself] at h₁
        cases h₁
      · rw [hother hji] at h₁ h₂ ⊢
        exact hs.gen_le j h₁ h₂
    sole := fun j k hj => absurd hj (hnone j)
    unheld := fun _ => hnone
    made_le := by
      intro n hn
      rcases hmade hn with hn | rfl
      · exact hs.made_le n hn
      · rcases hreads with h | h
        · exact Nat.le_of_eq h.1
        · exact Nat.le_of_lt h.2.2
    made_now := by
      intro hn
      refine ⟨rfl, ?_⟩
      rcases hmade hn with hn | hn
      · exact (hs.made_now hn).2
      · show f.phase.isBump = false
        cases hphase : f.phase.isBump with
        | false => rfl
        | true => exact absurd hn.symm (hbump hphase)
    unmade := fun j _ _ hj => absurd hj (hnone j)
    apart := by
      intro j text' version' hj
      by_cases hji : j = i
      · subst hji
        rw [hself]
        exact fun hmem => hunmade (.inl hmem)
      · rw [hother hji] at hj ⊢
        exact hs.apart j text' version' hj
    alone := by
      intro j k text' version' text₂ version₂ hj hk heq
      by_cases hji : j = i
      · by_cases hki : k = i
        · rw [hji, hki]
        · rw [hother hki] at hk heq
          rw [hji, hself] at heq
          exact absurd (.inr ⟨k, _, _, hk, heq.symm⟩) hunmade
      · rw [hother hji] at hj heq
        by_cases hki : k = i
        · rw [hki, hself] at heq
          exact absurd (.inr ⟨j, _, _, hj, heq⟩) hunmade
        · rw [hother hki] at hk heq
          exact hs.alone j k _ _ _ _ hj hk heq
    reads := fun j _ _ hj => absurd hj (hnone j)
    keeps := by
      intro j text' version' hj
      by_cases hji : j = i
      · subst hji
        rw [hself] at hj ⊢
        cases hj
        show ((f.text == some text || f.settled == some text) &&
          decide (f.closed ≤ (f.tasks j).opening)) = true
        rw [Bool.and_eq_true, Bool.or_eq_true, beq_iff_eq, beq_iff_eq, decide_eq_true_eq, hopening]
        exact ⟨hreads.imp (fun h => h.2) (fun h => h.2.1), hs.closed_le⟩
      · rw [hother hji] at hj ⊢
        exact hs.keeps j text' version' hj
    current := by
      intro j text' version' hj
      by_cases hji : j = i
      · subst hji
        rw [hself]
        exact .inl hopening
      · rw [hother hji] at hj ⊢
        exact hs.current j text' version' hj
    snapshot := fun h => absurd hheld (hs.unheld (.inr h) i) }

/-- A lint that passed the check is published. -/
theorem Inv.publish (hs : Inv f) (hstage : (f.tasks i).stage = .checked text version) :
    Inv (f.publish i text version) := by
  have hself : (f.publish i text version).tasks i = { f.tasks i with stage := .done } :=
    Function.update_self ..
  have hother : ∀ {j}, j ≠ i → (f.publish i text version).tasks j = f.tasks j := fun h =>
    Function.update_of_ne h ..
  have hpublished : (f.publish i text version).published = (f.tasks i).epoch :: f.published := rfl
  have hnotDone : ∀ {j text' version'},
      ((f.publish i text version).tasks j).stage = .checked text' version' → j ≠ i := by
    intro j text' version' hj hji
    rw [hji, hself] at hj
    cases hj
  have hholds : ∀ {j}, (f.publish i text version).Holds j → j ≠ i ∧ f.Holds j := by
    intro j hj
    by_cases hji : j = i
    · subst hji
      have harmed := hj.1
      rw [hself] at harmed
      cases harmed
    · unfold File.Holds at hj
      rw [hother hji] at hj
      exact ⟨hji, hj⟩
  have hmade : ∀ {n}, (f.publish i text version).Made n → f.Made n := by
    intro n hn
    rcases hn with hn | ⟨j, text', version', hj, hepoch⟩
    · rw [hpublished] at hn
      rcases List.mem_cons.1 hn with rfl | hn
      · exact .inr ⟨i, text, version, hstage, rfl⟩
      · exact .inl hn
    · have hji := hnotDone hj
      rw [hother hji] at hj hepoch
      exact .inr ⟨j, text', version', hj, hepoch⟩
  exact { hs with
    unspawned := by
      intro j hj
      by_cases hji : j = i
      · rw [hji, hself]
      · rw [hother hji]
        exact hs.unspawned j hj
    opening_le := by
      intro j
      by_cases hji : j = i
      · subst hji
        rw [hself]
        exact hs.opening_le j
      · rw [hother hji]
        exact hs.opening_le j
    gen_le := by
      intro j h₁ h₂
      by_cases hji : j = i
      · subst hji
        rw [hself] at h₁
        cases h₁
      · rw [hother hji] at h₁ h₂ ⊢
        exact hs.gen_le j h₁ h₂
    sole := fun j k hj hk => hs.sole j k (hholds hj).2 (hholds hk).2
    unheld := fun h j hj => hs.unheld h j (hholds hj).2
    made_le := fun n hn => hs.made_le n (hmade hn)
    made_now := fun hn => hs.made_now (hmade hn)
    unmade := by
      intro j text' version' hj hlint hn
      obtain ⟨hji, hj⟩ := hholds hj
      rw [hother hji] at hlint hn
      exact hs.unmade j text' version' hj hlint (hmade hn)
    once := by
      rw [hpublished]
      exact List.nodup_cons.2 ⟨hs.apart i text version hstage, hs.once⟩
    apart := by
      intro j text' version' hj
      have hji := hnotDone hj
      rw [hother hji] at hj ⊢
      rw [hpublished, List.mem_cons]
      rintro (heq | hmem)
      · exact hji (hs.alone j i _ _ _ _ hj hstage heq)
      · exact hs.apart j text' version' hj hmem
    alone := by
      intro j k text' version' text₂ version₂ hj hk heq
      have hji := hnotDone hj
      have hki := hnotDone hk
      rw [hother hji] at hj heq
      rw [hother hki] at hk heq
      exact hs.alone j k _ _ _ _ hj hk heq
    reads := by
      intro j text' version' hj hlint
      obtain ⟨hji, hj⟩ := hholds hj
      rw [hother hji] at hlint ⊢
      exact hs.reads j text' version' hj hlint
    keeps := by
      intro j text' version' hj
      have hji := hnotDone hj
      rw [hother hji] at hj ⊢
      exact hs.keeps j text' version' hj
    current := by
      intro j text' version' hj
      have hji := hnotDone hj
      rw [hother hji] at hj ⊢
      exact hs.current j text' version' hj
    young := by
      show (f.late || !f.fresh (f.tasks i) text) = false
      rw [hs.young, hs.keeps i text version hstage]
      rfl }

/-! ## What the main loop does -/

/-- A new generation, that nothing has yet. -/
theorem Inv.not_holds_bumpGen (hs : Inv f) (hmax : f.gen.getD 0 < u64Max) :
    ¬ f.bumpGen.Holds i := by
  rintro ⟨harmed, hopening, hgen⟩
  obtain ⟨gen, hgen', hle⟩ := hs.gen_le i harmed hopening
  have hnext : f.nextGen = (f.tasks i).generation := Option.some.inj hgen
  rw [File.nextGen, hgen', Option.getD_some] at hnext
  rw [hgen', Option.getD_some] at hmax
  omega

theorem Inv.bumpGen (hs : Inv f) (hmax : f.gen.getD 0 < u64Max) (hunmade : ¬ f.Made f.epoch) :
    Inv f.bumpGen :=
  have hnone : ∀ j, ¬ f.bumpGen.Holds j := fun _ => hs.not_holds_bumpGen hmax
  { hs with
    gen_le := by
      intro j h₁ h₂
      obtain ⟨gen, hgen, hle⟩ := hs.gen_le j h₁ h₂
      refine ⟨f.nextGen, rfl, ?_⟩
      rw [hgen, Option.getD_some] at hmax
      rw [File.nextGen, hgen, Option.getD_some]
      show (f.tasks j).generation ≤ _
      omega
    sole := fun j k hj => absurd hj (hnone j)
    unheld := fun _ => hnone
    made_now := fun hn => absurd hn hunmade
    unmade := fun j _ _ hj => absurd hj (hnone j)
    reads := fun j _ _ hj => absurd hj (hnone j)
    snapshot := fun _ => ⟨rfl, rfl⟩ }

/-- A task starts with the present generation, which nothing has. -/
theorem Inv.spawn (hs : Inv f) (task : Task) (hnone : ∀ j, ¬ f.Holds j)
    (hgen : f.gen = some task.generation) (hopening : task.opening = f.closes)
    (hpassed : f.passed = false) (hphase : f.phase ≠ .snapshot)
    (hchecked : ∀ text version, task.stage ≠ .checked text version)
    (hlint : ∀ text version, task.stage = .linting text version →
      task.epoch = f.epoch ∧ f.text = some text) : Inv (f.spawn task) := by
  have hself : (f.spawn task).tasks f.spawned = task := Function.update_self ..
  have hother : ∀ {j}, j ≠ f.spawned → (f.spawn task).tasks j = f.tasks j := fun h =>
    Function.update_of_ne h ..
  have hholds : ∀ {j}, (f.spawn task).Holds j → j = f.spawned := by
    intro j hj
    by_contra hji
    unfold File.Holds at hj
    rw [hother hji] at hj
    exact hnone j hj
  have hold : ∀ {j text version}, ((f.spawn task).tasks j).stage = .checked text version →
      j ≠ f.spawned := by
    intro j text version hj hji
    rw [hji, hself] at hj
    exact hchecked text version hj
  have hmade : ∀ {n}, (f.spawn task).Made n → f.Made n := by
    intro n hn
    rcases hn with hn | ⟨j, text, version, hj, hepoch⟩
    · exact .inl hn
    · have hji := hold hj
      rw [hother hji] at hj hepoch
      exact .inr ⟨j, text, version, hj, hepoch⟩
  exact { hs with
    unspawned := by
      intro j hj
      have hlt : f.spawned < j := hj
      rw [hother (Nat.ne_of_gt hlt)]
      exact hs.unspawned j (Nat.le_of_lt hlt)
    opening_le := by
      intro j
      by_cases hji : j = f.spawned
      · rw [hji, hself, hopening]
        exact Nat.le_refl _
      · rw [hother hji]
        exact hs.opening_le j
    gen_le := by
      intro j h₁ h₂
      by_cases hji : j = f.spawned
      · rw [hji, hself]
        exact ⟨_, hgen, Nat.le_refl _⟩
      · rw [hother hji] at h₁ h₂ ⊢
        exact hs.gen_le j h₁ h₂
    sole := fun j k hj hk => (hholds hj).trans (hholds hk).symm
    unheld := by
      rintro (h | h)
      · rw [show f.passed = true from h] at hpassed
        cases hpassed
      · exact absurd h hphase
    made_le := fun n hn => hs.made_le n (hmade hn)
    made_now := fun hn => hs.made_now (hmade hn)
    unmade := by
      intro j text version hj hstage hn
      rw [hholds hj, hself] at hstage hn
      rw [(hlint text version hstage).1] at hn
      have hpassed' := (hs.made_now (hmade hn)).1
      rw [hpassed] at hpassed'
      cases hpassed'
    apart := by
      intro j text version hj
      have hji := hold hj
      rw [hother hji] at hj ⊢
      exact hs.apart j text version hj
    alone := by
      intro j k text version text' version' hj hk heq
      have hji := hold hj
      have hki := hold hk
      rw [hother hji] at hj heq
      rw [hother hki] at hk heq
      exact hs.alone j k _ _ _ _ hj hk heq
    reads := by
      intro j text version hj hstage
      rw [hholds hj, hself] at hstage ⊢
      exact .inl (hlint text version hstage)
    keeps := by
      intro j text version hj
      have hji := hold hj
      rw [hother hji] at hj ⊢
      exact hs.keeps j text version hj
    current := by
      intro j text version hj
      have hji := hold hj
      rw [hother hji] at hj ⊢
      exact hs.current j text version hj }

theorem Inv.text_of_settles (hs : Inv f) (hsettles : f.settles = true)
    (hstage : (f.tasks i).stage = .checked text version) : f.text = some text := by
  have hi : i < f.spawned := by
    by_contra hi
    rw [hs.unspawned i (Nat.le_of_not_lt hi)] at hstage
    cases hstage
  have htext := List.all_eq_true.1 hsettles i (List.mem_range.2 hi)
  rw [hstage] at htext
  exact beq_iff_eq.1 htext

/-- With a text that is settled, what waits to be written is of the present opening. -/
theorem Inv.opening_of_settles (hs : Inv f) (hsettles : f.settles = true)
    (hstage : (f.tasks i).stage = .checked text version) : (f.tasks i).opening = f.closes := by
  rcases hs.current i text version hstage with h | ⟨v, hv⟩
  · exact h
  · have htext := hs.text_of_settles hsettles hstage
    rw [File.text, hs.closing v hv] at htext
    cases htext

/-- An event is done, and what waits to be written is of the present text. -/
theorem Inv.finish (hs : Inv f) (hsettles : f.settles = true)
    (hbump : f.phase.isBump = true → ∀ i, ¬ f.Holds i) : Inv f.finish :=
  { hs with
    unheld := fun h => hs.unheld (h.imp_right nofun)
    made_now := fun hn => ⟨(hs.made_now hn).1, rfl⟩
    reads := by
      intro i text version hi hstage
      rcases hs.reads i text version hi hstage with h | h
      · exact .inl h
      · exact absurd hi (hbump h.1 i)
    keeps := by
      intro i text version hstage
      have htext := hs.text_of_settles hsettles hstage
      show ((f.text == some text || f.text == some text) &&
        decide (f.closes ≤ (f.tasks i).opening)) = true
      rw [htext, hs.opening_of_settles hsettles hstage]
      simp
    current := fun i text version hstage => .inl (hs.opening_of_settles hsettles hstage)
    closed_le := Nat.le_refl _
    idle := fun _ => rfl
    snapshot := nofun
    closing := nofun }

/-- Between two events, what waits to be written is of the present text, and of no opening
before the last publication of the main loop. -/
theorem Inv.fresh_idle (hs : Inv f) (hidle : f.phase = .idle)
    (hstage : (f.tasks i).stage = .checked text version) :
    f.text = some text ∧ f.closed ≤ (f.tasks i).opening := by
  have hfresh := hs.keeps i text version hstage
  simp only [File.fresh, hs.idle hidle, Bool.or_self, Bool.and_eq_true, beq_iff_eq,
    decide_eq_true_iff] at hfresh
  exact hfresh

/-- Such a task stays fresh when an event begins, whose text is not the settled one. -/
theorem Inv.keeps_begun (hs : Inv f) (hidle : f.phase = .idle)
    (hstage : (f.tasks i).stage = .checked text version) {begun : Option Text} :
    ((begun == some text || f.settled == some text) &&
      decide (f.closed ≤ (f.tasks i).opening)) = true := by
  obtain ⟨htext, hle⟩ := hs.fresh_idle hidle hstage
  rw [hs.idle hidle, htext, beq_self_eq_true, Bool.or_true, Bool.true_and]
  exact decide_eq_true hle

/-- Unless a close is about to be published, what waits to be written is of the present
opening. -/
theorem Inv.opening_eq (hs : Inv f) (hphase : ∀ v, f.phase ≠ .closing v)
    (hstage : (f.tasks i).stage = .checked text version) : (f.tasks i).opening = f.closes := by
  rcases hs.current i text version hstage with h | ⟨v, hv⟩
  · exact h
  · exact absurd hv (hphase v)

/-- No task has been made for the edit while its event has not made one. -/
theorem Inv.not_made (hs : Inv f) (hbump : f.phase.isBump = true) : ¬ f.Made f.epoch := by
  intro hn
  rw [(hs.made_now hn).2] at hbump
  cases hbump

/-- An event begins that leaves the document open. -/
theorem Inv.enter {doc : Option Doc} {immediate : Bool} (hs : Inv f) (hidle : f.phase = .idle) :
    Inv (f.enter doc (.bump immediate)) := by
  have hsettled := hs.idle hidle
  exact { hs with
    unheld := fun h => hs.unheld (.inl (h.resolve_right nofun))
    made_le := fun n hn => Nat.le_succ_of_le (hs.made_le n hn)
    made_now := fun hn => absurd (hs.made_le _ hn) (Nat.not_succ_le_self _)
    reads := by
      intro i text version hi hstage
      rcases hs.reads i text version hi hstage with ⟨hepoch, htext⟩ | h
      · exact .inr ⟨rfl, hsettled.trans htext, Nat.lt_succ_of_le (Nat.le_of_eq hepoch)⟩
      · rw [hidle] at h
        cases h.1
    keeps := fun i text version hstage => hs.keeps_begun hidle hstage
    current := fun i text version hstage =>
      .inl (hs.opening_eq (by rw [hidle]; exact nofun) hstage)
    idle := nofun
    snapshot := nofun
    closing := nofun }

/-- A close up to its publication. -/
theorem Inv.remove (hs : Inv f) (hidle : f.phase = .idle) : Inv f.remove := by
  have hnone : ∀ i, (f.tasks i).opening ≠ f.closes + 1 := by
    intro i h
    have hle := hs.opening_le i
    omega
  unfold File.remove
  dsimp only
  split
  · next doc hdoc =>
    exact { hs with
      opening_le := fun i => Nat.le_succ_of_le (hs.opening_le i)
      gen_le := fun i _ h => absurd h (hnone i)
      sole := fun i j hi => absurd hi.2.1 (hnone i)
      unheld := fun _ i hi => hnone i hi.2.1
      made_le := fun n hn => Nat.le_succ_of_le (hs.made_le n hn)
      made_now := fun hn => absurd (hs.made_le _ hn) (Nat.not_succ_le_self _)
      unmade := fun i _ _ hi => absurd hi.2.1 (hnone i)
      reads := fun i _ _ hi => absurd hi.2.1 (hnone i)
      keeps := fun i text version hstage => hs.keeps_begun hidle hstage
      current := fun _ _ _ _ => .inr ⟨doc.version, rfl⟩
      closed_le := Nat.le_succ_of_le hs.closed_le
      idle := nofun
      snapshot := nofun
      closing := fun _ _ => rfl }
  · next hdoc =>
    have htext : f.text = none := by rw [File.text, show f.doc = none from hdoc]; rfl
    have hunchecked : ∀ i text version, (f.tasks i).stage ≠ .checked text version := by
      intro i text version hstage
      rw [(hs.fresh_idle hidle hstage).1] at htext
      cases htext
    exact { hs with
      opening_le := fun i => Nat.le_succ_of_le (hs.opening_le i)
      gen_le := fun i _ h => absurd h (hnone i)
      sole := fun i j hi => absurd hi.2.1 (hnone i)
      unheld := fun _ i hi => hnone i hi.2.1
      made_now := fun hn => ⟨(hs.made_now hn).1, rfl⟩
      unmade := fun i _ _ hi => absurd hi.2.1 (hnone i)
      reads := fun i _ _ hi => absurd hi.2.1 (hnone i)
      keeps := fun i text version h => absurd h (hunchecked i text version)
      current := fun i text version h => absurd h (hunchecked i text version)
      closed_le := Nat.le_refl _
      idle := fun _ => rfl
      snapshot := nofun
      closing := nofun }

/-- The main loop goes on with its event. -/
theorem Inv.resume (hs : Inv f) (hsound : f.Sound .resume) (hstep : f.resume = some g) : Inv g := by
  unfold File.resume at hstep
  simp only [File.Sound] at hsound
  split at hstep
  · cases hstep
  · next hphase =>
    cases hstep
    rw [hphase] at hsound
    have hunmade : ¬ f.Made f.epoch := hs.not_made (by rw [hphase]; rfl)
    have hnew := hs.bumpGen hsound.1 hunmade
    exact { hnew with
      unheld := fun _ i => hs.not_holds_bumpGen hsound.1
      made_now := fun hn => absurd hn hunmade
      reads := fun i _ _ hi => absurd hi (hs.not_holds_bumpGen hsound.1)
      current := fun i text version hstage =>
        .inl (hs.opening_eq (by rw [hphase]; exact nofun) hstage)
      idle := nofun
      snapshot := fun _ => ⟨rfl, rfl⟩
      closing := nofun }
  · next hphase =>
    cases hstep
    rw [hphase] at hsound
    have hunmade : ¬ f.Made f.epoch := hs.not_made (by rw [hphase]; rfl)
    have hnone : ∀ i, ¬ f.bumpGen.Holds i := fun i => hs.not_holds_bumpGen hsound.1
    have hfinish := (hs.bumpGen hsound.1 hunmade).finish (hsound.2 rfl) fun _ => hnone
    exact hfinish.spawn ⟨.sleeping, f.nextGen, f.closes, f.epoch⟩ hnone rfl rfl rfl nofun
      nofun nofun
  · next hphase =>
    rw [hphase] at hsound
    have hnone : ∀ i, ¬ f.Holds i := hs.unheld (.inr hphase)
    have hfinish := hs.finish hsound fun _ => hnone
    split at hstep
    · next doc gen hdoc hgen =>
      cases hstep
      refine hfinish.spawn ⟨.linting doc.text doc.version, gen, f.closes, f.epoch⟩ hnone
        hgen rfl (hs.snapshot hphase).2 nofun nofun fun text version hstage => ?_
      cases hstage
      exact ⟨rfl, by rw [File.text, show f.finish.doc = some doc from hdoc]; rfl⟩
    · cases hstep
      exact hfinish
  · next v hphase =>
    cases hstep
    rw [hphase] at hsound
    have hfinish := hs.finish hsound (by rw [hphase]; exact nofun)
    exact { hfinish with }

/-! ## Runs -/

theorem Inv.event (hs : Inv f) (hidle : f.phase = .idle) (hstep : f.event l = some g) : Inv g := by
  cases l with
  | didOpen text version =>
      cases hstep
      exact hs.enter hidle
  | didChange changes version =>
      simp only [File.event] at hstep
      split at hstep
      · cases hstep
        exact hs.enter hidle
      · cases hstep
        exact hs
  | didSave =>
      simp only [File.event] at hstep
      split at hstep
      · cases hstep
        exact hs.enter hidle
      · cases hstep
        exact hs
  | didClose =>
      cases hstep
      exact hs.remove hidle
  | _ => cases hstep

theorem Inv.spawned_le (hs : Inv f) {stage : Stage} (h : (f.tasks i).stage = stage)
    (hne : stage ≠ .done) : ¬ f.spawned ≤ i :=
  fun hi => hne (h.symm.trans (hs.unspawned i hi))

theorem Inv.wake (hs : Inv f) (hstep : f.stepTask i (.wake i) = some g) : Inv g := by
  simp only [File.stepTask] at hstep
  split at hstep
  · next hstage =>
    cases hstep
    refine hs.setTask rfl rfl (fun _ => by rw [Task.armed, hstage]) (by rw [hstage]; exact nofun)
      ?_ (fun h => absurd h (hs.spawned_le hstage nofun)) ?_
    · intro text version
      dsimp only
      split_ifs
      · exact nofun
      · exact nofun
    · intro text version
      dsimp only
      split_ifs
      · exact nofun
      · exact nofun
  · cases hstep

theorem Inv.takeSnapshot (hs : Inv f) (hstep : f.stepTask i (.snapshot i) = some g) : Inv g := by
  simp only [File.stepTask] at hstep
  split at hstep
  · next hstage =>
    split at hstep
    · next doc gen hdoc hgen =>
      cases hstep
      refine hs.setTask rfl rfl (fun _ => by rw [Task.armed, hstage])
        (by rw [hstage]; exact nofun) nofun (fun h => absurd h (hs.spawned_le hstage nofun)) ?_
      intro text version hlint
      cases hlint
      exact ⟨rfl, by rw [File.text, hdoc]; rfl⟩
    · cases hstep
      exact hs.setTask rfl rfl nofun (by rw [hstage]; exact nofun) nofun (fun _ => rfl) nofun
  · cases hstep

theorem Inv.check (hs : Inv f) (hsound : f.Sound (.check i))
    (hstep : f.stepTask i (.check i) = some g) : Inv g := by
  simp only [File.stepTask] at hstep
  split at hstep
  · next text version hstage =>
    split_ifs at hstep with hcurrent
    · cases hstep
      simp only [File.Sound, hstage] at hsound
      obtain ⟨hopening, hbump⟩ := hsound hcurrent
      rw [File.isCurrent, Bool.and_eq_true, beq_iff_eq] at hcurrent
      refine hs.pass hstage hcurrent.2 hopening fun h => ?_
      cases hphase : f.phase with
      | bump immediate =>
          rw [hphase] at hbump
          exact hbump
      | _ =>
          rw [hphase] at h
          cases h
    · cases hstep
      exact hs.setTask rfl rfl nofun (by rw [hstage]; exact nofun) nofun
        (fun h => absurd h (hs.spawned_le hstage nofun)) nofun
  · cases hstep

theorem Inv.docExists (hs : Inv f) (hstep : f.stepTask i (.docExists i) = some g) : Inv g := by
  simp only [File.stepTask] at hstep
  split at hstep
  · next hstage =>
    have hspawned := hs.spawned_le hstage nofun
    cases hstep
    cases hdoc : f.doc with
    | none =>
        exact hs.setTask rfl rfl nofun (by rw [hstage]; exact nofun) nofun (fun _ => rfl) nofun
    | some doc =>
        exact hs.setTask rfl rfl nofun (by rw [hstage]; exact nofun) nofun
          (fun h => absurd h hspawned) nofun
  · cases hstep

theorem Inv.rearm (hs : Inv f) (hsound : f.Sound (.rearm i))
    (hstep : f.stepTask i (.rearm i) = some g) : Inv g := by
  simp only [File.stepTask] at hstep
  split at hstep
  · next hstage =>
    cases hstep
    obtain ⟨hpassed, hmax, hphase⟩ := hsound
    have hset : Inv (f.setTask i { f.tasks i with stage := .done }) :=
      hs.setTask rfl rfl nofun (by rw [hstage]; exact nofun) nofun (fun _ => rfl) nofun
    have hunmade : ¬ (f.setTask i { f.tasks i with stage := .done }).Made f.epoch := by
      intro hn
      have hpassed' := (hset.made_now hn).1
      rw [show f.passed = true from hpassed'] at hpassed
      cases hpassed
    refine (hset.bumpGen hmax hunmade).spawn
      ⟨.sleeping, (f.setTask i { f.tasks i with stage := .done }).nextGen, f.closes, f.epoch⟩
      (fun j => hset.not_holds_bumpGen hmax) rfl rfl rfl ?_ nofun nofun
    intro h
    rw [show f.phase = .snapshot from h] at hphase
    exact hphase
  · cases hstep

theorem Inv.write (hs : Inv f) (hstep : f.stepTask i (.write i) = some g) : Inv g := by
  simp only [File.stepTask] at hstep
  split at hstep
  · next text version hstage =>
    cases hstep
    exact hs.publish hstage
  · cases hstep

theorem event_of_step {o : Option File} (h : (match f.phase with
      | .idle => o
      | _ => none) = some g) : f.phase = .idle ∧ o = some g := by
  split at h
  · next hidle => exact ⟨hidle, h⟩
  · cases h

/-- A step that is `Sound` keeps the invariant. -/
theorem inv_step (hs : Inv f) (hsound : f.Sound l) (hstep : f.step l = some g) : Inv g := by
  cases l with
  | didOpen text version => exact hs.event (event_of_step hstep).1 (event_of_step hstep).2
  | didChange changes version => exact hs.event (event_of_step hstep).1 (event_of_step hstep).2
  | didSave => exact hs.event (event_of_step hstep).1 (event_of_step hstep).2
  | didClose => exact hs.event (event_of_step hstep).1 (event_of_step hstep).2
  | resume => exact hs.resume hsound hstep
  | wake i => exact hs.wake hstep
  | snapshot i => exact hs.takeSnapshot hstep
  | check i => exact hs.check hsound hstep
  | docExists i => exact hs.docExists hstep
  | rearm i => exact hs.rearm hsound hstep
  | write i => exact hs.write hstep

/-! ## The last publication -/

/-- The task will publish, or start another one. -/
def File.Goes (f : File) (i : Nat) : Prop :=
  f.Holds i ∨
    match (f.tasks i).stage with
    | .checked .. | .stale | .rearming => True
    | _ => False

/-- When no event goes on, a task does, or the text of the document is published. -/
def Last (f : File) : Prop :=
  f.phase = .idle → ∀ doc, f.doc = some doc →
    (∃ i, f.Goes i) ∨ ∃ p n, f.log.head? = some p ∧ p.lintOf = some (doc.text, n)

theorem Last.setTask (hlast : Last f)
    (hgoes : ∀ doc, f.doc = some doc → f.Goes i → (f.setTask i task).Goes i) :
    Last (f.setTask i task) := by
  intro hidle doc hdoc
  rcases hlast hidle doc hdoc with ⟨j, hj⟩ | h
  · refine .inl ⟨j, ?_⟩
    by_cases hji : j = i
    · rw [hji] at hj ⊢
      exact hgoes doc hdoc hj
    · unfold File.Goes File.Holds
      rw [f.tasks_setTask_of_ne task hji]
      exact hj
  · exact .inr h

theorem last_spawn (hgen : f.gen = some task.generation) (hopening : task.opening = f.closes)
    (harmed : task.armed = true) : Last (f.spawn task) := by
  intro _ _ _
  refine .inl ⟨f.spawned, .inl ?_⟩
  unfold File.Holds
  rw [show (f.spawn task).tasks f.spawned = task from Function.update_self ..]
  exact ⟨harmed, hopening, hgen⟩

theorem Last.event (hlast : Last f) (hstep : f.event l = some g) : Last g := by
  cases l with
  | didOpen text version =>
      cases hstep
      exact nofun
  | didChange changes version =>
      simp only [File.event] at hstep
      split at hstep
      · cases hstep
        exact nofun
      · cases hstep
        exact hlast
  | didSave =>
      simp only [File.event] at hstep
      split at hstep
      · cases hstep
        exact nofun
      · cases hstep
        exact hlast
  | didClose =>
      cases hstep
      unfold File.remove
      dsimp only
      split
      · exact nofun
      · next hdoc =>
        intro _ doc hdoc'
        rw [show f.doc = some doc from hdoc'] at hdoc
        cases hdoc
  | _ => cases hstep

theorem last_resume (hs : Inv f) (hstep : f.resume = some g) : Last g := by
  unfold File.resume at hstep
  split at hstep
  · cases hstep
  · cases hstep
    exact nofun
  · cases hstep
    exact last_spawn (f := f.bumpGen.finish) rfl rfl rfl
  · next hphase =>
    split at hstep
    · next doc gen hdoc hgen =>
      cases hstep
      exact last_spawn (f := f.finish) hgen rfl rfl
    · next hnone =>
      cases hstep
      intro _ doc hdoc
      obtain ⟨gen, hgen⟩ := Option.isSome_iff_exists.1 (hs.snapshot hphase).1
      exact absurd hgen (hnone doc gen hdoc)
  · next v hphase =>
    cases hstep
    intro _ doc hdoc
    cases (hs.closing v hphase).symm.trans (show f.doc = some doc from hdoc)

theorem File.Goes.holds (h : f.Goes i) (harmed : (f.tasks i).armed = true) : f.Holds i := by
  rcases h with h | h
  · exact h
  · unfold Task.armed at harmed
    split at h <;> simp_all

/-- A task goes on, or stops for good when it is not the one to lint. -/
theorem Last.stepTask (hlast : Last f) (hs : Inv f)
    (hstep : f.stepTask i l = some g) : Last g := by
  cases l with
  | wake _ =>
      simp only [File.stepTask] at hstep
      split at hstep
      · next hstage =>
        cases hstep
        refine hlast.setTask fun doc hdoc hgoes => .inl ?_
        obtain ⟨harmed, hopening, hgen⟩ := hgoes.holds (by rw [Task.armed, hstage])
        unfold File.Holds
        rw [if_pos hgen, File.tasks_setTask_self]
        exact ⟨rfl, hopening, hgen⟩
      · cases hstep
  | snapshot _ =>
      simp only [File.stepTask] at hstep
      split at hstep
      · next hstage =>
        split at hstep
        · next hdoc hgen =>
          cases hstep
          refine hlast.setTask fun doc hdoc hgoes => .inl ?_
          obtain ⟨harmed, hopening, hgen⟩ := hgoes.holds (by rw [Task.armed, hstage])
          unfold File.Holds
          rw [File.tasks_setTask_self]
          exact ⟨rfl, hopening, hgen⟩
        · next hnone =>
          cases hstep
          refine hlast.setTask fun doc hdoc hgoes => ?_
          obtain ⟨_, _, hgen⟩ := hgoes.holds (by rw [Task.armed, hstage])
          exact absurd hgen (hnone doc _ hdoc)
      · cases hstep
  | check _ =>
      simp only [File.stepTask] at hstep
      split at hstep
      · next text version hstage =>
        split_ifs at hstep
        · cases hstep
          intro _ _ _
          refine .inl ⟨i, .inr ?_⟩
          rw [show (f.pass i text version).tasks i =
            { f.tasks i with stage := .checked text version } from Function.update_self ..]
          trivial
        · cases hstep
          refine hlast.setTask fun doc hdoc hgoes => .inr ?_
          rw [File.tasks_setTask_self]
          trivial
      · cases hstep
  | docExists _ =>
      simp only [File.stepTask] at hstep
      split at hstep
      · next hstage =>
        cases hstep
        refine hlast.setTask fun doc hdoc hgoes => .inr ?_
        rw [File.tasks_setTask_self, hdoc]
        trivial
      · cases hstep
  | rearm _ =>
      simp only [File.stepTask] at hstep
      split at hstep
      · cases hstep
        exact last_spawn (f := (f.setTask i { f.tasks i with stage := .done }).bumpGen) rfl rfl rfl
      · cases hstep
  | write _ =>
      simp only [File.stepTask] at hstep
      split at hstep
      · next text version hstage =>
        cases hstep
        intro hidle doc hdoc
        have htext : doc.text = text := by
          have htext := (hs.fresh_idle hidle hstage).1
          rw [File.text, show f.doc = some doc from hdoc] at htext
          exact Option.some.inj htext
        exact .inr ⟨_, (f.tasks i).epoch, rfl, by rw [htext]⟩
      · cases hstep
  | _ => cases hstep

theorem last_step (hs : Inv f) (hlast : Last f) (hstep : f.step l = some g) : Last g := by
  cases l with
  | didOpen text version => exact hlast.event (event_of_step hstep).2
  | didChange changes version => exact hlast.event (event_of_step hstep).2
  | didSave => exact hlast.event (event_of_step hstep).2
  | didClose => exact hlast.event (event_of_step hstep).2
  | resume => exact last_resume hs hstep
  | wake i => exact hlast.stepTask (i := i) (l := .wake i) hs hstep
  | snapshot i => exact hlast.stepTask (i := i) (l := .snapshot i) hs hstep
  | check i => exact hlast.stepTask (i := i) (l := .check i) hs hstep
  | docExists i => exact hlast.stepTask (i := i) (l := .docExists i) hs hstep
  | rearm i => exact hlast.stepTask (i := i) (l := .rearm i) hs hstep
  | write i => exact hlast.stepTask (i := i) (l := .write i) hs hstep

theorem Inv.fresh (hs : Inv f) (hlast : Last f) : Fresh f where
  young := hs.young
  once := hs.once
  last := by
    intro hidle hdone doc hdoc
    rcases hlast hidle doc hdoc with ⟨i, hi⟩ | h
    · rcases hi with ⟨harmed, _, _⟩ | hi
      · rw [Task.armed, hdone i] at harmed
        cases harmed
      · rw [hdone i] at hi
        exact hi.elim
    · exact h

theorem files_step {s t : State} {l : Uri × Label} (hstep : step s l = some t) :
    ∃ f, (s.files l.1).step l.2 = some f ∧ t.files = Function.update s.files l.1 f := by
  unfold step at hstep
  split at hstep
  · cases hstep
  · obtain ⟨f, hf, rfl⟩ := Option.map_eq_some_iff.1 hstep
    exact ⟨f, hf, rfl⟩

/-- In every run whose steps are `Sound`, the property holds of each document in each state. -/
theorem fresh_of_run {ls : List (Uri × Label)} {s : State} (hrun : Run step Sound .init ls s)
    (uri : Uri) : Fresh (s.files uri) := by
  have hall : ∀ uri, Inv (s.files uri) ∧ Last (s.files uri) := by
    have hinit : ∀ uri, Inv (State.init.files uri) ∧ Last (State.init.files uri) :=
      fun _ => ⟨inv_new, fun _ _ h => by cases h⟩
    refine hrun.invariant (I := fun s => ∀ uri, Inv (s.files uri) ∧ Last (s.files uri)) hinit ?_
    intro t l u ht hsound hstep uri
    obtain ⟨f, hf, hfiles⟩ := files_step hstep
    obtain ⟨hs, hlast⟩ := ht l.1
    rw [hfiles]
    by_cases huri : uri = l.1
    · subst huri
      rw [Function.update_self]
      exact ⟨inv_step hs hsound hf, last_step hs hlast hf⟩
    · rw [Function.update_of_ne huri]
      exact ht uri
  exact (hall uri).1.fresh (hall uri).2

/-! ## The failing runs -/

def uri : Uri := "a.py".toList

/-- The document is opened, and its lint is at `ruff`. -/
def opened (text : String) : List Label := [.didOpen text.toList none, .resume, .resume]

/-- The close comes between the check and the frame. -/
def closedBeforeFrame : List Label := opened "a" ++ [.check 0, .didClose, .resume, .write 0]

/-- A lint goes on while the document is closed and opened again. -/
def reopened : List Label := opened "a" ++ [.didClose, .resume] ++ opened "b" ++
  [.check 1, .write 1, .check 0, .write 0]

/-- The first lint ends after that of the save is published, and starts another. -/
def slowLint : List Label := opened "a" ++ [.didSave, .resume, .resume, .check 1, .write 1,
  .check 0, .docExists 0, .rearm 0, .wake 2, .snapshot 2, .check 2, .write 2]

def isLate (s : State) : Bool := (s.files uri).late

def isTwice (s : State) : Bool := !decide (s.files uri).published.Nodup

theorem not_fresh_of_late {s : State} (h : isLate s = true) : ¬ Fresh (s.files uri) := by
  intro hs
  have hyoung := hs.young
  rw [show (s.files uri).late = true from h] at hyoung
  cases hyoung

theorem not_fresh_of_twice {s : State} (h : isTwice s = true) : ¬ Fresh (s.files uri) := by
  intro hs
  rw [isTwice, Bool.not_eq_true', decide_eq_false_iff_not] at h
  exact h hs.once

theorem exists_notFresh {ls : List Label} (test : State → Bool)
    (h : (exec step free .init (ls.map (Prod.mk uri))).any test = true)
    (hnot : ∀ s, test s = true → ¬ Fresh (s.files uri)) :
    ∃ s, Run step free .init (ls.map (Prod.mk uri)) s ∧ test s = true ∧ ¬ Fresh (s.files uri) := by
  obtain ⟨s, hrun, hs⟩ := Run.exists_of_exec test h
  exact ⟨s, hrun, hs, hnot s hs⟩

/-- What is older than the document is published, and one state of it twice. -/
theorem lints_fail :
    (∃ s, Run step free .init (closedBeforeFrame.map (Prod.mk uri)) s ∧ isLate s = true ∧
      ¬ Fresh (s.files uri)) ∧
    (∃ s, Run step free .init (reopened.map (Prod.mk uri)) s ∧ isLate s = true ∧
      ¬ Fresh (s.files uri)) ∧
    ∃ s, Run step free .init (slowLint.map (Prod.mk uri)) s ∧ isTwice s = true ∧
      ¬ Fresh (s.files uri) :=
  ⟨exists_notFresh isLate (by decide) fun _ => not_fresh_of_late,
    exists_notFresh isLate (by decide) fun _ => not_fresh_of_late,
    exists_notFresh isTwice (by decide) fun _ => not_fresh_of_twice⟩

instance (f : File) (l : Label) : Decidable (f.Sound l) :=
  match l with
  | .resume =>
    match h : f.phase with
    | .idle => isTrue (by simp only [File.Sound, h])
    | .bump immediate =>
      decidable_of_iff (f.gen.getD 0 < u64Max ∧ (immediate = false → f.settles = true))
        (by simp only [File.Sound, h])
    | .snapshot | .closing _ =>
      decidable_of_iff (f.settles = true) (by simp only [File.Sound, h])
  | .wake i => inferInstanceAs (Decidable (f.gen = some (f.tasks i).generation →
      (f.tasks i).opening = f.closes))
  | .check i =>
    match h : (f.tasks i).stage with
    | .linting _ version =>
      match hphase : f.phase with
      | .bump _ =>
        decidable_of_iff (f.isCurrent version (f.tasks i).generation = true →
          (f.tasks i).opening = f.closes ∧ (f.tasks i).epoch ≠ f.epoch)
          (by simp only [File.Sound, h, hphase])
      | .idle | .snapshot | .closing _ =>
        decidable_of_iff (f.isCurrent version (f.tasks i).generation = true →
          (f.tasks i).opening = f.closes ∧ True) (by simp only [File.Sound, h, hphase])
    | .sleeping | .awake | .checked .. | .stale | .rearming | .done =>
      isTrue (by simp only [File.Sound, h])
  | .rearm _ =>
    match h : f.phase with
    | .snapshot => isFalse (by simp only [File.Sound, h, and_false, not_false_eq_true])
    | .idle | .bump _ | .closing _ =>
      decidable_of_iff (f.passed = false ∧ f.gen.getD 0 < u64Max ∧ True)
        (by simp only [File.Sound, h])
  | .didOpen .. | .didChange .. | .didSave | .didClose | .snapshot _ | .docExists _ | .write _ =>
    isTrue trivial

instance (s : State) (l : Uri × Label) : Decidable (Sound s l) :=
  inferInstanceAs (Decidable ((s.files l.1).Sound l.2))

/-- A change comes while the first lint is at `ruff`, and its text is linted after a pause. -/
def changed : List Label := opened "a" ++ [.didChange [⟨some "b".toList, .whole⟩] (some 2), .resume,
  .check 0, .docExists 0, .rearm 0, .wake 1, .wake 2, .snapshot 2, .check 2, .write 2]

def isLinted (s : State) : Bool := (s.files uri).log.any fun p => p.lintOf == some ("b".toList, 2)

theorem fresh_changed : ∃ s, Run step Sound .init (changed.map (Prod.mk uri)) s ∧
    isLinted s = true ∧ Fresh (s.files uri) := by
  obtain ⟨s, hrun, hs⟩ := Run.exists_of_exec isLinted
    (show (exec step Sound .init (changed.map (Prod.mk uri))).any _ = true by decide)
  exact ⟨s, hrun, hs, fresh_of_run hrun uri⟩

end Vanyline.Sandbox.RuffLint
