import Mathlib.Data.Char
import Mathlib.Data.List.Lex
import Mathlib.Logic.Function.Basic
import Vanyline.Lib.Run
import Vanyline.Lib.SortedMap
import Vanyline.Lib.TextLines

/-!
# The scheduler of the checks

Each check that is ready has a task.  The task waits for the check that must come before it, takes
the flag of its group and one of the tokens of `inflight`, executes the command, gives both back,
and stores its status.

The tasks run side by side.  `step` is one operation on what they share, of one task: a load, a
store, or a compare-and-exchange.  What a command gives (`execute`) is a parameter.
-/

namespace Vanyline.Health.Scheduler

open Vanyline.Lib TextLines

/-! ## Slots -/

inductive CheckStatus
  | passed
  | failed
  | errored
  | skipped
deriving DecidableEq

/-- `κ` is the kind of a check. -/
structure CheckResult (κ : Type) where
  id : Text
  kind : κ
  status : CheckStatus
  exitCode : Option Int
  durationMs : Nat
  outputTail : Text
deriving DecidableEq

/-- What a task gives, and a slot of the report; `ι` is the type of issues. -/
structure Outcome (κ ι : Type) where
  result : CheckResult κ
  issues : List ι
  lcovText : Option Text
deriving DecidableEq

/-- A check that is ready, with what the scheduler reads of it. -/
structure Ready (κ : Type) where
  id : Text
  kind : κ
  group : Text
  after : Option Text

inductive Slot (κ : Type)
  | ready (check : Ready κ)
  | done (result : CheckResult κ)

variable {κ ι : Type}

def Slot.id : Slot κ → Text
  | .ready check => check.id
  | .done result => result.id

def byteLength (text : Text) : Nat := (text.map Char.utf8Size).sum

/-- The end of a text that has at most `maxBytes` bytes. -/
def capBytes : Text → Nat → Text
  | [], _ => []
  | c :: text, maxBytes =>
    if byteLength (c :: text) ≤ maxBytes then c :: text else capBytes text maxBytes

def plainResult (id : Text) (kind : κ) (status : CheckStatus) (reason : Text) (tailBytes : Nat) :
    CheckResult κ where
  id := id
  kind := kind
  status := status
  exitCode := none
  durationMs := 0
  outputTail := capBytes reason tailBytes

def Outcome.solo (result : CheckResult κ) : Outcome κ ι := ⟨result, [], none⟩

/-! ## Status codes -/

def stPending : Nat := 0
def stPassed : Nat := 1
def stFailed : Nat := 2
def stErrored : Nat := 3
def stSkipped : Nat := 4

def statusCode : CheckStatus → Nat
  | .passed => stPassed
  | .failed => stFailed
  | .errored => stErrored
  | .skipped => stSkipped

/-! ## Jobs -/

/-- The slots by their names; of several with a name, the last. -/
def byId (slots : List (Slot κ)) : SortedMap Text Nat :=
  slots.zipIdx.foldl (fun map entry => map.update entry.1.id fun _ => entry.2) .empty

/-- The slot that a check comes after: the one with this name, or with this name and the workspace
of the check. -/
def resolveDep (id after : Text) (byId : SortedMap Text Nat) (selfIndex : Nat) : Option Nat :=
  match byId.lookup after with
  | some index => if index ≠ selfIndex then some index else none
  | none =>
    (splitOnce ':' id).2.bind fun workspace =>
      (byId.lookup (after ++ ':' :: workspace)).bind fun index =>
        if index ≠ selfIndex then some index else none

structure Job (κ : Type) where
  ready : Ready κ
  dep : Option Nat

/-- `spawn_jobs`: the job of a slot. -/
def jobOf (slots : List (Slot κ)) (index : Nat) : Option (Job κ) :=
  match slots[index]? with
  | some (.ready check) => some
      ⟨check, check.after.bind fun after => resolveDep check.id after (byId slots) index⟩
  | _ => none

/-- The outcome of a job that is not started, as the check before it is errored. -/
def cascade (job : Job κ) (tailBytes : Nat) : Outcome κ ι :=
  .solo (plainResult job.ready.id job.ready.kind .errored
    ("préalable '".toList ++ job.ready.after.getD [] ++
      "' en erreur : vérification non lancée".toList) tailBytes)

/-! ## Tasks -/

/-- Where a task is in `run_job` and `acquire`: what it does next. -/
inductive Pc (κ ι : Type)
  /-- Polls the status of the check before it. -/
  | waiting
  /-- Takes the flag of its group. -/
  | locking
  /-- Has the flag, and loads the number of tokens. -/
  | locked
  /-- Has loaded a number that is low enough, and takes a token. -/
  | counted (current : Nat)
  /-- Gives the flag back, without a token. -/
  | unlocking
  | executing
  /-- The command is over: the flag, the token, and the status. -/
  | release (outcome : Outcome κ ι)
  | decrement (outcome : Outcome κ ι)
  | publish (outcome : Outcome κ ι)
  | finished (outcome : Outcome κ ι)

/-- What the tasks share, where they are, and which commands have been started. -/
structure State (κ ι : Type) where
  statuses : Nat → Nat
  flags : Text → Bool
  inflight : Nat
  pcs : Nat → Pc κ ι
  started : List Nat

def initStatus (slots : List (Slot κ)) (index : Nat) : Nat :=
  match slots[index]? with
  | some (.done result) => statusCode result.status
  | _ => stPending

def init (slots : List (Slot κ)) : State κ ι where
  statuses := initStatus slots
  flags := fun _ => false
  inflight := 0
  pcs := fun _ => .waiting
  started := []

/-- The fixed parts of a run. -/
structure Setup (κ ι : Type) where
  slots : List (Slot κ)
  maxParallel : Nat
  tailBytes : Nat
  /-- What the command of a slot gives. -/
  execute : Nat → Outcome κ ι

namespace State

variable (s : State κ ι) (i : Nat)

def goto (pc : Pc κ ι) : State κ ι := { s with pcs := Function.update s.pcs i pc }

def setFlag (group : Text) (value : Bool) : State κ ι :=
  { s with flags := Function.update s.flags group value }

end State

/-- The next operation of task `i`; a poll or a compare-and-exchange that fails is one too. -/
def step (setup : Setup κ ι) (s : State κ ι) (i : Nat) : Option (State κ ι) :=
  match jobOf setup.slots i with
  | none => none
  | some job =>
    match s.pcs i with
    | .waiting =>
      match job.dep with
      | none => some (s.goto i .locking)
      | some dep =>
        let code := s.statuses dep
        if stPassed ≤ code then
          if code = stErrored then some (s.goto i (.publish (cascade job setup.tailBytes)))
          else some (s.goto i .locking)
        else some s
    | .locking =>
      if s.flags job.ready.group then some s
      else some ((s.setFlag job.ready.group true).goto i .locked)
    | .locked =>
      if s.inflight < setup.maxParallel then some (s.goto i (.counted s.inflight))
      else some (s.goto i .unlocking)
    | .counted current =>
      if s.inflight = current then
        some { s.goto i .executing with inflight := current + 1, started := i :: s.started }
      else some (s.goto i .unlocking)
    | .unlocking => some ((s.setFlag job.ready.group false).goto i .locking)
    | .executing => some (s.goto i (.release (setup.execute i)))
    | .release outcome => some ((s.setFlag job.ready.group false).goto i (.decrement outcome))
    | .decrement outcome => some { s.goto i (.publish outcome) with inflight := s.inflight - 1 }
    | .publish outcome => some { s.goto i (.finished outcome) with
        statuses := Function.update s.statuses i (statusCode outcome.result.status) }
    | .finished _ => none

/-! ## The report -/

/-- What a task has given, if it is over. -/
def State.joined (s : State κ ι) (i : Nat) : Option (Except Text (Outcome κ ι)) :=
  match s.pcs i with
  | .finished outcome => some (.ok outcome)
  | _ => none

/-- The outcomes in the order of the slots.  An error is that of a task that has panicked. -/
def collectOutcomes (slots : List (Slot κ)) (tailBytes : Nat)
    (joined : Nat → Option (Except Text (Outcome κ ι))) : List (Outcome κ ι) :=
  slots.zipIdx.map fun entry =>
    match entry.1 with
    | .done result => .solo result
    | .ready check =>
      match joined entry.2 with
      | some (.ok outcome) => outcome
      | some (.error err) => .solo (plainResult check.id check.kind .errored
          ("tâche empoisonnée : ".toList ++ err) tailBytes)
      | none => .solo (plainResult check.id check.kind .errored
          "vérification non planifiée".toList tailBytes)

/-- All tasks are over. -/
def Complete (setup : Setup κ ι) (s : State κ ι) : Prop :=
  ∀ i job, jobOf setup.slots i = some job → ∃ outcome, s.pcs i = .finished outcome

def report (setup : Setup κ ι) (s : State κ ι) : List (Outcome κ ι) :=
  collectOutcomes setup.slots setup.tailBytes s.joined

end Vanyline.Health.Scheduler
