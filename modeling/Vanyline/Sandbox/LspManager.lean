import Mathlib.Logic.Function.Basic
import Vanyline.Lib.Run

/-!
# One language server for a toolchain

`get_or_spawn` gives the session that is stored for a toolchain when that is live, and spawns
one otherwise.  Between the two sections of its lock it spawns the processes, so several calls
can do that at the same time.

* The tasks that read the pipes of a session keep it alive until the end of their pipe.  So
  does the manager, a call, and a client that has got it.
* Without any of these the session is dropped, which is to kill its processes.
* The code writes `drop(child.kill())`, with the `kill` of tokio, which is a future and does
  nothing when it is dropped.  `kills` says whether the processes are killed by it; the
  results hold for both.

`OneServer` says that the running processes of a toolchain are those of one session when no
call is in progress, that a call returns a session that is stored or dead, and that nothing
runs of a session that neither the manager nor a client has.  It fails when two calls spawn
at the same time, and when a dead session still has a process (`servers_fail`).
`oneServer_of_run` holds without these (`Sound`).
-/

namespace Vanyline.Sandbox.LspManager

open Vanyline.Lib

abbrev Toolchain := List Char

/-! ## Sessions -/

/-- A process, and whether the tasks at its stdout and its stderr still read. -/
structure Process where
  running : Bool
  stdout : Bool
  stderr : Bool

namespace Process

def new : Process := ⟨true, true, true⟩

def kill (kills : Bool) (process : Process) : Process :=
  if kills then { process with running := false } else process

def reads (process : Process) : Bool := process.stdout || process.stderr

end Process

/-- The first process is the primary one. -/
structure Session where
  toolchain : Toolchain
  alive : Bool
  processes : List Process

namespace Session

/-- `LspSession::spawn`, with so many auxiliaries. -/
def spawn (toolchain : Toolchain) (aux : Nat) : Session :=
  ⟨toolchain, true, List.replicate (aux + 1) .new⟩

variable (kills : Bool) (session : Session)

def runs : Bool := session.processes.any Process.running

def reads : Bool := session.processes.any Process.reads

/-- `Drop for LspSessionInner`. -/
def drop : Session :=
  { session with alive := false, processes := session.processes.map (.kill kills) }

def exit (p : Nat) : Session :=
  { session with processes := session.processes.modify p fun process =>
      { process with running := false } }

def closeStderr (p : Nat) : Session :=
  { session with processes := session.processes.modify p fun process =>
      { process with stderr := false } }

/-- The reader of the primary process takes the session for dead and kills the others. -/
def closeStdout (p : Nat) : Session :=
  let processes := session.processes.modify p fun process => { process with stdout := false }
  match p, processes with
  | 0, primary :: aux =>
    { session with alive := false, processes := primary :: aux.map (.kill kills) }
  | _, _ => { session with processes }

end Session

/-! ## The manager -/

/-- Where a call of `get_or_spawn` is; at its end the caller has a session, or has dropped it. -/
inductive Status
  | checking
  | spawning
  | spawned (j : Nat)
  | holding (j : Nat)
  | ended

structure Call where
  toolchain : Toolchain
  status : Status

def Call.inProgress (call : Call) : Bool :=
  match call.status with
  | .checking | .spawning | .spawned _ => true
  | .holding _ | .ended => false

def Call.holds (call : Call) (j : Nat) : Bool :=
  match call.status with
  | .spawned i | .holding i => i == j
  | _ => false

/-- Whether `drop(child.kill())` kills, and how many auxiliaries a toolchain has, if it is
configured. -/
structure Config where
  kills : Bool
  specs : Toolchain → Option Nat

/-- `stray` notes that a call has returned a live session that is not stored. -/
structure State where
  sessions : List Session
  stored : Toolchain → Option Nat
  calls : List Call
  stray : Bool

def State.init : State := ⟨[], fun _ => none, [], false⟩

namespace State

variable (s : State)

def setSession (j : Nat) (session : Session) : State :=
  { s with sessions := s.sessions.set j session }

def setStatus (c : Nat) (call : Call) (status : Status) : State :=
  { s with calls := s.calls.set c { call with status } }

/-- Does the manager, a call or a task have the session? -/
def referenced (j : Nat) (session : Session) : Bool :=
  s.stored session.toolchain == some j || s.calls.any (·.holds j) || session.reads

/-- A reference is gone. -/
def release (kills : Bool) (j : Nat) : State :=
  match s.sessions[j]? with
  | some session => if s.referenced j session then s else s.setSession j (session.drop kills)
  | none => s

def isAlive (j : Nat) : Bool := s.sessions[j]?.any Session.alive

/-- The live session that is stored. -/
def live (toolchain : Toolchain) : Option Nat := (s.stored toolchain).filter s.isAlive

def store (toolchain : Toolchain) (j : Nat) : State :=
  { s with stored := Function.update s.stored toolchain (some j) }

/-- The call returns the session. -/
def give (c : Nat) (call : Call) (j : Nat) : State :=
  let s := s.setStatus c call (.holding j)
  { s with stray := s.stray || !(s.stored call.toolchain == some j || !s.isAlive j) }

/-- The second section of the lock. -/
def finish (kills : Bool) (c : Nat) (call : Call) (j : Nat) : State :=
  match (s.live call.toolchain).filter (· != j) with
  | some existing => (s.give c call existing).release kills j
  | none =>
    let s' := (s.store call.toolchain j).give c call j
    match s.stored call.toolchain with
    | some old => s'.release kills old
    | none => s'

end State

/-! ## Steps -/

/-- A step of a call or of a client, the end of a process, or the end of a pipe. -/
inductive Label
  | call (toolchain : Toolchain)
  | check (c : Nat)
  | spawn (c : Nat) (aux : Nat)
  | spawnFail (c : Nat)
  | finish (c : Nat)
  | release (c : Nat)
  | exit (j p : Nat)
  | closeStdout (j p : Nat)
  | closeStderr (j p : Nat)

def stepCall (cfg : Config) (s : State) (c : Nat) (call : Call) : Label → Option State
  | .check _ =>
    match call.status with
    | .checking =>
      match s.live call.toolchain with
      | some j => some (s.give c call j)
      | none => some (s.setStatus c call .spawning)
    | _ => none
  | .spawn _ aux =>
    match call.status with
    | .spawning =>
      if (cfg.specs call.toolchain).any fun n => decide (aux ≤ n) then
        some { s.setStatus c call (.spawned s.sessions.length) with
          sessions := s.sessions ++ [.spawn call.toolchain aux] }
      else none
    | _ => none
  | .spawnFail _ =>
    match call.status with
    | .spawning => some (s.setStatus c call .ended)
    | _ => none
  | .finish _ =>
    match call.status with
    | .spawned j => some (s.finish cfg.kills c call j)
    | _ => none
  | .release _ =>
    match call.status with
    | .holding j => some ((s.setStatus c call .ended).release cfg.kills j)
    | _ => none
  | _ => none

def stepSession (cfg : Config) (s : State) (j : Nat) (session : Session) : Label → Option State
  | .exit _ p => some (s.setSession j (session.exit p))
  | .closeStdout _ p =>
    some ((s.setSession j (session.closeStdout cfg.kills p)).release cfg.kills j)
  | .closeStderr _ p => some ((s.setSession j (session.closeStderr p)).release cfg.kills j)
  | _ => none

def step (cfg : Config) (s : State) (l : Label) : Option State :=
  match l with
  | .call toolchain =>
    let status := if (cfg.specs toolchain).isSome then .checking else .ended
    some { s with calls := s.calls ++ [⟨toolchain, status⟩] }
  | .check c | .spawn c _ | .spawnFail c | .finish c | .release c =>
    s.calls[c]?.bind fun call => stepCall cfg s c call l
  | .exit j _ | .closeStdout j _ | .closeStderr j _ =>
    s.sessions[j]?.bind fun session => stepSession cfg s j session l

/-! ## The property -/

structure OneServer (s : State) : Prop where
  one : ∀ (i j : Nat) (session session' : Session),
    s.sessions[i]? = some session → s.sessions[j]? = some session' →
    session.toolchain = session'.toolchain →
    (∀ call ∈ s.calls, call.toolchain = session.toolchain → call.inProgress = false) →
    session.runs = true → session'.runs = true → i = j
  returned : s.stray = false
  killed : ∀ j session, s.sessions[j]? = some session → s.stored session.toolchain ≠ some j →
    (∀ call ∈ s.calls, call.holds j = false) → session.runs = false

/-! ## The condition -/

/-- Nothing runs of the session, or it is dropped and killed when the call and the manager do not
have it any more. -/
def State.over (s : State) (kills : Bool) (c j : Nat) : Bool :=
  s.sessions[j]?.all fun session => !session.runs ||
    (kills && !session.reads && s.calls.zipIdx.all fun (call, i) => i == c || !call.holds j)

/-- When a call has spawned a session, and another one is stored by then, the one of the two that
is not kept is `over`. -/
def Sound (cfg : Config) (s : State) : Label → Prop
  | .finish c =>
    match s.calls[c]? with
    | some call =>
      match call.status, s.stored call.toolchain with
      | .spawned j, some e =>
        e ≠ j → s.over cfg.kills c (if s.isAlive e then j else e) = true
      | _, _ => True
    | none => True
  | _ => True

/-! ## The invariant -/

variable {cfg : Config} {kills : Bool} {s t : State} {l : Label} {session session' : Session}
  {call : Call} {toolchain : Toolchain} {status : Status} {c i j k n : Nat}

/-- What runs of a session other than `k` runs because that is stored, or a call will store it. -/
def Runs (s : State) (k : Option Nat) : Prop :=
  ∀ j session, s.sessions[j]? = some session → session.runs = true → some j ≠ k →
    s.stored session.toolchain = some j ∨ ∃ call ∈ s.calls, call.status = .spawned j

/-- The session is there, and of the toolchain. -/
def Of (s : State) (j : Nat) (toolchain : Toolchain) : Prop :=
  ∃ session, s.sessions[j]? = some session ∧ session.toolchain = toolchain

/-- All but what runs. -/
structure Base (s : State) : Prop where
  spawnedOf : ∀ call ∈ s.calls, ∀ j, call.status = .spawned j → Of s j call.toolchain
  storedOf : ∀ toolchain j, s.stored toolchain = some j → Of s j toolchain
  returned : s.stray = false

structure Inv (s : State) : Prop extends Base s where
  runs : Runs s none

theorem inv_init : Inv .init := by
  refine ⟨⟨?_, ?_, rfl⟩, ?_⟩
  · intro call hmem
    cases hmem
  · intro toolchain j h
    cases h
  · intro j session h
    cases h

theorem Runs.mono {o : Option Nat} (hs : Runs s none) : Runs s o :=
  fun j session hj hrun _ => hs j session hj hrun nofun

/-! ## Processes end -/

theorem running_of_kill {process : Process} (h : (process.kill kills).running = true) :
    process.running = true := by
  unfold Process.kill at h
  split_ifs at h
  exact h

theorem any_modify {α : Type} {p : α → Bool} {f : α → α} (hf : ∀ a, p (f a) = true → p a = true)
    {as : List α} (h : (as.modify i f).any p = true) : as.any p = true := by
  induction as generalizing i with
  | nil =>
      rw [List.modify_nil] at h
      exact h
  | cons a as ih =>
      cases i with
      | zero =>
          rw [List.modify_zero_cons, List.any_cons, Bool.or_eq_true] at h
          rw [List.any_cons, Bool.or_eq_true]
          exact h.imp_left (hf a)
      | succ i =>
          rw [List.modify_succ_cons, List.any_cons, Bool.or_eq_true] at h
          rw [List.any_cons, Bool.or_eq_true]
          exact h.imp_right ih

theorem any_map_kill {processes : List Process}
    (h : (processes.map (.kill kills)).any Process.running = true) :
    processes.any Process.running = true := by
  rw [List.any_map] at h
  obtain ⟨process, hmem, hrunning⟩ := List.any_eq_true.1 h
  exact List.any_eq_true.2 ⟨process, hmem, running_of_kill hrunning⟩

theorem runs_of_drop (h : (session.drop kills).runs = true) : session.runs = true := any_map_kill h

theorem not_runs_drop : (session.drop true).runs = false := by
  show ((session.processes.map _).any _) = false
  rw [List.any_map, List.any_eq_false]
  intro process _ hrunning
  cases hrunning

theorem runs_of_exit (h : (session.exit n).runs = true) : session.runs = true :=
  any_modify nofun h

theorem runs_of_closeStderr (h : (session.closeStderr n).runs = true) : session.runs = true := by
  refine any_modify ?_ h
  intro process hrunning
  exact hrunning

theorem runs_of_closeStdout (h : (session.closeStdout kills n).runs = true) :
    session.runs = true := by
  have hmodify : (session.processes.modify n fun process =>
      { process with stdout := false }).any Process.running = true := by
    unfold Session.closeStdout at h
    dsimp only at h
    split at h
    · next primary aux heq =>
      rw [heq]
      rw [Session.runs, List.any_cons, Bool.or_eq_true] at h
      rw [List.any_cons, Bool.or_eq_true]
      exact h.imp_right any_map_kill
    · exact h
  refine any_modify ?_ hmodify
  intro process hrunning
  exact hrunning

theorem toolchain_closeStdout : (session.closeStdout kills n).toolchain = session.toolchain := by
  unfold Session.closeStdout
  dsimp only
  split <;> rfl

/-! ## Sessions go on -/

theorem Of.setSession (h : Of s i toolchain) (hj : s.sessions[j]? = some session)
    (htoolchain : session'.toolchain = session.toolchain) :
    Of (s.setSession j session') i toolchain := by
  obtain ⟨other, hother, hof⟩ := h
  by_cases hij : j = i
  · subst hij
    cases hj.symm.trans hother
    have hset := List.getElem?_set_self (l := s.sessions) (a := session')
      (List.getElem?_eq_some_iff.1 hj).1
    exact ⟨session', hset, htoolchain.trans hof⟩
  · exact ⟨other, by rw [← hother]; exact List.getElem?_set_ne hij, hof⟩

theorem Base.setSession (hs : Base s) (hj : s.sessions[j]? = some session)
    (htoolchain : session'.toolchain = session.toolchain) : Base (s.setSession j session') :=
  { hs with
    spawnedOf := fun call hmem i hstatus =>
      (hs.spawnedOf call hmem i hstatus).setSession hj htoolchain
    storedOf := fun toolchain i h => (hs.storedOf toolchain i h).setSession hj htoolchain }

/-- No more of a session runs than before, or it is the one that is left out. -/
theorem Runs.setSession {o : Option Nat} (hs : Runs s o) (hj : s.sessions[j]? = some session)
    (htoolchain : session'.toolchain = session.toolchain)
    (hruns : session'.runs = true → session.runs = true) : Runs (s.setSession j session') o := by
  intro i other hother hrun hne
  by_cases hij : j = i
  · subst hij
    have hset : (s.setSession j session').sessions[j]? = some session' :=
      List.getElem?_set_self (List.getElem?_eq_some_iff.1 hj).1
    cases hset.symm.trans hother
    rw [htoolchain]
    exact hs j session hj (hruns hrun) hne
  · have hset : (s.setSession j session').sessions[i]? = s.sessions[i]? := List.getElem?_set_ne hij
    exact hs i other (hset.symm.trans hother) hrun hne

theorem Base.release (hs : Base s) (kills : Bool) (j : Nat) : Base (s.release kills j) := by
  unfold State.release
  split
  · next session hj =>
    split_ifs
    · exact hs
    · exact hs.setSession hj rfl
  · exact hs

theorem Inv.release (hs : Inv s) (kills : Bool) (j : Nat) : Inv (s.release kills j) := by
  refine ⟨hs.toBase.release kills j, ?_⟩
  unfold State.release
  split
  · next session hj =>
    split_ifs
    · exact hs.runs
    · exact hs.runs.setSession hj rfl runs_of_drop
  · exact hs.runs

/-- The session that is left out does not run, or the release kills it. -/
theorem inv_release (hs : Base s) (hruns : Runs s (some j))
    (hover : ∀ session, s.sessions[j]? = some session → session.runs = true →
      kills = true ∧ s.referenced j session = false) : Inv (s.release kills j) := by
  refine ⟨hs.release kills j, ?_⟩
  intro i other hother hrun _
  by_cases hij : i = j
  · subst hij
    unfold State.release at hother
    split at hother
    · next session hi =>
      split_ifs at hother with href
      · cases hi.symm.trans hother
        rw [(hover other hi hrun).2] at href
        cases href
      · have hset : (s.setSession i (session.drop kills)).sessions[i]? =
            some (session.drop kills) :=
          List.getElem?_set_self (List.getElem?_eq_some_iff.1 hi).1
        cases hset.symm.trans hother
        rw [(hover session hi (runs_of_drop hrun)).1, not_runs_drop] at hrun
        cases hrun
    · next hnone =>
      rw [hnone] at hother
      cases hother
  · have hne : some i ≠ some j := fun h => hij (Option.some.inj h)
    unfold State.release at hother ⊢
    split at hother
    · next session hj =>
      split_ifs at hother ⊢
      · exact hruns i other hother hrun hne
      · have hset : Runs (s.setSession j (session.drop kills)) (some j) :=
          hruns.setSession hj rfl runs_of_drop
        exact hset i other hother hrun hne
    · exact hruns i other hother hrun hne

/-! ## Calls go on -/

/-- The call at `c` comes to another status, and what it has spawned is not left behind, unless it
is the session that is left out. -/
theorem Runs.setStatus {o : Option Nat} (hs : Runs s o) (hc : s.calls[c]? = some call)
    (hleft : ∀ j, call.status = .spawned j → status = .spawned j ∨ some j = o ∨
      ∀ session, s.sessions[j]? = some session → s.stored session.toolchain = some j) :
    Runs (s.setStatus c call status) o := by
  intro j session hj hrun hne
  rcases hs j session hj hrun hne with hstored | ⟨other, hmem, hspawned⟩
  · exact .inl hstored
  · obtain ⟨i, hi⟩ := List.getElem?_of_mem hmem
    by_cases hci : c = i
    · subst hci
      cases hc.symm.trans hi
      rcases hleft j hspawned with hstatus | hout | hstored
      · refine .inr ⟨{ call with status }, ?_, hstatus⟩
        exact List.mem_of_getElem? (List.getElem?_set_self (List.getElem?_eq_some_iff.1 hc).1)
      · exact absurd hout hne
      · exact .inl (hstored session hj)
    · refine .inr ⟨other, ?_, hspawned⟩
      exact List.mem_of_getElem? ((List.getElem?_set_ne hci).trans hi)

theorem Base.setStatus (hs : Base s) (c : Nat) (call : Call) (status : Status)
    (hnew : ∀ j, status ≠ .spawned j) : Base (s.setStatus c call status) :=
  { hs with
    spawnedOf := by
      intro other hmem j hstatus
      rcases List.mem_or_eq_of_mem_set hmem with hmem | rfl
      · exact hs.spawnedOf other hmem j hstatus
      · exact absurd hstatus (hnew j) }

/-- A call returns the session that is stored. -/
theorem Base.give (hs : Base s) (c : Nat) (hstored : s.stored call.toolchain = some j) :
    Base (s.give c call j) :=
  { hs.setStatus c call (.holding j) nofun with
    returned := by
      show (s.stray || !(s.stored call.toolchain == some j || _)) = false
      rw [hs.returned, hstored, beq_self_eq_true]
      rfl }

/-- A call that has spawned nothing comes to another status. -/
theorem Inv.setStatus (hs : Inv s) (hc : s.calls[c]? = some call) (status : Status)
    (hold : ∀ j, call.status ≠ .spawned j) (hnew : ∀ j, status ≠ .spawned j) :
    Inv (s.setStatus c call status) :=
  ⟨hs.toBase.setStatus c call status hnew,
    hs.runs.setStatus hc fun j hspawned => absurd hspawned (hold j)⟩

theorem Base.spawn (hs : Base s) (toolchain : Toolchain) (aux : Nat) :
    Base { s with sessions := s.sessions ++ [.spawn toolchain aux] } := by
  have hof : ∀ {j toolchain'}, Of s j toolchain' →
      Of { s with sessions := s.sessions ++ [.spawn toolchain aux] } j toolchain' := by
    intro j toolchain' h
    obtain ⟨session, hj, htoolchain⟩ := h
    refine ⟨session, ?_, htoolchain⟩
    rw [← hj]
    exact List.getElem?_append_left (List.getElem?_eq_some_iff.1 hj).1
  exact { hs with
    spawnedOf := fun call hmem j hstatus => hof (hs.spawnedOf call hmem j hstatus)
    storedOf := fun toolchain j h => hof (hs.storedOf toolchain j h) }

/-- The processes are spawned, and the call has the new session. -/
theorem Inv.spawn (hs : Inv s) (hc : s.calls[c]? = some call) (hstatus : call.status = .spawning)
    (aux : Nat) : Inv { s.setStatus c call (.spawned s.sessions.length) with
      sessions := s.sessions ++ [.spawn call.toolchain aux] } := by
  have hbase := hs.toBase.spawn call.toolchain aux
  have hnew : (s.sessions ++ [Session.spawn call.toolchain aux])[s.sessions.length]? =
      some (.spawn call.toolchain aux) := List.getElem?_concat_length
  have hmem : { call with status := .spawned s.sessions.length } ∈
      s.calls.set c { call with status := .spawned s.sessions.length } :=
    List.mem_of_getElem? (List.getElem?_set_self (List.getElem?_eq_some_iff.1 hc).1)
  refine ⟨{ hbase with spawnedOf := ?_ }, ?_⟩
  · intro other hother j hspawned
    rcases List.mem_or_eq_of_mem_set hother with hother | rfl
    · exact hbase.spawnedOf other hother j hspawned
    · cases hspawned
      exact ⟨_, hnew, rfl⟩
  · have hset : Runs (s.setStatus c call (.spawned s.sessions.length)) none :=
      hs.runs.setStatus hc fun j hspawned => by
        rw [hstatus] at hspawned
        cases hspawned
    intro j session hj hrun hne
    by_cases hlt : j < s.sessions.length
    · refine hset j session ?_ hrun hne
      rw [← hj]
      exact (List.getElem?_append_left hlt).symm
    · have hlt' := (List.getElem?_eq_some_iff.1 hj).1
      rw [List.length_append, List.length_singleton] at hlt'
      have hj' : j = s.sessions.length := by omega
      exact .inr ⟨_, hmem, by rw [hj']⟩

/-! ## The second section of the lock -/

theorem referenced_eq_false (hstored : s.stored session.toolchain ≠ some k)
    (hreads : session.reads = false) (hheld : ∀ call ∈ s.calls, call.holds k = false) :
    s.referenced k session = false := by
  unfold State.referenced
  rw [hreads, Bool.or_false, Bool.or_eq_false_iff, beq_eq_false_iff_ne]
  refine ⟨hstored, List.any_eq_false.2 ?_⟩
  intro call hmem hholds
  rw [hheld call hmem] at hholds
  cases hholds

/-- When the session is `over`, it does not run, or has no reference when the call holds another
and the manager does not have it. -/
theorem unreferenced_of_over (hover : s.over kills c k = true) (hk : s.sessions[k]? = some session)
    (hrun : session.runs = true) (hne : j ≠ k) (hstored : t.stored session.toolchain ≠ some k)
    (hcalls : t.calls = s.calls.set c { call with status := .holding j }) :
    kills = true ∧ t.referenced k session = false := by
  simp only [State.over, hk, Option.all_some, hrun, Bool.not_true, Bool.false_or, Bool.and_eq_true,
    Bool.not_eq_true'] at hover
  obtain ⟨⟨hkills, hreads⟩, hall⟩ := hover
  refine ⟨hkills, referenced_eq_false hstored hreads ?_⟩
  intro other hmem
  rw [hcalls] at hmem
  obtain ⟨i, hi⟩ := List.getElem?_of_mem hmem
  by_cases hci : c = i
  · subst hci
    rw [List.getElem?_set_self (by
      have hlt := (List.getElem?_eq_some_iff.1 hi).1
      rwa [List.length_set] at hlt), Option.some.injEq] at hi
    rw [← hi]
    exact beq_eq_false_iff_ne.2 hne
  · rw [List.getElem?_set_ne hci] at hi
    have hother := List.all_eq_true.1 hall (other, i) (List.mem_zipIdx_iff_getElem?.2 hi)
    rw [Bool.or_eq_true, beq_iff_eq] at hother
    rcases hother with heq | hnot
    · exact absurd heq.symm hci
    · rwa [Bool.not_eq_true'] at hnot

/-- The session of the call is stored, in the place of the one that is left out. -/
theorem Runs.store {o : Option Nat} (hs : Runs s none) (hc : s.calls[c]? = some call)
    (hstatus : call.status = .spawned j) (hof : Of s j call.toolchain)
    (hold : ∀ old, s.stored call.toolchain = some old → old = j ∨ some old = o) :
    Runs ((s.store call.toolchain j).give c call j) o := by
  have hstore : Runs (s.store call.toolchain j) o := by
    intro i session hi hrun hne
    show Function.update s.stored call.toolchain (some j) session.toolchain = some i ∨ _
    by_cases htoolchain : session.toolchain = call.toolchain
    · rw [htoolchain, Function.update_self]
      rcases hs i session hi hrun nofun with hstored | hspawned
      · rw [htoolchain] at hstored
        rcases hold i hstored with rfl | hout
        · exact .inl rfl
        · exact absurd hout hne
      · exact .inr hspawned
    · rw [Function.update_of_ne htoolchain]
      exact hs i session hi hrun nofun
  refine hstore.setStatus hc fun i hspawned => .inr (.inr fun session hi => ?_)
  cases hstatus.symm.trans hspawned
  obtain ⟨session', hj, htoolchain⟩ := hof
  cases hj.symm.trans hi
  show Function.update s.stored call.toolchain (some j) session.toolchain = some j
  rw [htoolchain, Function.update_self]

theorem Base.store (hs : Base s) (hof : Of s j toolchain) : Base (s.store toolchain j) :=
  { hs with
    storedOf := by
      intro toolchain' i h
      by_cases htoolchain : toolchain' = toolchain
      · subst htoolchain
        simp only [State.store, Function.update_self, Option.some.injEq] at h
        rw [← h]
        exact hof
      · simp only [State.store, Function.update_of_ne htoolchain] at h
        exact hs.storedOf toolchain' i h }

/-- Another call has stored a live session. -/
theorem Inv.finish_live (hs : Inv s) (hc : s.calls[c]? = some call)
    (hstatus : call.status = .spawned j) (hlive : s.live call.toolchain = some i) (hne : i ≠ j)
    (hover : s.over kills c j = true) : Inv ((s.give c call i).release kills j) := by
  have hstored : s.stored call.toolchain = some i := (Option.filter_eq_some_iff.1 hlive).1
  obtain ⟨session, hj, htoolchain⟩ :=
    hs.spawnedOf call (List.mem_of_getElem? hc) j hstatus
  have hruns : Runs (s.give c call i) (some j) :=
    hs.runs.mono.setStatus hc fun k hspawned => by
      cases hstatus.symm.trans hspawned
      exact .inr (.inl rfl)
  refine inv_release (hs.toBase.give c hstored) hruns ?_
  intro session' hj' hrun
  cases hj.symm.trans hj'
  refine unreferenced_of_over hover hj hrun hne ?_ rfl
  show s.stored session.toolchain ≠ some j
  rw [htoolchain, hstored]
  exact fun h => hne (Option.some.inj h)

/-- The session of the call takes the place of one that is dead, or of none. -/
theorem Inv.finish_dead (hs : Inv s) (hc : s.calls[c]? = some call)
    (hstatus : call.status = .spawned j)
    (hover : ∀ old, s.stored call.toolchain = some old → old ≠ j → s.over kills c old = true) :
    Inv (match s.stored call.toolchain with
      | some old => ((s.store call.toolchain j).give c call j).release kills old
      | none => (s.store call.toolchain j).give c call j) := by
  have hof := hs.spawnedOf call (List.mem_of_getElem? hc) j hstatus
  have hbase : Base ((s.store call.toolchain j).give c call j) :=
    (hs.toBase.store hof).give c (Function.update_self ..)
  split
  · next old hold =>
    by_cases heq : old = j
    · subst heq
      have hruns : Runs ((s.store call.toolchain old).give c call old) none :=
        hs.runs.store hc hstatus hof fun k hk => .inl (Option.some.inj (hk.symm.trans hold))
      exact Inv.release ⟨hbase, hruns⟩ kills old
    · obtain ⟨session, hk, htoolchain⟩ := hs.storedOf _ old hold
      refine inv_release hbase
        (hs.runs.store hc hstatus hof fun k hk => .inr (hk.symm.trans hold)) ?_
      intro session' hk' hrun
      cases hk.symm.trans hk'
      refine unreferenced_of_over (hover old hold heq) hk hrun (Ne.symm heq) ?_ rfl
      show Function.update s.stored call.toolchain (some j) session.toolchain ≠ some old
      rw [htoolchain, Function.update_self]
      exact fun h => heq (Option.some.inj h).symm
  · next hnone =>
    refine ⟨hbase, hs.runs.store hc hstatus hof fun k hk => ?_⟩
    rw [hnone] at hk
    cases hk

theorem Inv.finish (hs : Inv s) (hc : s.calls[c]? = some call) (hstatus : call.status = .spawned j)
    (hsound : Sound cfg s (.finish c)) : Inv (s.finish cfg.kills c call j) := by
  have hover : ∀ e, s.stored call.toolchain = some e → e ≠ j →
      s.over cfg.kills c (if s.isAlive e then j else e) = true := by
    intro e he hne
    simp only [Sound, hc, hstatus, he] at hsound
    exact hsound hne
  unfold State.finish
  split
  · next e hlive =>
    obtain ⟨hlive, hne⟩ := Option.filter_eq_some_iff.1 hlive
    obtain ⟨hstored, halive⟩ := Option.filter_eq_some_iff.1 hlive
    have hne : e ≠ j := bne_iff_ne.1 hne
    have hover := hover e hstored hne
    rw [if_pos halive] at hover
    exact hs.finish_live hc hstatus hlive hne hover
  · next hnone =>
    refine hs.finish_dead hc hstatus ?_
    intro old hold hne
    have hover := hover old hold hne
    have hdead : ¬ s.isAlive old = true := by
      intro halive
      rw [State.live, hold, Option.filter_some, if_pos halive, Option.filter_some,
        if_pos (bne_iff_ne.2 hne)] at hnone
      cases hnone
    rwa [if_neg hdead] at hover

/-! ## Runs -/

theorem Inv.check (hs : Inv s) (hc : s.calls[c]? = some call)
    (hstep : stepCall cfg s c call (.check c) = some t) : Inv t := by
  simp only [LspManager.stepCall] at hstep
  split at hstep
  · next hstatus =>
    have hold : ∀ j, call.status ≠ .spawned j := by
      intro j h
      cases hstatus.symm.trans h
    split at hstep
    · next j hlive =>
      cases hstep
      refine ⟨hs.toBase.give c (Option.filter_eq_some_iff.1 hlive).1, ?_⟩
      exact (hs.setStatus hc (.holding j) hold nofun).runs
    · cases hstep
      exact hs.setStatus hc .spawning hold nofun
  · cases hstep

theorem Inv.stepSession (hs : Inv s) (hj : s.sessions[j]? = some session)
    (hstep : stepSession cfg s j session l = some t) : Inv t := by
  have hset : ∀ session', session'.toolchain = session.toolchain →
      (session'.runs = true → session.runs = true) → Inv (s.setSession j session') :=
    fun session' htoolchain hruns =>
      ⟨hs.toBase.setSession hj htoolchain, hs.runs.setSession hj htoolchain hruns⟩
  cases l with
  | exit i p =>
      cases hstep
      exact hset _ rfl runs_of_exit
  | closeStdout i p =>
      cases hstep
      exact (hset _ toolchain_closeStdout runs_of_closeStdout).release _ _
  | closeStderr i p =>
      cases hstep
      exact (hset (session.closeStderr p) rfl runs_of_closeStderr).release _ _
  | _ => cases hstep

/-- A step that is `Sound` keeps the invariant. -/
theorem inv_step (hs : Inv s) (hsound : Sound cfg s l) (hstep : step cfg s l = some t) : Inv t := by
  cases l with
  | call toolchain =>
      cases hstep
      have hnew : ∀ j, (if (cfg.specs toolchain).isSome then Status.checking else .ended) ≠
          .spawned j := by
        intro j
        split_ifs
        · exact nofun
        · exact nofun
      refine ⟨{ hs.toBase with spawnedOf := ?_ }, ?_⟩
      · intro call hmem j hstatus
        rcases List.mem_append.1 hmem with hmem | hmem
        · exact hs.spawnedOf call hmem j hstatus
        · rw [List.mem_singleton.1 hmem] at hstatus
          exact absurd hstatus (hnew j)
      · intro j session hj hrun hne
        refine (hs.runs j session hj hrun hne).imp_right ?_
        rintro ⟨call, hmem, hspawned⟩
        exact ⟨call, List.mem_append_left _ hmem, hspawned⟩
  | check c =>
      obtain ⟨call, hc, hstep⟩ := Option.bind_eq_some_iff.1 hstep
      exact hs.check hc hstep
  | spawn c aux =>
      obtain ⟨call, hc, hstep⟩ := Option.bind_eq_some_iff.1 hstep
      simp only [stepCall] at hstep
      split at hstep
      · next hstatus =>
        split_ifs at hstep
        cases hstep
        exact hs.spawn hc hstatus aux
      · cases hstep
  | spawnFail c =>
      obtain ⟨call, hc, hstep⟩ := Option.bind_eq_some_iff.1 hstep
      simp only [stepCall] at hstep
      split at hstep
      · next hstatus =>
        cases hstep
        refine hs.setStatus hc .ended ?_ nofun
        intro j h
        cases hstatus.symm.trans h
      · cases hstep
  | finish c =>
      obtain ⟨call, hc, hstep⟩ := Option.bind_eq_some_iff.1 hstep
      simp only [stepCall] at hstep
      split at hstep
      · next j hstatus =>
        cases hstep
        exact hs.finish hc hstatus hsound
      · cases hstep
  | release c =>
      obtain ⟨call, hc, hstep⟩ := Option.bind_eq_some_iff.1 hstep
      simp only [stepCall] at hstep
      split at hstep
      · next j hstatus =>
        cases hstep
        refine (hs.setStatus hc .ended ?_ nofun).release _ _
        intro i h
        cases hstatus.symm.trans h
      · cases hstep
  | exit j p =>
      obtain ⟨session, hj, hstep⟩ := Option.bind_eq_some_iff.1 hstep
      exact hs.stepSession hj hstep
  | closeStdout j p =>
      obtain ⟨session, hj, hstep⟩ := Option.bind_eq_some_iff.1 hstep
      exact hs.stepSession hj hstep
  | closeStderr j p =>
      obtain ⟨session, hj, hstep⟩ := Option.bind_eq_some_iff.1 hstep
      exact hs.stepSession hj hstep

theorem Inv.oneServer (hs : Inv s) : OneServer s where
  one := by
    intro i j session session' hi hj htoolchain hidle hrun hrun'
    have hstored : ∀ k (other : Session), s.sessions[k]? = some other → other.runs = true →
        other.toolchain = session.toolchain → s.stored session.toolchain = some k := by
      intro k other hk hruns hof
      rcases hs.runs k other hk hruns nofun with hstored | ⟨call, hmem, hspawned⟩
      · rw [← hof]
        exact hstored
      · obtain ⟨other', hk', hof'⟩ := hs.spawnedOf call hmem k hspawned
        cases hk.symm.trans hk'
        have hprogress := hidle call hmem (hof'.symm.trans hof)
        rw [Call.inProgress, hspawned] at hprogress
        cases hprogress
    have hi' := hstored i session hi hrun rfl
    have hj' := hstored j session' hj hrun' htoolchain.symm
    exact Option.some.inj (hi'.symm.trans hj')
  returned := hs.returned
  killed := by
    intro j session hj hstored hheld
    rw [Bool.eq_false_iff]
    intro hrun
    rcases hs.runs j session hj hrun nofun with h | ⟨call, hmem, hspawned⟩
    · exact hstored h
    · have hholds := hheld call hmem
      rw [Call.holds, hspawned] at hholds
      exact beq_eq_false_iff_ne.1 hholds rfl

/-- In every run whose steps are `Sound`, the property holds in each state, whether processes are
killed by a drop or not. -/
theorem oneServer_of_run {cfg : Config} {ls : List Label} {s : State}
    (hrun : Run (step cfg) (Sound cfg) .init ls s) : OneServer s :=
  (hrun.invariant (I := Inv) inv_init fun _ _ _ => inv_step).oneServer

/-! ## The failing runs -/

def rust : Toolchain := "rust".toList

/-- One toolchain, with so many auxiliaries. -/
def single (kills : Bool) (aux : Nat) : Config :=
  ⟨kills, fun toolchain => if toolchain = rust then some aux else none⟩

/-- Two calls spawn at the same time. -/
def race : List Label := [.call rust, .call rust, .check 0, .check 1, .spawn 0 0, .spawn 1 0,
  .finish 0, .finish 1]

/-- A server closes its stdout and goes on. -/
def closed : List Label := [.call rust, .check 0, .spawn 0 0, .finish 0, .closeStdout 0 0,
  .call rust, .check 1, .spawn 1 0, .finish 1]

/-- The primary server ends, and its auxiliary goes on. -/
def orphaned : List Label := [.call rust, .check 0, .spawn 0 1, .finish 0, .exit 0 0,
  .closeStdout 0 0, .call rust, .check 1, .spawn 1 1, .finish 1]

/-- No call is in progress, and two sessions run. -/
def hasTwo (s : State) : Bool :=
  s.calls.all (fun call => !call.inProgress) &&
    match s.sessions[0]?, s.sessions[1]? with
    | some session, some session' =>
      session.toolchain == session'.toolchain && session.runs && session'.runs
    | _, _ => false

theorem not_oneServer_of_two (h : hasTwo s = true) : ¬ OneServer s := by
  intro hs
  rw [hasTwo, Bool.and_eq_true] at h
  obtain ⟨hidle, htwo⟩ := h
  split at htwo
  · next session session' h₀ h₁ =>
    rw [Bool.and_eq_true, Bool.and_eq_true, beq_iff_eq] at htwo
    obtain ⟨⟨htoolchain, hrun⟩, hrun'⟩ := htwo
    have heq := hs.one 0 1 session session' h₀ h₁ htoolchain (fun call hmem _ => ?_) hrun hrun'
    · cases heq
    · have hnot := List.all_eq_true.1 hidle call hmem
      rwa [Bool.not_eq_true'] at hnot
  · cases htwo

theorem exists_notOneServer {cfg : Config} {ls : List Label}
    (h : (exec (step cfg) free .init ls).any hasTwo = true) :
    ∃ s, Run (step cfg) free .init ls s ∧ hasTwo s = true ∧ ¬ OneServer s := by
  obtain ⟨s, hrun, hs⟩ := Run.exists_of_exec hasTwo h
  exact ⟨s, hrun, hs, not_oneServer_of_two hs⟩

/-- Servers of two sessions of one toolchain run, in two of the runs even if a drop kills. -/
theorem servers_fail :
    (∃ s, Run (step (single true 0)) free .init race s ∧ hasTwo s = true ∧ ¬ OneServer s) ∧
    (∃ s, Run (step (single true 0)) free .init closed s ∧ hasTwo s = true ∧ ¬ OneServer s) ∧
    ∃ s, Run (step (single false 1)) free .init orphaned s ∧ hasTwo s = true ∧ ¬ OneServer s :=
  ⟨exists_notOneServer (by decide), exists_notOneServer (by decide),
    exists_notOneServer (by decide)⟩

instance (cfg : Config) (s : State) (l : Label) : Decidable (Sound cfg s l) :=
  match l with
  | .finish c =>
    match hc : s.calls[c]? with
    | some call =>
      match hstatus : call.status, hstored : s.stored call.toolchain with
      | .spawned j, some e =>
        decidable_of_iff (e ≠ j → s.over cfg.kills c (if s.isAlive e then j else e) = true)
          (by simp only [Sound, hc, hstatus, hstored])
      | .spawned _, none | .checking, _ | .spawning, _ | .holding _, _ | .ended, _ =>
        isTrue (by simp only [Sound, hc, hstatus, hstored])
    | none => isTrue (by simp only [Sound, hc])
  | .call _ | .check _ | .spawn .. | .spawnFail _ | .release _ | .exit .. | .closeStdout ..
  | .closeStderr .. => isTrue trivial

/-- The server ends, another one is spawned, and a second call gets that. -/
def respawned : List Label := [.call rust, .check 0, .spawn 0 0, .finish 0, .exit 0 0,
  .closeStdout 0 0, .closeStderr 0 0, .call rust, .check 1, .spawn 1 0, .finish 1, .release 0,
  .call rust, .check 2]

def hasOne (s : State) : Bool :=
  s.stored rust == some 1 && s.calls.any (·.holds 1) &&
    match s.sessions[0]?, s.sessions[1]? with
    | some session, some session' => !session.runs && session'.runs
    | _, _ => false

theorem oneServer_respawned :
    ∃ s, Run (step (single false 0)) (Sound (single false 0)) .init respawned s ∧
      hasOne s = true ∧ OneServer s := by
  obtain ⟨s, hrun, hs⟩ := Run.exists_of_exec hasOne
    (show (exec (step (single false 0)) (Sound (single false 0)) .init respawned).any _ = true by
      decide)
  exact ⟨s, hrun, hs, oneServer_of_run hrun⟩

end Vanyline.Sandbox.LspManager
