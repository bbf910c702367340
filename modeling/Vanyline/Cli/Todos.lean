import Vanyline.Cli.TurnResults

/-!
# The task list of a turn

With a toolbox every turn has a task list of its own, which starts as the list of the
conversation.  Without a toolbox all turns of a session work on one list, which starts as
the list of the first conversation.

`OwnTodos` says that a turn finds the list of its conversation either way, reads that list
with its own changes, and is stored with them: a list of its own would hold the same.

A turn that fails, or is interrupted, leaves its list to the next one, and so does a
conversation that `/new` ends (`list_of_failed_turn`).  `ownTodos_of_run` holds when such
a turn has left the shared list as that of the conversation, and when the shared list is
empty at `/new` (`NoLeak`).
-/

namespace Vanyline.Cli.Tui

open Vanyline.Lib

/-! ## The property -/

/-- The list after the writes. -/
def written (seed : Option Text) (writes : List Text) : Option Text := writes.getLast?.or seed

/-- The list that the last stored turn of a conversation has left, or else the one that
the conversation had at first. -/
def leftBy (session : Session) (saved : List Saved) (conversation : Nat) : Option Text :=
  match (saved.filter fun x => x.conversation = conversation).getLast? with
  | some x => x.todo.value
  | none => if conversation = session.conversation.id then session.conversation.todo else none

structure OwnTodos (session : Session) (s : State) : Prop where
  conversation : s.conv.todo = leftBy session s.saved s.conv.id
  found : ∀ t task, s.tasks t = some task → task.found = task.seed
  running : ∀ t task, s.tasks t = some task → task.alive = true →
    task.conversation = s.conv.id ∧ task.seed = s.conv.todo ∧
      s.todoOf task = written task.seed task.writes
  stored : ∀ x ∈ s.saved, ∃ task, s.tasks x.user.turn = some task ∧
    x.conversation = task.conversation ∧ x.todo.value = written task.seed task.writes ∧
      x.todo.value = task.todo

/-! ## The condition -/

/-- The shared list is that of the conversation, if the turns work on the shared list. -/
def InSync (s : State) : Prop := s.toolbox = false → s.sharedTodo = s.conv.todo

/-- The effects open a conversation. -/
def opensConversation (effects : List Effect) : Bool :=
  effects.any fun
    | .newConversation => true
    | _ => false

def TurnOutcome.failed (outcome : TurnOutcome) : Bool :=
  match outcome.result with
  | .ok _ => false
  | .error _ => true

/-- No successful outcome is next. -/
def noSuccess (waiting : List (Of TurnOutcome)) : Bool :=
  waiting.head?.all (·.value.failed)

/-- A turn that does not succeed has left the shared list as that of the conversation, and
the shared list is empty when a new conversation begins. -/
def NoLeak (s : State) : Label → Prop
  | .key .ctrlC => s.state.status.isRunning = true → InSync s
  | .key .enter => opensConversation (submit s.state).2 = true → s.toolbox = false →
      s.sharedTodo = none
  | .outcome => noSuccess s.turnRx = true → InSync s
  | .clock _ => s.slot.any (!s.alive ·) = true → noSuccess s.turnRx = true → InSync s
  | _ => True

def KeepsLists (s : State) (a : Label) : Prop := Timely s a ∧ NoLeak s a

/-! ## The invariant -/

/-- The lists of the conversations, the tasks and the stored turns. -/
structure Lists (session : Session) (s : State) : Prop where
  fresh : s.conv.id < s.conversations ∧ session.conversation.id < s.conversations ∧
    ∀ x ∈ s.saved, x.conversation < s.conversations
  conversation : s.conv.todo = leftBy session s.saved s.conv.id
  tasks : ∀ t task, s.tasks t = some task →
    task.found = task.seed ∧ task.todo = written task.seed task.writes
  stored : ∀ x ∈ s.saved, ∃ task, s.tasks x.user.turn = some task ∧
    x.conversation = task.conversation ∧ x.todo.value = task.todo

/-- The turn in the slot works on the list of the conversation, its outcome carries its
list, and at rest the shared list is that of the conversation. -/
structure Todos (session : Session) (s : State) : Prop extends Lists session s where
  atWork : ∀ t, s.slot = some t → ∃ task, s.tasks t = some task ∧
    task.conversation = s.conv.id ∧ task.seed = s.conv.todo ∧ s.todoOf task = task.todo
  atRest : s.quit = false → s.slot = none → InSync s
  outcomes : s.quit = false → ∀ o ∈ s.turnRx, o.value.failed = false →
    ∃ task, s.tasks o.turn = some task ∧ o.value.todo = task.todo

section Lists

variable {session : Session} {s : State}

@[simp] theorem written_nil (seed : Option Text) : written seed [] = seed := rfl

@[simp] theorem written_concat (seed : Option Text) (writes : List Text) (todos : Text) :
    written seed (writes ++ [todos]) = some todos := by
  simp [written]

@[simp] theorem leftBy_concat (saved : List Saved) (x : Saved) :
    leftBy session (saved ++ [x]) x.conversation = x.todo.value := by
  simp [leftBy]

/-- A conversation that no turn is stored for, and that is not the first, has no list. -/
theorem leftBy_fresh {saved : List Saved} {conversation : Nat}
    (hsaved : ∀ x ∈ saved, x.conversation < conversation)
    (hfirst : session.conversation.id < conversation) :
    leftBy session saved conversation = none := by
  have hnone : saved.filter (fun x => x.conversation = conversation) = [] := by
    rw [List.filter_eq_nil_iff]
    intro x hx
    have hlt := hsaved x hx
    simp only [decide_eq_true_eq]
    omega
  have hne : conversation ≠ session.conversation.id := by omega
  simp [leftBy, hnone, hne]

theorem todos_init (session : Session) : Todos session (State.init session) where
  fresh := by simp [State.init]
  conversation := by simp [State.init, leftBy]
  tasks := by simp [State.init]
  stored := by simp [State.init]
  atWork := by simp [State.init]
  atRest := fun _ _ _ => rfl
  outcomes := by simp [State.init]

theorem ownTodos_of_todos (hturns : Turns s) (hs : Todos session s) : OwnTodos session s where
  conversation := hs.conversation
  found := fun t task htask => (hs.tasks t task htask).1
  running := by
    intro t task htask halive
    have hslot : s.slot = some t := hturns.alive t (by simp [State.alive, htask, halive])
    obtain ⟨task', htask', hconversation, hseed, htodo⟩ := hs.atWork t hslot
    rw [htask, Option.some.injEq] at htask'
    subst htask'
    exact ⟨hconversation, hseed, htodo.trans (hs.tasks t task htask).2⟩
  stored := by
    intro x hx
    obtain ⟨task, htask, hconversation, htodo⟩ := hs.stored x hx
    exact ⟨task, htask, hconversation, htodo.trans (hs.tasks _ task htask).2, htodo⟩

/-! ## Tasks that end -/

/-- The tasks, when only those that `live` allows go on. -/
def State.keeping (s : State) (live : Nat → Bool) (turn : Nat) : Option Task :=
  (s.tasks turn).map fun task => { task with alive := task.alive && live turn }

theorem tasks_endTask (turn : Nat) : (s.endTask turn).tasks = s.keeping (decide <| · ≠ turn) := by
  funext u
  by_cases h : u = turn
  · subst h
    simp [State.endTask, State.keeping]
  · simp [State.endTask, State.keeping, h]

theorem tasks_cancel : ∃ live, s.cancel.tasks = s.keeping live := by
  unfold State.cancel
  cases s.slot with
  | none => exact ⟨fun _ => true, by funext u; simp [State.keeping]⟩
  | some turn => exact ⟨_, tasks_endTask turn⟩

theorem keeping_some (live : Nat → Bool) {turn : Nat} {task : Task}
    (htask : s.tasks turn = some task) :
    s.keeping live turn = some { task with alive := task.alive && live turn } := by
  simp [State.keeping, htask]

/-- That a task ends does not change its list. -/
theorem Lists.keeping (hs : Lists session s) (live : Nat → Bool) :
    Lists session { s with tasks := s.keeping live } :=
  { hs with
    tasks := by
      intro t task htask
      obtain ⟨task', htask', rfl⟩ := Option.map_eq_some_iff.1 htask
      exact hs.tasks t task' htask'
    stored := by
      intro x hx
      obtain ⟨task, htask, hconversation, htodo⟩ := hs.stored x hx
      exact ⟨_, keeping_some live htask, hconversation, htodo⟩ }

theorem Lists.cancel (hs : Lists session s) : Lists session s.cancel := by
  obtain ⟨live, hlive⟩ := tasks_cancel (s := s)
  rw [cancel_eq, hlive]
  exact { hs.keeping live with }

/-! ## Keys -/

theorem todos_start (hturns : Turns s) (hs : Todos session s) {next : AppState} {text : Text}
    {marks : List Mark} (hquit : s.quit = false) (hidle : s.state.status = .idle) :
    Todos session ({ s with state := next, marks }.startTurn text) := by
  obtain ⟨hslot, hempty⟩ := hturns.at_rest hquit hidle
  have hsync := hs.atRest hquit hslot
  have hfound : (if s.toolbox then s.conv.todo else s.sharedTodo) = s.conv.todo := by
    split_ifs with htoolbox
    · rfl
    · exact hsync (by simpa using htoolbox)
  simp only [State.startTurn, hslot, hfound]
  exact
    { hs with
      tasks := by
        intro t task htask
        by_cases ht : t = s.turns
        · simp only [ht, Function.update_self, Option.some.injEq] at htask
          subst htask
          exact ⟨rfl, rfl⟩
        · simp only [Function.update_of_ne ht] at htask
          exact hs.tasks t task htask
      stored := by
        intro x hx
        have hlt := (hturns.saved x hx).2.2.1
        have hne : x.user.turn ≠ s.turns := by omega
        simp only [Function.update_of_ne hne]
        exact hs.stored x hx
      atWork := by
        intro t ht
        simp only [Option.some.injEq] at ht
        subst ht
        refine ⟨_, Function.update_self .., rfl, rfl, ?_⟩
        exact hfound
      atRest := by
        intro _ hnone
        cases hnone
      outcomes := by
        intro _ o ho
        simp only [hempty] at ho
        cases ho }

/-- A turn is interrupted that has left the list as it was. -/
theorem todos_interrupt (hs : Todos session s) {next : AppState}
    {marks : List Mark} (hempty : s.turnRx = []) (hsync : InSync s) :
    Todos session (State.runEffect { s with state := next, marks } .cancelTurn) := by
  let shown : State := { s with state := next, marks }
  have hlists : Lists session shown := { hs.toLists with }
  have hcancel : shown.cancel = { shown with slot := none, tasks := shown.cancel.tasks } := cancel_eq
  show Todos session
    { shown.cancel with interrupted := Function.update s.interrupted (s.turns - 1) true }
  refine { hlists.cancel with atWork := ?_, atRest := ?_, outcomes := ?_ }
  · intro t ht
    rw [slot_cancel] at ht
    cases ht
  · intro _ _
    rw [hcancel]
    exact hsync
  · intro _ o ho
    rw [hcancel] at ho
    have hnone : o ∈ s.turnRx := ho
    rw [hempty] at hnone
    cases hnone

theorem todos_quit (hs : Todos session s) : Todos session { s.cancel with quit := true } :=
  { hs.toLists.cancel with
    atWork := by
      intro t ht
      rw [slot_cancel] at ht
      cases ht
    atRest := by simp
    outcomes := by simp }

/-- A new conversation begins, with an empty list. -/
theorem todos_newConversation (hturns : Turns s) (hs : Todos session s) (hquit : s.quit = false)
    (hidle : s.state.status = .idle) (hnone : s.toolbox = false → s.sharedTodo = none) :
    Todos session s.newConversation := by
  obtain ⟨hslot, hempty⟩ := hturns.at_rest hquit hidle
  obtain ⟨hid, hfirst, hsaved⟩ := hs.fresh
  exact
    { hs with
      fresh := by
        refine ⟨Nat.lt_succ_self _, Nat.lt_succ_of_lt hfirst, ?_⟩
        intro x hx
        exact Nat.lt_succ_of_lt (hsaved x hx)
      conversation := (leftBy_fresh hsaved hfirst).symm
      atWork := by
        intro t ht
        have ht' : s.slot = some t := ht
        rw [hslot] at ht'
        cases ht'
      atRest := fun _ _ => hnone }

theorem todos_key (hturns : Turns s) (hs : Todos session s) (hquit : s.quit = false) {key : Key}
    (hok : KeepsLists s (.key key)) : Todos session (s.loopStep none (.key key)) := by
  rw [loopStep_eq]
  show Todos session ((keyUpdate s.state key).2.foldl _ _)
  have hresult := keyUpdate_result s.state key
  have hcancel : key = .ctrlC → s.state.status.isRunning = true → s.turnRx = [] ∧ InSync s := by
    intro hkey hrunning
    subst hkey
    exact ⟨hok.1 hrunning, hok.2 hrunning⟩
  have hopen : key = .enter → opensConversation (keyUpdate s.state key).2 = true →
      s.toolbox = false → s.sharedTodo = none := by
    intro hkey
    subst hkey
    exact hok.2
  simp only [update]
  generalize keyUpdate s.state key = result at *
  obtain ⟨next, effects⟩ := result
  cases hresult with
  | view _ _ => exact { hs with }
  | start hidle _ _ => exact todos_start hturns hs hquit hidle
  | interrupt hrunning _ _ =>
      obtain ⟨hempty, hsync⟩ := hcancel rfl hrunning
      exact todos_interrupt hs hempty hsync
  | quit _ _ =>
      have hview : Todos session { s with
          state := next
          marks := remark s.turns none s.state.transcript next.transcript s.marks } := { hs with }
      exact todos_quit hview
  | newConversation hidle _ hstatus =>
      have hview : Todos session { s with
          state := next
          marks := remark s.turns none s.state.transcript next.transcript s.marks } := { hs with }
      exact todos_newConversation (hturns.view hstatus) hview hquit (hstatus.trans hidle)
        (hopen rfl rfl)
  | switchAgent _ _ => exact { hs with }

/-! ## Outcomes -/

/-- A turn has failed that has left the list as it was. -/
theorem todos_failed (hs : Todos session s) (hsync : InSync s) (e : Text) :
    Todos session ({ s with slot := none, turnRx := [] }.loopStep none
      (.turnFinished (.error e))) :=
  { hs with
    atWork := by
      intro t ht
      cases ht
    atRest := fun _ _ => hsync
    outcomes := by
      intro _ o ho
      cases ho }

/-- The turn is stored with its list, and the conversation has that list from now on. -/
theorem todos_succeeded (hturns : Turns s) (hs : Todos session s) {t : Nat}
    (hslot : s.slot = some t) {answer : Message × Option Text}
    (hanswer : ∃ task, s.tasks t = some task ∧ answer.2 = task.todo) :
    Todos session ({ s with slot := none, turnRx := [], lastTurn := some ⟨t, answer⟩ }.loopStep
      none (.turnFinished (.ok ()))) := by
  obtain ⟨-, ⟨text, hlast⟩, -⟩ := hturns.slot t hslot
  obtain ⟨task, htask, hconversation, -, htodo⟩ := hs.atWork t hslot
  have hlist : answer.2 = task.todo := by
    obtain ⟨task', htask', hlist⟩ := hanswer
    rw [htask, Option.some.injEq] at htask'
    rw [hlist, htask']
  obtain ⟨hid, hfirst, hsaved⟩ := hs.fresh
  rw [succeeded_eq hlast]
  exact
    { hs with
      fresh := by
        refine ⟨hid, hfirst, ?_⟩
        intro x hx
        rcases List.mem_append.1 hx with hx | hx
        · exact hsaved x hx
        · rw [List.mem_singleton.1 hx]
          exact hid
      conversation := (leftBy_concat s.saved
        ⟨s.conv.id, ⟨t, text⟩, ⟨t, answer.1⟩, ⟨t, answer.2⟩⟩).symm
      stored := by
        intro x hx
        rcases List.mem_append.1 hx with hx | hx
        · exact hs.stored x hx
        · rw [List.mem_singleton.1 hx]
          exact ⟨task, htask, hconversation.symm, hlist⟩
      atWork := by
        intro u hu
        cases hu
      atRest := by
        intro _ _ htoolbox
        have hshared : s.todoOf task = s.sharedTodo := by
          rw [State.todoOf, show s.toolbox = false from htoolbox]
          rfl
        exact hshared.symm.trans (htodo.trans hlist.symm)
      outcomes := by
        intro _ o ho
        cases ho }

theorem todos_takeOutcome (hturns : Turns s) (hs : Todos session s) (hquit : s.quit = false)
    {o : Of TurnOutcome} {rest : List (Of TurnOutcome)} (ho : s.turnRx = o :: rest)
    (hsync : noSuccess s.turnRx = true → InSync s) :
    Todos session ({ s with turnRx := rest }.takeOutcome o) := by
  obtain ⟨hrest, hslot, -⟩ := hturns.outcome hquit ho
  subst hrest
  have hlist := hs.outcomes hquit o (by rw [ho]; exact List.mem_cons_self)
  simp only [ho, noSuccess, List.head?_cons, Option.all_some] at hsync
  unfold State.takeOutcome
  simp only [TurnOutcome.failed] at hlist hsync
  dsimp only
  cases hresult : o.value.result with
  | ok result =>
      rw [hresult] at hlist
      exact todos_succeeded hturns hs hslot (hlist rfl)
  | error e =>
      rw [hresult] at hsync
      exact todos_failed hs (hsync rfl) e

theorem todos_takeFinished (hturns : Turns s) (hs : Todos session s) (hquit : s.quit = false)
    (reason : Text) (hok : KeepsLists s (.clock reason)) :
    Todos session (s.takeFinished reason) := by
  unfold State.takeFinished
  split
  · next t hslot =>
    split_ifs with halive
    · exact hs
    · have hended : s.slot.any (!s.alive ·) = true := by simpa [hslot] using halive
      have hsync := hok.2 hended
      split
      · next o rest ho => exact todos_takeOutcome hturns hs hquit ho hsync
      · next hempty =>
        have hfailed := todos_failed hs (hsync (by rw [hempty]; rfl)) (State.endedText reason)
        rw [← hempty] at hfailed
        exact hfailed
  · exact hs

/-! ## Acts of the task -/

theorem todos_todowrite (hturns : Turns s) (hs : Todos session s) {turn : Nat} {task : Task}
    (htask : s.tasks turn = some task) (halive : s.alive turn = true) (todos : Text) :
    Todos session { s with
      tasks := Function.update s.tasks turn
        (some { task with todo := some todos, writes := task.writes ++ [todos] })
      sharedTodo := if s.toolbox then s.sharedTodo else some todos } := by
  have hslot := hturns.alive turn halive
  exact
    { hs with
      tasks := by
        intro t task' htask'
        by_cases ht : t = turn
        · simp only [ht, Function.update_self, Option.some.injEq] at htask'
          subst htask'
          exact ⟨(hs.tasks turn task htask).1, (written_concat ..).symm⟩
        · simp only [Function.update_of_ne ht] at htask'
          exact hs.tasks t task' htask'
      stored := by
        intro x hx
        have hne : x.user.turn ≠ turn := (hturns.slot turn hslot).2.2.2.2 x hx
        simp only [Function.update_of_ne hne]
        exact hs.stored x hx
      atWork := by
        intro t ht
        have ht' : s.slot = some t := ht
        rw [hslot, Option.some.injEq] at ht'
        subst ht'
        obtain ⟨task', htask', hconversation, hseed, -⟩ := hs.atWork turn hslot
        rw [htask, Option.some.injEq] at htask'
        subst htask'
        refine ⟨_, Function.update_self .., hconversation, hseed, ?_⟩
        simp only [State.todoOf]
        split_ifs
        · rfl
        · rfl
      atRest := by
        intro _ hnone
        have hnone' : s.slot = none := hnone
        rw [hslot] at hnone'
        cases hnone'
      outcomes := by
        intro hquit o ho
        have ho' : o ∈ s.turnRx := ho
        rw [hturns.nothing_waits hquit halive] at ho'
        cases ho' }

/-- The task ends, and its outcome, if it sends one, carries its list. -/
theorem todos_endTask (hturns : Turns s) (hs : Todos session s) {turn : Nat} {task : Task}
    (htask : s.tasks turn = some task) (halive : s.alive turn = true)
    {waiting : List (Of TurnOutcome)}
    (hwaiting : ∀ o ∈ waiting, o.turn = turn ∧
      (o.value.failed = false → o.value.todo = s.todoOf task)) :
    Todos session { s.endTask turn with turnRx := s.turnRx ++ waiting } := by
  have hslot := hturns.alive turn halive
  obtain ⟨task', htask', hconversation, hseed, htodo⟩ := hs.atWork turn hslot
  rw [htask, Option.some.injEq] at htask'
  subst htask'
  have hend : s.endTask turn = { s with tasks := s.keeping (decide <| · ≠ turn) } := by
    rw [← tasks_endTask]
    rfl
  rw [hend]
  exact
    { hs.toLists.keeping (decide <| · ≠ turn) with
      atWork := by
        intro t ht
        obtain ⟨task', htask', hrest⟩ := hs.atWork t ht
        exact ⟨_, keeping_some (decide <| · ≠ turn) htask', hrest⟩
      atRest := hs.atRest
      outcomes := by
        intro hquit o ho hfailed
        have ho' : o ∈ s.turnRx ++ waiting := ho
        rw [hturns.nothing_waits hquit halive, List.nil_append] at ho'
        obtain ⟨rfl, hlist⟩ := hwaiting o ho'
        exact ⟨_, keeping_some (decide <| · ≠ o.turn) htask, (hlist hfailed).trans htodo⟩ }

theorem todos_step {t : State} {a : Label} (hturns : Turns s) (hs : Todos session s)
    (hok : KeepsLists s a) (h : step s a = some t) : Todos session t := by
  cases a with
  | key key =>
      obtain ⟨hquit, rfl⟩ := take_cases h
      exact todos_key hturns hs hquit hok
  | paste input =>
      obtain ⟨-, rfl⟩ := take_cases h
      exact { hs with }
  | event =>
      simp only [step] at h
      split at h
      · obtain ⟨-, rfl⟩ := take_cases h
        exact { hs with }
      · cases h
  | outcome =>
      simp only [step] at h
      split at h
      · next o rest ho =>
        obtain ⟨hquit, rfl⟩ := take_cases h
        exact todos_takeOutcome hturns hs hquit ho hok.2
      · cases h
  | clock reason =>
      obtain ⟨hquit, rfl⟩ := take_cases h
      exact { todos_takeFinished hturns hs hquit reason hok with }
  | gitSummary summary =>
      obtain ⟨-, rfl⟩ := take_cases h
      exact { hs with }
  | stop =>
      obtain ⟨-, rfl⟩ := take_cases h
      exact todos_quit hs
  | emit turn event =>
      obtain ⟨task, -, -, rfl⟩ := act_cases h
      exact { hs with }
  | todowrite turn todos =>
      obtain ⟨task, htask, halive, rfl⟩ := act_cases h
      exact todos_todowrite hturns hs htask halive todos
  | finish turn result =>
      obtain ⟨task, htask, halive, rfl⟩ := act_cases h
      exact todos_endTask hturns hs htask halive (by simp)
  | refused turn message =>
      simp only [step] at h
      split_ifs at h
      · obtain ⟨task, htask, halive, rfl⟩ := act_cases h
        exact todos_endTask hturns hs htask halive (by simp [TurnOutcome.failed])
  | panic turn =>
      obtain ⟨task, htask, halive, rfl⟩ := act_cases h
      have hended : Todos session { s.endTask turn with turnRx := s.turnRx ++ [] } :=
        todos_endTask hturns hs htask halive (by simp)
      rw [List.append_nil] at hended
      exact hended

/-! ## Runs -/

structure ListsInv (session : Session) (s : State) : Prop extends Turns s, Todos session s

/-- In every run in which a turn that does not succeed leaves the shared list as it was,
and a conversation begins with an empty one, each turn has its own list. -/
theorem ownTodos_of_run {as : List Label} (h : Run step KeepsLists (State.init session) as s) :
    OwnTodos session s := by
  have hinv : ListsInv session s := h.invariant
    { turns_init session, todos_init session with } fun _ _ _ hs hok hstep =>
      { turns_step hs.toTurns hok.1 hstep, todos_step hs.toTurns hs.toTodos hok hstep with }
  exact ownTodos_of_todos hinv.toTurns hinv.toTodos

end Lists

/-! ## A list that leaks -/

instance (s : State) : Decidable (InSync s) := inferInstanceAs (Decidable (_ → _))

instance (s : State) (a : Label) : Decidable (NoLeak s a) :=
  match a with
  | .key .ctrlC | .outcome => inferInstanceAs (Decidable (_ → _))
  | .key .enter | .clock _ => inferInstanceAs (Decidable (_ → _ → _))
  | .key (.ctrlD _) | .key .ctrlR | .key .ctrlT | .key .tab | .key .backTab | .key (.space _)
  | .key (.type _) | .key (.move _) => isTrue trivial
  | .paste _ | .event | .gitSummary _ | .stop | .emit _ _ | .todowrite _ _ | .finish _ _
  | .refused _ _ | .panic _ => isTrue trivial

instance (s : State) (a : Label) : Decidable (KeepsLists s a) :=
  inferInstanceAs (Decidable (_ ∧ _))

/-- The first turn writes a list and fails. -/
def failedTurn : List Label :=
  ask "a".toList ++ [.todowrite 0 "x".toList, .finish 0 (.error "e".toList), .outcome] ++
    ask "b".toList

/-- The first turn writes a list and is stored, and a new conversation begins. -/
def afterNew : List Label :=
  ask "a".toList ++ [.todowrite 0 "x".toList, .finish 0 (.ok ⟨"A".toList, []⟩), .outcome] ++
    ask "/new".toList ++ ask "b".toList

/-- The second turn finds a list which its conversation does not have. -/
def State.leaked (s : State) : Bool :=
  (s.tasks 1).any fun task => task.found == some "x".toList && task.seed == none

theorem not_own_of_leaked {session : Session} {s : State} (h : s.leaked = true) :
    ¬ OwnTodos session s := by
  intro hown
  obtain ⟨task, htask, hleaked⟩ := Option.any_eq_true _ _ |>.1 h
  simp only [Bool.and_eq_true, beq_iff_eq] at hleaked
  have hfound := hown.found 1 task htask
  rw [hleaked.1, hleaked.2] at hfound
  cases hfound

theorem leaks_of_exec {as : List Label}
    (h : (exec step Orderly (State.init emptySession) as).any State.leaked = true) :
    ∃ t, Run step Orderly (State.init emptySession) as t ∧ t.leaked = true ∧
      ¬ OwnTodos emptySession t := by
  obtain ⟨t, hrun, ht⟩ := Run.exists_of_exec State.leaked h
  exact ⟨t, hrun, ht, not_own_of_leaked ht⟩

/-- Without a toolbox the list of a failed turn, and that of the conversation before, is
found by the next turn. -/
theorem list_of_failed_turn :
    (∃ t, Run step Orderly (State.init emptySession) failedTurn t ∧ t.leaked = true ∧
      ¬ OwnTodos emptySession t) ∧
    ∃ t, Run step Orderly (State.init emptySession) afterNew t ∧ t.leaked = true ∧
      ¬ OwnTodos emptySession t :=
  ⟨leaks_of_exec (by decide), leaks_of_exec (by decide)⟩

/-- A turn that writes a list and is stored, one that fails without writing, and one that
goes on. -/
def keptLists : List Label :=
  ask "a".toList ++ [.todowrite 0 "x".toList, .finish 0 (.ok ⟨"A".toList, []⟩), .outcome] ++
    ask "b".toList ++ [.finish 1 (.error "e".toList), .clock []] ++ ask "c".toList

theorem ownTodos_kept : ∃ t, Run step KeepsLists (State.init emptySession) keptLists t ∧
    t.sharedTodo = some "x".toList ∧ OwnTodos emptySession t := by
  obtain ⟨t, hrun, ht⟩ := Run.exists_of_exec (fun t : State => t.sharedTodo == some "x".toList)
    (show (exec step KeepsLists (State.init emptySession) keptLists).any _ = true by decide)
  exact ⟨t, hrun, beq_iff_eq.1 ht, ownTodos_of_run hrun⟩

end Vanyline.Cli.Tui
