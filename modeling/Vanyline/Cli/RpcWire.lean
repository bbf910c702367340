import Vanyline.Cli.RpcConversations

/-!
# The lines on the wire

A line of the input is answered by the loop or by the task of a turn, and the events of a
turn are numbered for each conversation.  A number is drawn under a lock, and the line
goes into the queue after that.

`Disciplined` says that every line that is read is answered once, with its id, that the
events of a turn come before its response, and that the numbers of a conversation are
those from zero on, in order, until its counter is reset.

Two events of a conversation may go into the queue in the other order, a turn goes on
numbering after its counter has been reset, and a turn that panics is not answered
(`events_out_of_order`).  `disciplined_of_run` holds when none of this happens (`Tidy`).
-/

namespace Vanyline.Cli.Rpc

open Vanyline.Lib

/-! ## The property -/

/-- The lines that have been queued, in order. -/
def State.out (s : State) : List Out := s.wire ++ s.queue

/-- The response to a line of the input. -/
def Out.answers (n : Nat) : Out → Bool
  | .response line _ _ => line = n
  | .event _ _ _ _ _ _ => false

/-- An event of the turn that a line asked for. -/
def Out.notifies (n : Nat) : Out → Bool
  | .response _ _ _ => false
  | .event line _ _ _ _ _ => line = n

/-- The epoch of the conversation in which an event of it was sent. -/
def Out.sentIn (c : Uuid) : Out → Option Nat
  | .response _ _ _ => none
  | .event _ _ epoch conversation _ _ => if conversation = c then some epoch else none

/-- The number of an event of the conversation, sent in the epoch. -/
def Out.numberIn (c : Uuid) (e : Nat) : Out → Option Nat
  | .response _ _ _ => none
  | .event _ _ epoch conversation seq _ => if conversation = c ∧ epoch = e then some seq else none

/-- The loop or the task of a turn still has to answer the line. -/
def State.owed (s : State) (n : Nat) : Prop :=
  (∃ id stage, s.loop = .handling n id stage) ∨
    ∃ t task, s.tasks t = some task ∧ task.line = n ∧ task.stage.unanswered = true

structure Disciplined (s : State) : Prop where
  answered : ∀ n, n < s.ids.length → (s.out.countP (·.answers n) = 1 ∧ ¬ s.owed n) ∨
    (s.out.countP (·.answers n) = 0 ∧ s.owed n)
  atExit : ∀ t, step s .exit = some t → ∀ n, n < s.ids.length → s.wire.countP (·.answers n) = 1
  ownId : ∀ n id body, Out.response n id body ∈ s.out → s.ids[n]? = some id
  eventsFirst : s.out.Pairwise fun a b => ∀ n, a.answers n = true → b.notifies n = false
  numbered : ∀ c e, ∃ k, s.out.filterMap (·.numberIn c e) = List.range k
  restarts : s.out.Pairwise fun a b => ∀ c e e', a.sentIn c = some e → b.sentIn c = some e' → e ≤ e'
  ownEpoch : ∀ line accepted epoch c seq event,
    Out.event line accepted epoch c seq event ∈ s.out → accepted = epoch

/-! ## The condition -/

/-- The turn has not returned, and may send events. -/
def TaskStage.emits : TaskStage → Bool
  | .spawned | .running => true
  | _ => false

/-- No turn that satisfies the test may send events. -/
def State.quiet (s : State) (test : Task → Bool) : Bool :=
  (List.range s.turns).all fun t => (s.tasks t).all fun task => !(test task && task.stage.emits)

/-- The counters are reset only for conversations of which no turn runs, the events of a
conversation are queued in the order of their numbers, no counter overflows, and no turn
panics. -/
def Tidy (s : State) : Label → Prop
  | .advance _ =>
    match s.loop with
    | .handling _ _ (.clearSeq _) => s.quiet (fun _ => true) = true
    | .handling _ _ (.purgeSeq c) => s.quiet (fun task => task.conversation = c) = true
    | _ => True
  | .draw t _ => (s.tasks t).all (fun task => s.seq task.conversation + 1 < UInt64.size) = true
  | .send i =>
    s.drawn[i]?.all (fun e => (s.drawn.take i).all fun e' => e'.conversation ≠ e.conversation) = true
  | .panic _ => False
  | _ => True

/-! ## The invariants -/

/-- What the loop has in hand. -/
def Loop.inHand : Loop → Option (Nat × Id)
  | .handling line id _ => some (line, id)
  | _ => none

/-- Every line is in one hand. -/
structure Lines (s : State) : Prop where
  turns : ∀ t task, s.tasks t = some task → t < s.turns
  ownLine : ∀ t u a b, s.tasks t = some a → s.tasks u = some b → a.line = b.line → t = u
  taskId : ∀ t task, s.tasks t = some task → s.ids[task.line]? = some task.id
  handId : ∀ n id, s.loop.inHand = some (n, id) → s.ids[n]? = some id
  handLine : ∀ n id, s.loop.inHand = some (n, id) → ∀ t task, s.tasks t = some task → task.line ≠ n

/-- Who owes the answer to a line. -/
structure Answers (s : State) : Prop extends Lines s where
  ownId : ∀ n id body, Out.response n id body ∈ s.out → s.ids[n]? = some id
  answered : ∀ n, n < s.ids.length → (s.out.countP (·.answers n) = 1 ∧ ¬ s.owed n) ∨
    (s.out.countP (·.answers n) = 0 ∧ s.owed n)

/-- The numbers that wait to be queued. -/
def State.pending (s : State) (c : Uuid) : List Nat :=
  (s.drawn.filter fun e => e.conversation = c).map (·.seq)

/-- The numbers that have been sent and those that wait. -/
structure Numbers (s : State) : Prop where
  drawn : ∀ d ∈ s.drawn, ∃ task, s.tasks d.turn = some task ∧ task.stage = .running ∧
    task.line = d.line ∧ task.conversation = d.conversation ∧ task.epoch = d.accepted
  current : ∀ t task, s.tasks t = some task → task.stage.emits = true →
    task.epoch = s.epoch task.conversation
  bounded : ∀ line ∈ s.out, ∀ c e, line.sentIn c = some e → e ≤ s.epoch c
  restarts : s.out.Pairwise fun a b => ∀ c e e', a.sentIn c = some e → b.sentIn c = some e' → e ≤ e'
  ownEpoch : ∀ line accepted epoch c seq event,
    Out.event line accepted epoch c seq event ∈ s.out → accepted = epoch
  numbered : ∀ c e, ∃ k, s.out.filterMap (·.numberIn c e) = List.range k
  next : ∀ c, ∃ k, s.out.filterMap (·.numberIn c (s.epoch c)) = List.range k ∧
    s.pending c = List.range' k (s.pending c).length ∧ k + (s.pending c).length = s.seq c

structure WireInv (s : State) : Prop extends Answers s, Numbers s where
  eventsFirst : s.out.Pairwise fun a b => ∀ n, a.answers n = true → b.notifies n = false

variable {s : State}

theorem wireInv_init (store : Store) : WireInv (State.init store) where
  turns := by simp [State.init]
  ownLine := by simp [State.init]
  taskId := by simp [State.init]
  handId := by simp [State.init, Loop.inHand]
  handLine := by simp [State.init]
  ownId := by simp [State.init, State.out]
  answered := by simp [State.init]
  drawn := by simp [State.init]
  current := by simp [State.init]
  bounded := by simp [State.init, State.out]
  restarts := by simp [State.init, State.out]
  ownEpoch := by simp [State.init, State.out]
  numbered := fun _ _ => ⟨0, rfl⟩
  next := fun _ => ⟨0, rfl, rfl, rfl⟩
  eventsFirst := by simp [State.init, State.out]

/-! ## Answers -/

theorem inHand_iff {loop : Loop} {n : Nat} {id : Id} :
    loop.inHand = some (n, id) ↔ ∃ stage, loop = .handling n id stage := by
  cases loop with
  | waiting => simp [Loop.inHand]
  | stopped => simp [Loop.inHand]
  | handling line id' stage =>
      simp only [Loop.inHand, Option.some.injEq, Prod.mk.injEq, Loop.handling.injEq]
      constructor
      · rintro ⟨rfl, rfl⟩
        exact ⟨stage, rfl, rfl, rfl⟩
      · rintro ⟨stage', rfl, rfl, -⟩
        exact ⟨rfl, rfl⟩

theorem owed_iff {n : Nat} : s.owed n ↔ (∃ id, s.loop.inHand = some (n, id)) ∨
    ∃ t task, s.tasks t = some task ∧ task.line = n ∧ task.stage.unanswered = true := by
  unfold State.owed
  simp only [inHand_iff]

theorem owed_congr {t : State} (htasks : t.tasks = s.tasks)
    (hhand : t.loop.inHand = s.loop.inHand) (n : Nat) : t.owed n ↔ s.owed n := by
  rw [owed_iff, owed_iff, htasks, hhand]

/-- No response is queued, and who owes one stays the same. -/
theorem Answers.of_same (hs : Answers s) {t : State} (htasks : t.tasks = s.tasks)
    (hturns : t.turns = s.turns) (hids : t.ids = s.ids)
    (hhand : t.loop.inHand = s.loop.inHand)
    (hcount : ∀ n, t.out.countP (·.answers n) = s.out.countP (·.answers n))
    (hout : ∀ n id body, Out.response n id body ∈ t.out → Out.response n id body ∈ s.out) :
    Answers t where
  turns := by
    rw [htasks, hturns]
    exact hs.turns
  ownLine := by
    rw [htasks]
    exact hs.ownLine
  taskId := by
    rw [htasks, hids]
    exact hs.taskId
  handId := by
    rw [hhand, hids]
    exact hs.handId
  handLine := by
    rw [hhand, htasks]
    exact hs.handLine
  ownId := by
    intro n id body h
    rw [hids]
    exact hs.ownId n id body (hout n id body h)
  answered := by
    intro n hn
    rw [hcount, owed_congr htasks hhand]
    exact hs.answered n (hids ▸ hn)

/-- A line that is owed is answered, and owed no more. -/
theorem Answers.answered_answer (hs : Answers s) (t : State) {n : Nat} {id : Id} {body : Body}
    (howed : s.owed n) (hid : s.ids[n]? = some id) (hids : t.ids = s.ids)
    (hout : t.out = s.out ++ [.response n id body]) (howed' : ∀ m, t.owed m ↔ s.owed m ∧ m ≠ n) :
    (∀ n id body, Out.response n id body ∈ t.out → t.ids[n]? = some id) ∧
    ∀ m, m < t.ids.length → (t.out.countP (·.answers m) = 1 ∧ ¬ t.owed m) ∨
      (t.out.countP (·.answers m) = 0 ∧ t.owed m) := by
  constructor
  · intro m id' body' h
    rw [hout, List.mem_append, List.mem_singleton] at h
    rw [hids]
    rcases h with h | h
    · exact hs.ownId m id' body' h
    · cases h
      exact hid
  · intro m hm
    have hm' := hs.answered m (hids ▸ hm)
    rw [hout, List.countP_append, howed']
    by_cases hmn : m = n
    · subst hmn
      rcases hm' with ⟨-, hnot⟩ | ⟨hzero, -⟩
      · exact absurd howed hnot
      · refine .inl ⟨?_, fun h => h.2 rfl⟩
        rw [hzero]
        simp [Out.answers]
    · have hother : [Out.response n id body].countP (·.answers m) = 0 := by
        simp [Out.answers, Ne.symm hmn]
      rw [hother, Nat.add_zero]
      rcases hm' with ⟨hone, hnot⟩ | ⟨hzero, howes⟩
      · exact .inl ⟨hone, fun h => hnot h.1⟩
      · exact .inr ⟨hzero, howes, hmn⟩

theorem Lines.setTask (hs : Lines s) {t : Nat} {task task' : Task} (ht : s.tasks t = some task)
    (hline : task'.line = task.line) (hid : task'.id = task.id) : Lines (s.setTask t task') := by
  have htasks : ∀ u b, (s.setTask t task').tasks u = some b → ∃ b', s.tasks u = some b' ∧
      b.line = b'.line ∧ b.id = b'.id := by
    intro u b hb
    simp only [State.setTask, Function.update_apply] at hb
    split_ifs at hb with hu
    · cases hb
      exact ⟨task, hu ▸ ht, hline, hid⟩
    · exact ⟨b, hb, rfl, rfl⟩
  exact
    { turns := by
        intro u b hb
        obtain ⟨b', hb', -⟩ := htasks u b hb
        exact hs.turns u b' hb'
      ownLine := by
        intro u v a b ha hb hab
        obtain ⟨a', ha', haline, -⟩ := htasks u a ha
        obtain ⟨b', hb', hbline, -⟩ := htasks v b hb
        exact hs.ownLine u v a' b' ha' hb' (haline.symm.trans (hab.trans hbline))
      taskId := by
        intro u b hb
        obtain ⟨b', hb', hline', hid'⟩ := htasks u b hb
        rw [hline', hid']
        exact hs.taskId u b' hb'
      handId := hs.handId
      handLine := by
        intro n id h u b hb
        obtain ⟨b', hb', hline', -⟩ := htasks u b hb
        rw [hline']
        exact hs.handLine n id h u b' hb' }

/-- The task goes on, and has been answered or not as before. -/
theorem Answers.setTask (hs : Answers s) {t : Nat} {task task' : Task}
    (ht : s.tasks t = some task) (hline : task'.line = task.line) (hid : task'.id = task.id)
    (hunanswered : task'.stage.unanswered = task.stage.unanswered) :
    Answers (s.setTask t task') := by
  have howed : ∀ n, (s.setTask t task').owed n ↔ s.owed n := by
    intro n
    rw [owed_iff, owed_iff]
    refine or_congr_right ⟨?_, ?_⟩
    · rintro ⟨u, b, hb, hbline, hblive⟩
      simp only [State.setTask, Function.update_apply] at hb
      split_ifs at hb with hu
      · cases hb
        exact ⟨t, task, ht, hline.symm.trans hbline, hunanswered.symm.trans hblive⟩
      · exact ⟨u, b, hb, hbline, hblive⟩
    · rintro ⟨u, b, hb, hbline, hblive⟩
      by_cases hu : u = t
      · subst hu
        rw [ht, Option.some.injEq] at hb
        subst hb
        exact ⟨u, task', by simp [State.setTask], hline.trans hbline, hunanswered.trans hblive⟩
      · exact ⟨u, b, by simp [State.setTask, hu, hb], hbline, hblive⟩
  exact
    { hs.toLines.setTask ht hline hid with
      ownId := hs.ownId
      answered := by
        intro n hn
        rw [howed]
        exact hs.answered n hn }

theorem out_queue (s : State) (line : Out) :
    ({ s with queue := s.queue ++ [line] } : State).out = s.out ++ [line] := by
  simp [State.out]

/-- The task answers. -/
theorem Answers.sendResponse (hs : Answers s) {t : Nat} {task : Task}
    (ht : s.tasks t = some task) (hunanswered : task.stage.unanswered = true)
    (result : Except Text ChatTurnResult) : Answers (s.sendResponse t task result) := by
  have howed : s.owed task.line := .inr ⟨t, task, ht, rfl, hunanswered⟩
  have hlines : Lines { s with
      queue := s.queue ++ [Out.response task.line task.id (State.turnBody result)] } :=
    { hs.toLines with }
  obtain ⟨hownId, hanswered⟩ := hs.answered_answer (s.sendResponse t task result) howed
    (hs.taskId t task ht) rfl (out_queue s _) (by
      intro m
      rw [owed_iff, owed_iff]
      constructor
      · rintro (⟨id, hhand⟩ | ⟨u, b, hb, hbline, hblive⟩)
        · exact ⟨.inl ⟨id, hhand⟩, (hs.handLine m id hhand t task ht).symm⟩
        · simp only [State.sendResponse, State.setTask, Function.update_apply] at hb
          split_ifs at hb with hu
          · cases hb
            cases hblive
          · refine ⟨.inr ⟨u, b, hb, hbline, hblive⟩, ?_⟩
            intro hm
            exact hu (hs.ownLine u t b task hb ht (hbline.trans hm))
      · rintro ⟨⟨id, hhand⟩ | ⟨u, b, hb, hbline, hblive⟩, hm⟩
        · exact .inl ⟨id, hhand⟩
        · have hu : u ≠ t := by
            intro hu
            rw [hu, ht, Option.some.injEq] at hb
            exact hm (by rw [← hbline, hb])
          exact .inr ⟨u, b, by simp [State.sendResponse, State.setTask, hu, hb], hbline, hblive⟩)
  have hlines' : Lines (s.sendResponse t task result) := hlines.setTask ht rfl rfl
  exact { hlines' with ownId := hownId, answered := hanswered }

theorem inHand_next : s.next.inHand = none := by
  unfold State.next
  split_ifs
  · rfl
  · rfl

/-- The loop answers. -/
theorem Answers.respond (hs : Answers s) {n : Nat} {id : Id} (hhand : s.loop.inHand = some (n, id))
    (body : Body) :
    Answers { s with queue := s.queue ++ [Out.response n id body], loop := s.next } := by
  have howed : s.owed n := owed_iff.2 (.inl ⟨id, hhand⟩)
  let t : State := { s with queue := s.queue ++ [Out.response n id body], loop := s.next }
  have hnone : ∀ m id', t.loop.inHand ≠ some (m, id') := by
    intro m id' h
    have h' : s.next.inHand = some (m, id') := h
    rw [inHand_next] at h'
    cases h'
  have howed' : ∀ m, t.owed m ↔ s.owed m ∧ m ≠ n := by
    intro m
    rw [owed_iff, owed_iff]
    constructor
    · rintro (⟨id', h⟩ | ⟨u, b, hb, hbline, hblive⟩)
      · exact absurd h (hnone m id')
      · refine ⟨.inr ⟨u, b, hb, hbline, hblive⟩, ?_⟩
        rw [← hbline]
        exact hs.handLine n id hhand u b hb
    · rintro ⟨⟨id', h⟩ | h, hm⟩
      · rw [hhand, Option.some.injEq, Prod.mk.injEq] at h
        exact absurd h.1.symm hm
      · exact .inr h
  obtain ⟨hownId, hanswered⟩ :=
    hs.answered_answer t howed (hs.handId n id hhand) rfl (out_queue s _) howed'
  exact
    { hs.toLines with
      handId := fun m id' h => absurd h (hnone m id')
      handLine := fun m id' h => absurd h (hnone m id')
      ownId := hownId
      answered := hanswered }

/-- The loop goes to another stage. -/
theorem Answers.goTo (hs : Answers s) {n : Nat} {id : Id} (hhand : s.loop.inHand = some (n, id))
    (stage : Stage) : Answers (s.goTo n id stage) :=
  hs.of_same rfl rfl rfl hhand.symm (fun _ => rfl) (fun _ _ _ h => h)

/-- The line that the loop has in hand becomes that of a task. -/
theorem Answers.spawn (hs : Answers s) {n : Nat} {id : Id} (hhand : s.loop.inHand = some (n, id))
    {params : ChatSendParams} {c : Uuid} {conv : Conversation} {env : Env} :
    Answers (s.spawn n id params c conv env) := by
  unfold State.spawn
  split
  · have herased : Answers { s with busy := s.busy.erase c } := { hs with }
    exact herased.goTo hhand _
  · next agent _ =>
    dsimp only
    generalize htask : Task.mk n id c conv agent (conversationHistoryToMessages conv.messages)
      params.message (s.epoch c) .spawned = task
    have hline : task.line = n := by rw [← htask]
    have hid : task.id = id := by rw [← htask]
    have hunanswered : task.stage.unanswered = true := by rw [← htask]; rfl
    have hnew : s.tasks s.turns = none := by
      by_contra h
      obtain ⟨b, hb⟩ := Option.ne_none_iff_exists'.1 h
      exact absurd (hs.turns _ b hb) (Nat.lt_irrefl _)
    let t : State := { s with
      tasks := Function.update s.tasks s.turns (some task)
      turns := s.turns + 1
      loop := s.next }
    have htasks : ∀ u b, t.tasks u = some b → (u = s.turns ∧ b = task) ∨ s.tasks u = some b := by
      intro u b hb
      simp only [t, Function.update_apply] at hb
      split_ifs at hb with hu
      · exact .inl ⟨hu, (Option.some.inj hb).symm⟩
      · exact .inr hb
    have hnone : ∀ m id', t.loop.inHand ≠ some (m, id') := by
      intro m id' h
      have h' : s.next.inHand = some (m, id') := h
      rw [inHand_next] at h'
      cases h'
    have howed : ∀ m, t.owed m ↔ s.owed m := by
      intro m
      rw [owed_iff, owed_iff]
      constructor
      · rintro (⟨id', h⟩ | ⟨u, b, hb, hbline, hblive⟩)
        · exact absurd h (hnone m id')
        · rcases htasks u b hb with ⟨-, rfl⟩ | hb
          · rw [← hbline, hline]
            exact .inl ⟨id, hhand⟩
          · exact .inr ⟨u, b, hb, hbline, hblive⟩
      · rintro (⟨id', h⟩ | ⟨u, b, hb, hbline, hblive⟩)
        · rw [hhand, Option.some.injEq, Prod.mk.injEq] at h
          exact .inr ⟨s.turns, task, by simp [t], hline.trans h.1, hunanswered⟩
        · have hu : u ≠ s.turns := by
            intro hu
            rw [hu, hnew] at hb
            cases hb
          exact .inr ⟨u, b, by simp [t, hu, hb], hbline, hblive⟩
    exact
      { turns := by
          intro u b hb
          rcases htasks u b hb with ⟨rfl, -⟩ | hb
          · exact Nat.lt_succ_self _
          · exact Nat.lt_succ_of_lt (hs.turns u b hb)
        ownLine := by
          intro u v a b ha hb hab
          rcases htasks u a ha with ⟨rfl, rfl⟩ | ha'
          · rcases htasks v b hb with ⟨rfl, -⟩ | hb'
            · rfl
            · exact absurd (hab.symm.trans hline) (hs.handLine n id hhand v b hb')
          · rcases htasks v b hb with ⟨rfl, rfl⟩ | hb'
            · exact absurd (hab.trans hline) (hs.handLine n id hhand u a ha')
            · exact hs.ownLine u v a b ha' hb' hab
        taskId := by
          intro u b hb
          rcases htasks u b hb with ⟨-, rfl⟩ | hb
          · rw [hline, hid]
            exact hs.handId n id hhand
          · exact hs.taskId u b hb
        handId := fun m id' h => absurd h (hnone m id')
        handLine := fun m id' h => absurd h (hnone m id')
        ownId := hs.ownId
        answered := by
          intro m hm
          show (_ ∧ ¬ t.owed m) ∨ (_ ∧ t.owed m)
          rw [howed]
          exact hs.answered m hm }

/-- A line is read that is not blank. -/
theorem Answers.read (hs : Answers s) (hhand : s.loop.inHand = none) (id : Id) (stage : Stage) :
    Answers ({ s with ids := s.ids ++ [id] }.goTo s.ids.length id stage) := by
  let t : State := { s with ids := s.ids ++ [id] }.goTo s.ids.length id stage
  have holder : ∀ (n : Nat) (id' : Id), s.ids[n]? = some id' → t.ids[n]? = some id' := by
    intro n id' h
    obtain ⟨hlt, -⟩ := List.getElem?_eq_some_iff.1 h
    show (s.ids ++ [id])[n]? = some id'
    rw [List.getElem?_append_left hlt]
    exact h
  have hlast : t.ids[s.ids.length]? = some id := List.getElem?_concat_length
  have hfresh : ∀ u b, s.tasks u = some b → b.line ≠ s.ids.length := by
    intro u b hb hline
    obtain ⟨hlt, -⟩ := List.getElem?_eq_some_iff.1 (hs.taskId u b hb)
    omega
  have hnow : ∀ n id', t.loop.inHand = some (n, id') → n = s.ids.length ∧ id' = id := by
    intro n id' h
    have h' : some (s.ids.length, id) = some (n, id') := h
    cases h'
    exact ⟨rfl, rfl⟩
  have howed : ∀ n, t.owed n ↔ s.owed n ∨ n = s.ids.length := by
    intro n
    rw [owed_iff, owed_iff, hhand]
    constructor
    · rintro (⟨id', h⟩ | h)
      · exact .inr (hnow n id' h).1
      · exact .inl (.inr h)
    · rintro ((⟨id', h⟩ | h) | rfl)
      · cases h
      · exact .inr h
      · exact .inl ⟨id, rfl⟩
  exact
    { hs.toLines with
      taskId := fun u b hb => holder _ _ (hs.taskId u b hb)
      handId := by
        intro n id' h
        obtain ⟨rfl, rfl⟩ := hnow n id' h
        exact hlast
      handLine := by
        intro n id' h u b hb
        obtain ⟨rfl, rfl⟩ := hnow n id' h
        exact hfresh u b hb
      ownId := fun n id' body h => holder _ _ (hs.ownId n id' body h)
      answered := by
        intro n hn
        show (_ ∧ ¬ t.owed n) ∨ (_ ∧ t.owed n)
        rw [howed]
        have hn' : n < s.ids.length + 1 := by
          have hlength : t.ids.length = s.ids.length + 1 := List.length_append
          rw [← hlength]
          exact hn
        by_cases hlt : n = s.ids.length
        · subst hlt
          refine .inr ⟨?_, .inr rfl⟩
          rw [List.countP_eq_zero]
          intro line hline hanswers
          cases line with
          | response m id' body =>
              have hm : m = s.ids.length := by simpa [Out.answers] using hanswers
              obtain ⟨hlt, -⟩ := List.getElem?_eq_some_iff.1 (hs.ownId m id' body hline)
              omega
          | event _ _ _ _ _ _ => cases hanswers
        · rcases hs.answered n (by omega) with ⟨hone, hnot⟩ | ⟨hzero, howes⟩
          · exact .inl ⟨hone, fun h => h.elim hnot hlt⟩
          · exact .inr ⟨hzero, .inl howes⟩ }

/-! ## Numbers -/

theorem pending_congr {t : State} (hdrawn : t.drawn = s.drawn) (c : Uuid) :
    t.pending c = s.pending c := by
  simp only [State.pending, hdrawn]

/-- At most a response is queued. -/
theorem Numbers.of_same (hs : Numbers s) {t : State} (htasks : t.tasks = s.tasks)
    (hdrawn : t.drawn = s.drawn) (hepoch : t.epoch = s.epoch) (hseq : t.seq = s.seq)
    (hout : t.out = s.out ∨ ∃ n id body, t.out = s.out ++ [.response n id body]) :
    Numbers t := by
  have hmem : ∀ line ∈ t.out, line ∈ s.out ∨ ∃ n id body, line = .response n id body := by
    intro line hline
    rcases hout with hout | ⟨n, id, body, hout⟩
    · exact .inl (hout ▸ hline)
    · rw [hout, List.mem_append, List.mem_singleton] at hline
      exact hline.imp_right fun h => ⟨n, id, body, h⟩
  have hnumbers : ∀ c e, t.out.filterMap (·.numberIn c e) = s.out.filterMap (·.numberIn c e) := by
    intro c e
    rcases hout with hout | ⟨n, id, body, hout⟩
    · rw [hout]
    · rw [hout, List.filterMap_append]
      simp [Out.numberIn]
  exact
    { drawn := by
        rw [hdrawn, htasks]
        exact hs.drawn
      current := by
        rw [htasks, hepoch]
        exact hs.current
      bounded := by
        intro line hline c e h
        rw [hepoch]
        rcases hmem line hline with hold | ⟨n, id, body, rfl⟩
        · exact hs.bounded line hold c e h
        · cases h
      restarts := by
        rcases hout with hout | ⟨n, id, body, hout⟩
        · rw [hout]
          exact hs.restarts
        · rw [hout, List.pairwise_append]
          refine ⟨hs.restarts, List.pairwise_singleton .., ?_⟩
          intro a _ b hb c e e' _ h
          rw [List.mem_singleton.1 hb] at h
          cases h
      ownEpoch := by
        intro line accepted epoch c seq event h
        rcases hmem _ h with hold | ⟨n, id, body, h⟩
        · exact hs.ownEpoch line accepted epoch c seq event hold
        · cases h
      numbered := by
        intro c e
        rw [hnumbers]
        exact hs.numbered c e
      next := by
        intro c
        rw [hepoch, hnumbers, pending_congr hdrawn, hseq]
        exact hs.next c }

/-- The task, which has no event in hand, goes on, and sends none unless it did before. -/
theorem Numbers.setTask (hs : Numbers s) {t : Nat} {task task' : Task}
    (ht : s.tasks t = some task) (hfree : ∀ d ∈ s.drawn, d.turn ≠ t)
    (hemits : task'.stage.emits = true → task.stage.emits = true)
    (hconv : task'.conversation = task.conversation) (hepoch : task'.epoch = task.epoch) :
    Numbers (s.setTask t task') :=
  { hs with
    drawn := by
      intro d hd
      have hne := hfree d hd
      simp only [State.setTask, Function.update_of_ne hne]
      exact hs.drawn d hd
    current := by
      intro u b hb hbemits
      simp only [State.setTask, Function.update_apply] at hb
      split_ifs at hb with hu
      · cases hb
        rw [hconv, hepoch]
        exact hs.current t task ht (hemits hbemits)
      · exact hs.current u b hb hbemits }

/-- A task that is not running has no event in hand. -/
theorem Numbers.not_drawn (hs : Numbers s) {t : Nat} {task : Task} (ht : s.tasks t = some task)
    (hstage : task.stage ≠ .running) : ∀ d ∈ s.drawn, d.turn ≠ t := by
  intro d hd hturn
  obtain ⟨task', htask', hrunning, -⟩ := hs.drawn d hd
  rw [hturn, ht, Option.some.injEq] at htask'
  rw [← htask'] at hrunning
  exact hstage hrunning

/-- A task is added, in the epoch of its conversation. -/
theorem Numbers.addTask (hs : Numbers s) {t : Nat} {task : Task} (hnew : s.tasks t = none)
    (hepoch : task.epoch = s.epoch task.conversation) (turns : Nat) (loop : Loop) :
    Numbers { s with tasks := Function.update s.tasks t (some task), turns, loop } :=
  { hs with
    drawn := by
      intro d hd
      obtain ⟨task', htask', hrest⟩ := hs.drawn d hd
      have hne : d.turn ≠ t := by
        intro hturn
        rw [hturn, hnew] at htask'
        cases htask'
      exact ⟨task', by simp only [Function.update_of_ne hne, htask'], hrest⟩
    current := by
      intro u b hb hbemits
      simp only [Function.update_apply] at hb
      split_ifs at hb with hu
      · cases hb
        exact hepoch
      · exact hs.current u b hb hbemits }

/-- Counters are reset, of conversations of which no turn runs. -/
theorem Numbers.reset (hs : Numbers s) {t : State} (htasks : t.tasks = s.tasks)
    (hdrawn : t.drawn = s.drawn) (hout : t.out = s.out)
    (hreset : ∀ c, (t.epoch c = s.epoch c ∧ t.seq c = s.seq c) ∨
      (t.epoch c = s.epoch c + 1 ∧ t.seq c = 0 ∧
        ∀ u task, s.tasks u = some task → task.conversation = c → task.stage.emits = false)) :
    Numbers t where
  drawn := by
    rw [hdrawn, htasks]
    exact hs.drawn
  current := by
    intro u task ht hemits
    rw [htasks] at ht
    rcases hreset task.conversation with ⟨hepoch, -⟩ | ⟨-, -, hquiet⟩
    · rw [hepoch]
      exact hs.current u task ht hemits
    · rw [hquiet u task ht rfl] at hemits
      cases hemits
  bounded := by
    intro line hline c e h
    have hle := hs.bounded line (hout ▸ hline) c e h
    rcases hreset c with ⟨hepoch, -⟩ | ⟨hepoch, -⟩
    · omega
    · omega
  restarts := by
    rw [hout]
    exact hs.restarts
  ownEpoch := by
    rw [hout]
    exact hs.ownEpoch
  numbered := by
    rw [hout]
    exact hs.numbered
  next := by
    intro c
    rw [hout, pending_congr hdrawn]
    rcases hreset c with ⟨hepoch, hseq⟩ | ⟨hepoch, hseq, hquiet⟩
    · rw [hepoch, hseq]
      exact hs.next c
    · have hnone : s.out.filterMap (·.numberIn c (s.epoch c + 1)) = [] := by
        rw [List.filterMap_eq_nil_iff]
        intro line hline
        cases line with
        | response _ _ _ => rfl
        | event n accepted epoch c' seq event =>
            simp only [Out.numberIn, ite_eq_right_iff, reduceCtorEq, imp_false]
            rintro ⟨hc, he⟩
            have hle := hs.bounded _ hline c epoch (by simp [Out.sentIn, hc])
            omega
      have hempty : s.pending c = [] := by
        simp only [State.pending, List.map_eq_nil_iff, List.filter_eq_nil_iff, decide_eq_true_eq]
        intro d hd hc
        obtain ⟨task, ht, hrunning, -, hconv, -⟩ := hs.drawn d hd
        have hemits := hquiet d.turn task ht (hconv.trans hc)
        rw [hrunning] at hemits
        cases hemits
      rw [hepoch, hseq, hnone, hempty]
      exact ⟨0, rfl, rfl, rfl⟩

/-- A number is drawn. -/
theorem Numbers.draw (hs : Numbers s) {t : Nat} {task : Task} (ht : s.tasks t = some task)
    (hrunning : task.stage = .running) (hseq : s.seq task.conversation + 1 < UInt64.size)
    (event : ChatEvent) : Numbers (s.draw t task event) := by
  have hpending : ∀ c, (s.draw t task event).pending c =
      s.pending c ++ if task.conversation = c then [s.seq task.conversation] else [] := by
    intro c
    simp only [State.pending, State.draw, List.filter_append, List.map_append]
    split_ifs with hc
    · simp [hc]
    · simp [hc]
  exact
    { hs with
      drawn := by
        intro d hd
        rcases List.mem_append.1 hd with hd | hd
        · exact hs.drawn d hd
        · rw [List.mem_singleton.1 hd]
          exact ⟨task, ht, hrunning, rfl, rfl, rfl⟩
      next := by
        intro c
        obtain ⟨k, hsent, hwaiting, hcount⟩ := hs.next c
        refine ⟨k, hsent, ?_⟩
        rw [hpending]
        show _ ∧ _ = Function.update s.seq task.conversation _ c
        by_cases hc : task.conversation = c
        · subst hc
          rw [if_pos rfl, Function.update_self, Nat.mod_eq_of_lt hseq, List.length_append]
          refine ⟨?_, ?_⟩
          · rw [List.length_singleton, ← List.range'_append_1, ← hwaiting, hcount]
            rfl
          · rw [List.length_singleton]
            omega
        · rw [if_neg hc, List.append_nil, Function.update_of_ne (Ne.symm hc)]
          exact ⟨hwaiting, hcount⟩ }

/-- The first entry of its kind is taken out of a list. -/
theorem filter_eraseIdx {α : Type*} {p : α → Bool} {l : List α} {i : Nat} {a : α}
    (hget : l[i]? = some a) (ha : p a = true) (hfirst : ∀ b ∈ l.take i, p b = false) :
    l.filter p = a :: (l.eraseIdx i).filter p := by
  obtain ⟨hlt, rfl⟩ := List.getElem?_eq_some_iff.1 hget
  have hnone : (l.take i).filter p = [] := by
    rw [List.filter_eq_nil_iff]
    intro b hb
    simp [hfirst b hb]
  have hsplit : l = l.take i ++ l[i] :: l.drop (i + 1) := by
    rw [List.getElem_cons_drop, List.take_append_drop]
  rw [List.eraseIdx_eq_take_drop_succ, List.filter_append, hnone, List.nil_append]
  conv_lhs => rw [hsplit]
  rw [List.filter_append, hnone, List.nil_append, List.filter_cons_of_pos ha]

/-- An entry of another kind is taken out of a list. -/
theorem filter_eraseIdx_of_neg {α : Type*} {p : α → Bool} {l : List α} {i : Nat} {a : α}
    (hget : l[i]? = some a) (ha : p a = false) : (l.eraseIdx i).filter p = l.filter p := by
  obtain ⟨hlt, rfl⟩ := List.getElem?_eq_some_iff.1 hget
  have hsplit : l = l.take i ++ l[i] :: l.drop (i + 1) := by
    rw [List.getElem_cons_drop, List.take_append_drop]
  conv_rhs => rw [hsplit]
  rw [List.eraseIdx_eq_take_drop_succ, List.filter_append, List.filter_append,
    List.filter_cons_of_neg (by simp [ha])]

/-- The first number of its conversation that waits is sent. -/
theorem Numbers.send (hs : Numbers s) {i : Nat} {d : Drawn} (hd : s.drawn[i]? = some d)
    (hfirst : ∀ e ∈ s.drawn.take i, e.conversation ≠ d.conversation) :
    Numbers { s with
      drawn := s.drawn.eraseIdx i
      queue := s.queue ++ [Out.event d.line d.accepted (s.epoch d.conversation) d.conversation
        d.seq d.event] } := by
  let line := Out.event d.line d.accepted (s.epoch d.conversation) d.conversation d.seq d.event
  let t : State := { s with drawn := s.drawn.eraseIdx i, queue := s.queue ++ [line] }
  have hmem : d ∈ s.drawn := List.mem_of_getElem? hd
  have hout : t.out = s.out ++ [line] := out_queue s line
  have hsent : ∀ c e, line.sentIn c = some e → d.conversation = c ∧ s.epoch c = e := by
    intro c e h
    simp only [line, Out.sentIn, Option.ite_none_right_eq_some, Option.some.injEq] at h
    exact ⟨h.1, h.1 ▸ h.2⟩
  -- the number is the next one of its conversation
  have hnext : ∀ c, d.conversation = c → ∃ k, s.out.filterMap (·.numberIn c (s.epoch c)) =
      List.range k ∧ d.seq = k ∧ t.pending c = List.range' (k + 1) (t.pending c).length ∧
      k + 1 + (t.pending c).length = s.seq c := by
    intro c hc
    obtain ⟨k, hnumbers, hwaiting, hcount⟩ := hs.next c
    have hpending : s.pending c = d.seq :: t.pending c := by
      simp only [State.pending, t]
      rw [filter_eraseIdx hd (by simp [hc]), List.map_cons]
      intro e he
      have hne := hfirst e he
      simp [← hc, hne]
    rw [hpending, List.length_cons, List.range'_succ, List.cons.injEq] at hwaiting
    rw [hpending, List.length_cons] at hcount
    exact ⟨k, hnumbers, hwaiting.1, hwaiting.2, by omega⟩
  have hnumber : ∀ c e, [line].filterMap (·.numberIn c e) =
      if d.conversation = c ∧ s.epoch d.conversation = e then [d.seq] else [] := by
    intro c e
    simp only [line, Out.numberIn, List.filterMap_cons, List.filterMap_nil]
    split_ifs
    · rfl
    · rfl
  exact
    { drawn := by
        intro d' hd'
        exact hs.drawn d' (List.mem_of_mem_eraseIdx hd')
      current := hs.current
      bounded := by
        intro line' hline c e h
        have hline' : line' ∈ t.out := hline
        rw [hout, List.mem_append, List.mem_singleton] at hline'
        rcases hline' with hold | rfl
        · exact hs.bounded line' hold c e h
        · exact Nat.le_of_eq (hsent c e h).2.symm
      restarts := by
        show t.out.Pairwise _
        rw [hout, List.pairwise_append]
        refine ⟨hs.restarts, List.pairwise_singleton .., ?_⟩
        intro a ha b hb c e e' hea heb
        rw [List.mem_singleton.1 hb] at heb
        have hle := hs.bounded a ha c e hea
        have heq := (hsent c e' heb).2
        omega
      ownEpoch := by
        intro n accepted epoch c seq event h
        have h' : Out.event n accepted epoch c seq event ∈ t.out := h
        rw [hout, List.mem_append, List.mem_singleton] at h'
        rcases h' with hold | hnew
        · exact hs.ownEpoch n accepted epoch c seq event hold
        · simp only [line, Out.event.injEq] at hnew
          obtain ⟨-, rfl, rfl, -⟩ := hnew
          obtain ⟨task, ht, hrunning, -, hconv, haccepted⟩ := hs.drawn d hmem
          rw [← haccepted, ← hconv]
          exact hs.current d.turn task ht (by rw [hrunning]; rfl)
      numbered := by
        intro c e
        show ∃ k, t.out.filterMap (·.numberIn c e) = List.range k
        rw [hout, List.filterMap_append, hnumber]
        split_ifs with h
        · obtain ⟨rfl, rfl⟩ := h
          obtain ⟨k, hnumbers, hseq, -⟩ := hnext d.conversation rfl
          exact ⟨k + 1, by rw [hnumbers, hseq, List.range_succ]⟩
        · rw [List.append_nil]
          exact hs.numbered c e
      next := by
        intro c
        show ∃ k, t.out.filterMap (·.numberIn c (s.epoch c)) = List.range k ∧
          t.pending c = List.range' k (t.pending c).length ∧ k + (t.pending c).length = s.seq c
        rw [hout, List.filterMap_append, hnumber]
        by_cases hc : d.conversation = c
        · obtain ⟨k, hnumbers, hseq, hwaiting, hcount⟩ := hnext c hc
          refine ⟨k + 1, ?_, hwaiting, hcount⟩
          rw [if_pos ⟨hc, by rw [hc]⟩, hnumbers, hseq, List.range_succ]
        · have hpending : t.pending c = s.pending c := by
            simp only [State.pending, t]
            rw [filter_eraseIdx_of_neg hd (by simp [hc])]
          rw [if_neg (fun h => hc h.1), List.append_nil, hpending]
          exact hs.next c }

/-! ## Steps -/

/-- A response is queued. -/
theorem eventsFirst_response (h : s.out.Pairwise fun a b => ∀ n, a.answers n = true →
    b.notifies n = false) {t : State} {n : Nat} {id : Id} {body : Body}
    (hout : t.out = s.out ++ [.response n id body]) :
    t.out.Pairwise fun a b => ∀ n, a.answers n = true → b.notifies n = false := by
  rw [hout, List.pairwise_append]
  refine ⟨h, List.pairwise_singleton .., ?_⟩
  intro a _ b hb m _
  rw [List.mem_singleton.1 hb]
  rfl

/-- The handler goes on, with what the lines and numbers do not depend on. -/
theorem WireInv.goTo (hs : WireInv s) {n : Nat} {id : Id} (hhand : s.loop.inHand = some (n, id))
    (stage : Stage) : WireInv (s.goTo n id stage) :=
  { hs.toAnswers.goTo hhand stage, hs.toNumbers.of_same rfl rfl rfl rfl (.inl rfl) with
    eventsFirst := hs.eventsFirst }

theorem wireInv_handle (hs : WireInv s) {n : Nat} {id : Id}
    (hhand : s.loop.inHand = some (n, id)) {env : Env} {method : Method} {t : State}
    (h : s.handle n id env method = some t) : WireInv t := by
  unfold State.handle at h
  split at h
  · cases h
    exact hs.goTo hhand _
  · cases h
    exact hs.goTo hhand _
  · cases h
    have hshutdown : WireInv { s with shutdownRequested := true } := { hs with }
    exact hshutdown.goTo hhand _
  · cases h
    exact hs.goTo hhand _
  · unfold State.handleConversationsCreate at h
    split at h
    · cases h
      exact hs.goTo hhand _
    · split_ifs at h
      dsimp only at h
      have hsaved : ∀ files base stage, WireInv ({ s with files, base }.goTo n id stage) := by
        intro files base stage
        have hfiles : WireInv { s with files, base } := { hs with }
        exact hfiles.goTo hhand stage
      split at h
      · cases h
        exact hsaved _ _ _
      · cases h
        exact hsaved _ s.base _
  · cases h
    unfold State.handleConversationsDelete
    split
    · exact hs.goTo hhand _
    · exact hs.goTo hhand _
    · next c =>
      split_ifs
      · exact hs.goTo hhand _
      · have hremoved : WireInv { s with
            files := Function.update s.files c none
            deleted := Function.update s.deleted c true } := { hs with }
        exact hremoved.goTo hhand _
  · cases h
    exact hs.goTo hhand _
  · cases h
    exact hs.goTo hhand _
  · cases h
    exact hs.goTo hhand _
  · cases h
    exact hs.goTo hhand _

/-- In a quiet state no task that passes the test may send events. -/
theorem Lines.quiet (hs : Lines s) {test : Task → Bool} (hquiet : s.quiet test = true) {t : Nat}
    {task : Task} (ht : s.tasks t = some task) (htest : test task = true) :
    task.stage.emits = false := by
  have h := List.all_eq_true.1 hquiet t (List.mem_range.2 (hs.turns t task ht))
  simpa [ht, htest] using h

theorem wireInv_spawn (hs : WireInv s) {n : Nat} {id : Id} (hhand : s.loop.inHand = some (n, id))
    {params : ChatSendParams} {c : Uuid} {conv : Conversation} {env : Env} :
    WireInv (s.spawn n id params c conv env) := by
  have hanswers : Answers (s.spawn n id params c conv env) := hs.toAnswers.spawn hhand
  have hnew : s.tasks s.turns = none := by
    by_contra h
    obtain ⟨b, hb⟩ := Option.ne_none_iff_exists'.1 h
    exact absurd (hs.turns _ b hb) (Nat.lt_irrefl _)
  have hnumbers : Numbers (s.spawn n id params c conv env) ∧
      (s.spawn n id params c conv env).out = s.out := by
    unfold State.spawn
    split
    · exact ⟨hs.toNumbers.of_same rfl rfl rfl rfl (.inl rfl), rfl⟩
    · exact ⟨hs.toNumbers.addTask hnew rfl _ _, rfl⟩
  exact
    { hanswers, hnumbers.1 with
      eventsFirst := by
        rw [hnumbers.2]
        exact hs.eventsFirst }

theorem wireInv_advance (hs : WireInv s) {n : Nat} {id : Id} {stage : Stage}
    (hloop : s.loop = .handling n id stage) {env : Env} (hok : Tidy s (.advance env)) {t : State}
    (h : s.advance n id env stage = some t) : WireInv t := by
  have hhand : s.loop.inHand = some (n, id) := by rw [hloop]; rfl
  cases stage with
  | handle method => exact wireInv_handle hs hhand h
  | clearBusy result =>
      cases h
      have hcleared : WireInv { s with
          initialized := true
          shutdownRequested := false
          busy := ∅ } := { hs with }
      exact hcleared.goTo hhand _
  | clearSeq result =>
      cases h
      simp only [Tidy, hloop] at hok
      have hreset : Numbers { s with seq := fun _ => 0, epoch := fun c => s.epoch c + 1 } :=
        hs.toNumbers.reset rfl rfl rfl fun c =>
          .inr ⟨rfl, rfl, fun u task ht _ => hs.toLines.quiet hok ht rfl⟩
      have hcleared : WireInv { s with seq := fun _ => 0, epoch := fun c => s.epoch c + 1 } :=
        { hs.toAnswers, hreset with eventsFirst := hs.eventsFirst }
      exact hcleared.goTo hhand _
  | purgeSeq c =>
      cases h
      simp only [Tidy, hloop] at hok
      have hreset : Numbers { s with
          seq := Function.update s.seq c 0
          epoch := Function.update s.epoch c (s.epoch c + 1) } := by
        refine hs.toNumbers.reset rfl rfl rfl fun c' => ?_
        by_cases hc : c' = c
        · subst hc
          refine .inr ⟨Function.update_self .., Function.update_self .., ?_⟩
          intro u task ht hconv
          exact hs.toLines.quiet hok ht (by simp [hconv])
        · exact .inl ⟨Function.update_of_ne hc .., Function.update_of_ne hc ..⟩
      have hpurged : WireInv { s with
          seq := Function.update s.seq c 0
          epoch := Function.update s.epoch c (s.epoch c + 1) } :=
        { hs.toAnswers, hreset with eventsFirst := hs.eventsFirst }
      exact hpurged.goTo hhand _
  | purgeBusy c =>
      cases h
      have hpurged : WireInv { s with busy := s.busy.erase c } := { hs with }
      exact hpurged.goTo hhand _
  | lock params c conv =>
      cases h
      unfold State.lockBusy
      split_ifs
      · have hrefused : WireInv { s with refusals := s.refusals ++ [(c, s.unanswered c)] } :=
          { hs with }
        exact hrefused.goTo hhand _
      · have hmarked : WireInv { s with busy := insert c s.busy } := { hs with }
        exact hmarked.goTo hhand _
  | resolve params c conv =>
      cases h
      exact wireInv_spawn hs hhand
  | respond body =>
      cases h
      have hout : ({ s with queue := s.queue ++ [Out.response n id body], loop := s.next } :
          State).out = s.out ++ [.response n id body] := out_queue s _
      have hanswers := hs.toAnswers.respond hhand body
      have hnumbers : Numbers { s with
          queue := s.queue ++ [Out.response n id body]
          loop := s.next } :=
        hs.toNumbers.of_same rfl rfl rfl rfl (.inr ⟨n, id, body, hout⟩)
      exact
        { hanswers, hnumbers with
          eventsFirst := eventsFirst_response hs.eventsFirst hout }

/-- A task goes on that has no event in hand, and files are written. -/
theorem WireInv.save (hs : WireInv s) {t : Nat} {task : Task} (ht : s.tasks t = some task)
    (conv : Conversation) (stage : TaskStage) (files : Files)
    (hunanswered : stage.unanswered = task.stage.unanswered)
    (hfree : ∀ d ∈ s.drawn, d.turn ≠ t) (hemits : stage.emits = true → task.stage.emits = true) :
    WireInv ({ s with files }.setTask t { task with conv, stage }) := by
  have hfiles : WireInv { s with files } := { hs with }
  have hanswers : Answers ({ s with files }.setTask t { task with conv, stage }) :=
    hfiles.toAnswers.setTask ht rfl rfl hunanswered
  have hnumbers : Numbers ({ s with files }.setTask t { task with conv, stage }) :=
    hfiles.toNumbers.setTask ht hfree hemits rfl rfl
  exact { hanswers, hnumbers with eventsFirst := hs.eventsFirst }

/-- An event is queued; its turn is running, so the line that asked for it is still owed. -/
theorem wireInv_send (hs : WireInv s) {i : Nat} {d : Drawn} (hd : s.drawn[i]? = some d)
    (hfirst : ∀ e ∈ s.drawn.take i, e.conversation ≠ d.conversation) :
    WireInv { s with
      drawn := s.drawn.eraseIdx i
      queue := s.queue ++ [Out.event d.line d.accepted (s.epoch d.conversation) d.conversation
        d.seq d.event] } := by
  let line := Out.event d.line d.accepted (s.epoch d.conversation) d.conversation d.seq d.event
  let t : State := { s with drawn := s.drawn.eraseIdx i, queue := s.queue ++ [line] }
  have hout : t.out = s.out ++ [line] := out_queue s line
  have hnumbers : Numbers t := hs.toNumbers.send hd hfirst
  have hanswers : Answers t := by
    refine hs.toAnswers.of_same rfl rfl rfl rfl ?_ ?_
    · intro n
      rw [hout, List.countP_append]
      rfl
    · intro n id body h
      rw [hout, List.mem_append, List.mem_singleton] at h
      rcases h with h | h
      · exact h
      · exact absurd h (by simp [line])
  have hzero : s.out.countP (·.answers d.line) = 0 := by
    obtain ⟨task, ht, hrunning, hline, -⟩ := hs.drawn d (List.mem_of_getElem? hd)
    have howed : s.owed d.line := .inr ⟨d.turn, task, ht, hline, by rw [hrunning]; rfl⟩
    obtain ⟨hlt, -⟩ := List.getElem?_eq_some_iff.1 (hline ▸ hs.taskId d.turn task ht)
    rcases hs.answered d.line hlt with ⟨-, hnot⟩ | ⟨hzero, -⟩
    · exact absurd howed hnot
    · exact hzero
  exact
    { hanswers, hnumbers with
      eventsFirst := by
        show t.out.Pairwise _
        rw [hout, List.pairwise_append]
        refine ⟨hs.eventsFirst, List.pairwise_singleton .., ?_⟩
        intro a ha b hb n hanswered
        rw [List.mem_singleton.1 hb]
        simp only [line, Out.notifies, decide_eq_false_iff_not]
        rintro rfl
        exact List.countP_eq_zero.1 hzero a ha hanswered }

/-! ## Runs -/

theorem wireInv_step {t : State} {a : Label} (hs : WireInv s) (hok : Tidy s a)
    (h : step s a = some t) : WireInv t := by
  cases a with
  | read line =>
      simp only [step] at h
      split at h
      · next hloop =>
        cases h
        have hhand : s.loop.inHand = none := by rw [hloop]; rfl
        have hread : ∀ id stage,
            WireInv ({ s with ids := s.ids ++ [id] }.goTo s.ids.length id stage) := fun id stage =>
          { hs.toAnswers.read hhand id stage, hs.toNumbers.of_same rfl rfl rfl rfl (.inl rfl) with
            eventsFirst := hs.eventsFirst }
        cases line with
        | blank => exact hs
        | notARequest => exact hread none _
        | request id method => exact hread id _
      · cases h
  | eof =>
      simp only [step] at h
      split at h
      · next hloop =>
        cases h
        have hhand : Loop.stopped.inHand = s.loop.inHand := by rw [hloop]; rfl
        have hanswers : Answers { s with loop := .stopped } :=
          hs.toAnswers.of_same rfl rfl rfl hhand (fun _ => rfl) (fun _ _ _ h => h)
        exact
          { hanswers, hs.toNumbers.of_same rfl rfl rfl rfl (.inl rfl) with
            eventsFirst := hs.eventsFirst }
      · cases h
  | advance env =>
      simp only [step] at h
      split at h
      · next line id stage hloop => exact wireInv_advance hs hloop hok h
      · cases h
  | saveMessage turn disk =>
      obtain ⟨task, ht, h⟩ := Option.bind_eq_some_iff.1 h
      split at h
      · next hstage =>
        cases h
        have hemits : task.stage.emits = true := by rw [hstage]; rfl
        have hfree := hs.toNumbers.not_drawn ht (by rw [hstage]; simp)
        exact hs.save ht _ .running _ (by rw [hstage]; rfl) hfree (fun _ => hemits)
      · cases h
  | draw turn event =>
      obtain ⟨task, ht, h⟩ := Option.bind_eq_some_iff.1 h
      split at h
      · next hstage =>
        cases h
        have hseq : s.seq task.conversation + 1 < UInt64.size := by
          simpa [Tidy, ht] using hok
        have hanswers : Answers (s.draw turn task event) :=
          hs.toAnswers.of_same rfl rfl rfl rfl (fun _ => rfl) (fun _ _ _ h => h)
        exact
          { hanswers, hs.toNumbers.draw ht hstage hseq event with
            eventsFirst := hs.eventsFirst }
      · cases h
  | send i =>
      simp only [step] at h
      split at h
      · next d hd =>
        cases h
        have hfirst : ∀ e ∈ s.drawn.take i, e.conversation ≠ d.conversation := by
          simpa [Tidy, hd] using hok
        exact wireInv_send hs hd hfirst
      · cases h
  | finish turn result =>
      obtain ⟨task, ht, h⟩ := Option.bind_eq_some_iff.1 h
      split at h
      · next hstage =>
        split_ifs at h with hall
        cases h
        have hfree : ∀ d ∈ s.drawn, d.turn ≠ turn := by simpa using hall
        have hgoes : ∀ stage : TaskStage, stage.unanswered = true → stage.emits = false →
            WireInv (s.setTask turn { task with stage }) := by
          intro stage hunanswered hemits
          have hno : stage.emits = true → task.stage.emits = true := by simp [hemits]
          have hsame : stage.unanswered = task.stage.unanswered := by
            rw [hstage, hunanswered]
            rfl
          exact hs.save ht task.conv stage s.files hsame hfree hno
        cases result with
        | ok result => exact hgoes _ rfl rfl
        | error e => exact hgoes _ rfl rfl
      · cases h
  | saveAnswer turn disk =>
      obtain ⟨task, ht, h⟩ := Option.bind_eq_some_iff.1 h
      split at h
      · next result hstage =>
        cases h
        have hfree := hs.toNumbers.not_drawn ht (by rw [hstage]; simp)
        exact hs.save ht _ (.answering (.ok result)) _ (by rw [hstage]; rfl) hfree
          (by simp [TaskStage.emits])
      · cases h
  | respond turn =>
      obtain ⟨task, ht, h⟩ := Option.bind_eq_some_iff.1 h
      split at h
      · next result hstage =>
        cases h
        have hfree := hs.toNumbers.not_drawn ht (by rw [hstage]; simp)
        have hout : (s.sendResponse turn task result).out =
            s.out ++ [.response task.line task.id (State.turnBody result)] := out_queue s _
        have hqueued : Numbers { s with
            queue := s.queue ++ [Out.response task.line task.id (State.turnBody result)] } :=
          hs.toNumbers.of_same rfl rfl rfl rfl (.inr ⟨_, _, _, hout⟩)
        have hanswers := hs.toAnswers.sendResponse ht (by rw [hstage]; rfl) result
        have hnumbers : Numbers (s.sendResponse turn task result) :=
          hqueued.setTask ht hfree (by simp [TaskStage.emits]) rfl rfl
        exact
          { hanswers, hnumbers with
            eventsFirst := eventsFirst_response hs.eventsFirst hout }
      · cases h
  | release turn =>
      obtain ⟨task, ht, h⟩ := Option.bind_eq_some_iff.1 h
      split at h
      · next result hstage =>
        cases h
        have hfree := hs.toNumbers.not_drawn ht (by rw [hstage]; simp)
        have hreleased : WireInv { s with busy := s.busy.erase task.conversation } := { hs with }
        exact hreleased.save ht task.conv (.ended (some result)) s.files (by rw [hstage]; rfl) hfree
          (by simp [TaskStage.emits])
      · cases h
  | panic turn => exact absurd hok id
  | write =>
      simp only [step] at h
      split at h
      · next line rest hqueue =>
        cases h
        have hout : ({ s with queue := rest, wire := s.wire ++ [line] } : State).out = s.out := by
          simp [State.out, hqueue]
        have hanswers : Answers { s with queue := rest, wire := s.wire ++ [line] } :=
          hs.toAnswers.of_same rfl rfl rfl rfl (fun _ => by rw [hout]) (fun _ _ _ h => hout ▸ h)
        have hnumbers : Numbers { s with queue := rest, wire := s.wire ++ [line] } :=
          hs.toNumbers.of_same rfl rfl rfl rfl (.inl hout)
        exact
          { hanswers, hnumbers with
            eventsFirst := by
              rw [hout]
              exact hs.eventsFirst }
      · cases h
  | exit =>
      simp only [step] at h
      split at h
      · split_ifs at h
        cases h
        exact { hs with }
      · cases h

/-- At the exit nobody owes an answer. -/
theorem atExit (hs : WireInv s) {t : State} (h : step s .exit = some t) {n : Nat}
    (hn : n < s.ids.length) : s.wire.countP (·.answers n) = 1 := by
  simp only [step] at h
  split at h
  · next hloop =>
    split_ifs at h with hidle
    simp only [Bool.and_eq_true, List.isEmpty_iff] at hidle
    obtain ⟨⟨hended, -⟩, hqueue⟩ := hidle
    have hnot : ¬ s.owed n := by
      rw [owed_iff, hloop]
      rintro (⟨id, hhand⟩ | ⟨u, b, hb, -, hunanswered⟩)
      · cases hhand
      · have hlive := List.all_eq_true.1 hended u (List.mem_range.2 (hs.turns u b hb))
        cases hstage : b.stage with
        | ended result =>
            rw [hstage] at hunanswered
            cases hunanswered
        | _ => simp [hb, hstage, TaskStage.live] at hlive
    have hout : s.out = s.wire := by simp [State.out, hqueue]
    rcases hs.answered n hn with ⟨hone, -⟩ | ⟨-, howed⟩
    · exact hout ▸ hone
    · exact absurd howed hnot
  · cases h

/-- In every run in which the counters are reset while no turn runs, the events are queued
in the order of their numbers and no turn panics, the wire is disciplined. -/
theorem disciplined_of_run {store : Store} {as : List Label}
    (h : Run step Tidy (State.init store) as s) : Disciplined s := by
  have hs : WireInv s := h.invariant (wireInv_init store) fun _ _ _ hs hok hstep =>
    wireInv_step hs hok hstep
  exact
    { answered := hs.answered
      atExit := fun _ hexit _ hn => atExit hs hexit hn
      ownId := hs.ownId
      eventsFirst := hs.eventsFirst
      numbered := hs.numbered
      restarts := hs.restarts
      ownEpoch := hs.ownEpoch }

/-! ## Lines that break the rules -/

def word (text : String) : ChatEvent := .token text.toList

/-- Two sub-tasks of a turn draw their numbers and send in the other order. -/
def overtaken : List Label :=
  start ++ chatSend "q" 3 ++
    [.saveMessage 0 .saved, .draw 0 (word "a"), .draw 0 (word "b"), .send 1, .send 0]

def outOfOrder (s : State) : Bool := s.out.filterMap (·.numberIn 0 1) == [1, 0]

/-- A turn goes on after a second `initialize`. -/
def emitsOn : List Label :=
  start ++ chatSend "q" 3 ++ [.saveMessage 0 .saved] ++ start ++ [.draw 0 (word "a"), .send 0]

def earlierTurn (s : State) : Bool :=
  s.out.any fun line =>
    match line with
    | .event _ accepted epoch _ _ _ => accepted != epoch
    | .response _ _ _ => false

/-- A turn panics, and the server ends. -/
def dies : List Label :=
  start ++ chatSend "q" 3 ++ [.saveMessage 0 .saved, .panic 0, .eof, .write]

def silent (s : State) : Bool :=
  s.ids.length == 2 && s.wire.countP (·.answers 1) == 0 && (step s .exit).isSome

theorem not_disciplined_of_outOfOrder (h : outOfOrder s = true) : ¬ Disciplined s := by
  intro hs
  obtain ⟨k, hk⟩ := hs.numbered 0 1
  rw [beq_iff_eq.1 h] at hk
  have hlength : 2 = k := by simpa using congrArg List.length hk
  subst hlength
  exact absurd hk (by decide)

theorem not_disciplined_of_earlierTurn (h : earlierTurn s = true) : ¬ Disciplined s := by
  intro hs
  obtain ⟨line, hline, hearlier⟩ := List.any_eq_true.1 h
  split at hearlier
  · exact absurd (hs.ownEpoch _ _ _ _ _ _ hline) (by simpa using hearlier)
  · cases hearlier

theorem not_disciplined_of_silent (h : silent s = true) : ¬ Disciplined s := by
  intro hs
  simp only [silent, Bool.and_eq_true, beq_iff_eq] at h
  obtain ⟨⟨hids, hzero⟩, hexit⟩ := h
  obtain ⟨t, ht⟩ := Option.isSome_iff_exists.1 hexit
  have hone := hs.atExit t ht 1 (by omega)
  omega

theorem exists_undisciplined {as : List Label} (test : State → Bool)
    (h : (exec step free (State.init oneConversation) as).any test = true)
    (hnot : ∀ s, test s = true → ¬ Disciplined s) :
    ∃ s, Run step free (State.init oneConversation) as s ∧ test s = true ∧ ¬ Disciplined s := by
  obtain ⟨s, hrun, hs⟩ := Run.exists_of_exec test h
  exact ⟨s, hrun, hs, hnot s hs⟩

/-- Two events are queued in the other order, an event of an earlier turn comes after the
restart, and the server ends with a line that is not answered. -/
theorem events_out_of_order :
    (∃ s, Run step free (State.init oneConversation) overtaken s ∧ outOfOrder s = true ∧
      ¬ Disciplined s) ∧
    (∃ s, Run step free (State.init oneConversation) emitsOn s ∧ earlierTurn s = true ∧
      ¬ Disciplined s) ∧
    ∃ s, Run step free (State.init oneConversation) dies s ∧ silent s = true ∧ ¬ Disciplined s :=
  ⟨exists_undisciplined outOfOrder (by decide) fun _ => not_disciplined_of_outOfOrder,
    exists_undisciplined earlierTurn (by decide) fun _ => not_disciplined_of_earlierTurn,
    exists_undisciplined silent (by decide) fun _ => not_disciplined_of_silent⟩

instance (s : State) (a : Label) : Decidable (Tidy s a) :=
  match a with
  | .advance env =>
    match h : s.loop with
    | .handling _ _ (.clearSeq _) =>
      decidable_of_iff (s.quiet (fun _ => true) = true) (by simp only [Tidy, h])
    | .handling _ _ (.purgeSeq c) =>
      decidable_of_iff (s.quiet (fun task => task.conversation = c) = true)
        (by simp only [Tidy, h])
    | .handling _ _ (.handle _) | .handling _ _ (.clearBusy _) | .handling _ _ (.purgeBusy _)
    | .handling _ _ (.lock _ _ _) | .handling _ _ (.resolve _ _ _) | .handling _ _ (.respond _)
    | .waiting | .stopped => isTrue (by simp only [Tidy, h])
  | .draw _ _ | .send _ => inferInstanceAs (Decidable (_ = _))
  | .panic _ => isFalse id
  | .read _ | .eof | .saveMessage _ _ | .finish _ _ | .saveAnswer _ _ | .respond _ | .release _
  | .write | .exit => isTrue trivial

/-- A turn with two events, a delete, and the end of the input. -/
def tidied : List Label :=
  start ++ chatSend "q" 3 ++
    [.saveMessage 0 .saved, .draw 0 (word "a"), .draw 0 (word "b"), .send 0, .send 0,
      .finish 0 (.ok ⟨"A".toList, []⟩)] ++
    answer 0 ++ delete ++ [.read .notARequest, .advance {}, .eof] ++ List.replicate 6 .write

def numbersInOrder (s : State) : Bool :=
  s.wire.filterMap (·.numberIn 0 1) == [0, 1] && (step s .exit).isSome

theorem disciplined_tidied : ∃ s, Run step Tidy (State.init oneConversation) tidied s ∧
    numbersInOrder s = true ∧ Disciplined s := by
  obtain ⟨s, hrun, hs⟩ := Run.exists_of_exec numbersInOrder
    (show (exec step Tidy (State.init oneConversation) tidied).any _ = true by decide)
  exact ⟨s, hrun, hs, disciplined_of_run hrun⟩

end Vanyline.Cli.Rpc
