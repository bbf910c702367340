import Vanyline.Cli.Rpc

/-!
# The conversations of the RPC server

A `chat/send` loads the conversation, takes the mark in `busy`, and its task writes the
whole file twice, from the copy that was loaded.

`NothingLost` says that a conversation has one turn at a time, that its file holds the
messages of all its turns in order, that a deleted conversation does not come back, and
that a request is refused as busy only while a turn is on its way.

The copy is loaded before the mark is taken, so the turn before may write its answer and
release its mark in between, and that answer is overwritten (`answer_is_overwritten`).
`initialize` and `conversations/delete` clear marks while tasks go on, and a task sends
its response before it releases its mark.  `nothingLost_of_run` holds when none of this
happens and the disk takes what is written (`Careful`).
-/

namespace Vanyline.Cli.Rpc

open Vanyline.Lib

/-! ## The property -/

/-- The messages that a turn has put into its conversation. -/
def Task.kept (task : Task) : List Message :=
  match task.stage with
  | .spawned => []
  | .running | .succeeded _ | .ended none => [userMessage task.message]
  | .answering result | .answered result | .ended (some result) =>
    userMessage task.message :: result.toOption.toList.map chatTurnResultToMessage

/-- What a turn has put into a conversation. -/
def State.keptIn (s : State) (c : Uuid) (t : Nat) : List Message :=
  match s.tasks t with
  | some task => if task.conversation = c then task.kept else []
  | none => []

/-- What the turns have put into a conversation, in the order in which they were
accepted. -/
def State.contributions (s : State) (c : Uuid) : List Message :=
  (List.range s.turns).flatMap (s.keptIn c)

structure NothingLost (s : State) : Prop where
  oneTurn : ∀ t u a b, s.tasks t = some a → s.tasks u = some b → a.stage.unanswered = true →
    b.stage.unanswered = true → a.conversation = b.conversation → t = u
  filed : ∀ c messages, s.base c = some messages → s.deleted c = false →
    ∃ conv, s.files c = some (.json conv) ∧ conv.messages = messages ++ s.contributions c
  gone : ∀ c, s.deleted c = true → s.files c = none
  refused : ∀ r ∈ s.refusals, r.2 = true

/-! ## The condition -/

/-- A task of the conversation has sent its response and still holds its mark. -/
def State.lingers (s : State) (c : Uuid) : Bool :=
  (List.range s.turns).any fun t =>
    (s.tasks t).any fun task =>
      task.conversation = c && task.stage.live && !task.stage.unanswered

/-- What the loop may do next: `initialize` finds no mark, `conversations/delete` not that
of its conversation, and `chat/send` takes the mark while the file is as it was loaded, and
is not refused for a task that has answered. -/
def CarefulStage (s : State) (env : Env) : Stage → Prop
  | .clearBusy _ => s.busy = ∅
  | .handle (.conversationsDelete (some ⟨_, some c⟩)) =>
    (env.ioFails && (s.files c).isSome) = false → c ∉ s.busy
  | .lock _ c conv =>
    (c ∉ s.busy → s.files c = some (.json conv)) ∧ (c ∈ s.busy → s.lingers c = false)
  | _ => True

def Careful (s : State) : Label → Prop
  | .advance env =>
    match s.loop with
    | .handling _ _ stage => CarefulStage s env stage
    | _ => True
  | .saveMessage _ disk | .saveAnswer _ disk => disk = .saved
  | _ => True

/-! ## The invariant -/

/-- The task will still write the file. -/
def TaskStage.writes : TaskStage → Bool
  | .spawned | .running | .succeeded _ => true
  | _ => false

/-- The conversation whose mark the loop has taken for a turn, with the loaded copy. -/
def Loop.reserved : Loop → Option (Uuid × Conversation)
  | .handling _ _ (.resolve _ c conv) => some (c, conv)
  | _ => none

/-- The conversation that the loop is deleting. -/
def Loop.purging : Loop → Option Uuid
  | .handling _ _ (.purgeSeq c) | .handling _ _ (.purgeBusy c) => some c
  | _ => none

/-- A task of the conversation holds the mark. -/
def State.held (s : State) (c : Uuid) : Prop :=
  ∃ t task, s.tasks t = some task ∧ task.conversation = c ∧ task.stage.live = true

structure Inv (s : State) : Prop where
  turns : ∀ t task, s.tasks t = some task → t < s.turns
  latest : ∀ t u a b, s.tasks t = some a → s.tasks u = some b → a.stage.live = true →
    a.conversation = b.conversation → u ≤ t
  marks : ∀ c, c ∈ s.busy ↔ s.held c ∨ ∃ conv, s.loop.reserved = some (c, conv)
  alone : ∀ c conv, s.loop.reserved = some (c, conv) → ¬ s.held c
  purging : ∀ c, s.loop.purging = some c → c ∉ s.busy
  copy : ∀ t task, s.tasks t = some task → task.stage.writes = true →
    s.files task.conversation = some (.json task.conv)
  loaded : ∀ c conv, s.loop.reserved = some (c, conv) → s.files c = some (.json conv)
  named : ∀ c conv, s.files c = some (.json conv) → conv.id = c
  based : ∀ c conv, s.files c = some (.json conv) → (s.base c).isSome = true
  known : ∀ t task, s.tasks t = some task → (s.base task.conversation).isSome = true
  filed : ∀ c messages, s.base c = some messages → s.deleted c = false →
    ∃ conv, s.files c = some (.json conv) ∧ conv.messages = messages ++ s.contributions c
  gone : ∀ c, s.deleted c = true → s.files c = none
  refused : ∀ r ∈ s.refusals, r.2 = true

variable {s : State}

theorem contributions_init (store : Store) (c : Uuid) : (State.init store).contributions c = [] :=
  rfl

theorem inv_init (store : Store) : Inv (State.init store) where
  turns := by simp [State.init]
  latest := by simp [State.init]
  marks := by simp [State.init, State.held, Loop.reserved]
  alone := by simp [State.init, Loop.reserved]
  purging := by simp [State.init, Loop.purging]
  copy := by simp [State.init]
  loaded := by simp [State.init, Loop.reserved]
  named := store.named
  based := by
    intro c conv hfile
    have hfile' : store.files c = some (.json conv) := hfile
    simp [State.init, hfile']
  known := by simp [State.init]
  filed := by
    intro c messages hbase _
    simp only [State.init] at hbase
    split at hbase
    · next conv hfile =>
      cases hbase
      exact ⟨conv, hfile, by simp [contributions_init]⟩
    · cases hbase
  gone := by simp [State.init]
  refused := by simp [State.init]

theorem live_of_unanswered {stage : TaskStage} (h : stage.unanswered = true) :
    stage.live = true := by
  cases stage <;> first | rfl | cases h

theorem live_of_writes {stage : TaskStage} (h : stage.writes = true) : stage.live = true := by
  cases stage <;> first | rfl | cases h

theorem nothingLost_of_inv (hs : Inv s) : NothingLost s where
  oneTurn := by
    intro t u a b ha hb hlive hlive' hconv
    have hle := hs.latest t u a b ha hb (live_of_unanswered hlive) hconv
    have hge := hs.latest u t b a hb ha (live_of_unanswered hlive') hconv.symm
    omega
  filed := hs.filed
  gone := hs.gone
  refused := hs.refused

/-- What the invariant speaks of, except for what the loop has in hand. -/
def State.core (s : State) :=
  (s.busy, s.files, s.tasks, s.turns, s.base, s.deleted, s.refusals)

theorem keptIn_congr {t : State} (htasks : t.tasks = s.tasks) (c : Uuid) :
    t.keptIn c = s.keptIn c := by
  funext u
  simp only [State.keptIn, htasks]

theorem contributions_congr {t : State} (htasks : t.tasks = s.tasks) (hturns : t.turns = s.turns)
    (c : Uuid) : t.contributions c = s.contributions c := by
  simp only [State.contributions, keptIn_congr htasks, hturns]

/-- A step that leaves the marks, the files and the tasks alone. -/
theorem Inv.of_core (hs : Inv s) {t : State} (hcore : t.core = s.core)
    (hreserved : t.loop.reserved = s.loop.reserved)
    (hpurging : ∀ c, t.loop.purging = some c → s.loop.purging = some c) : Inv t := by
  simp only [State.core, Prod.mk.injEq] at hcore
  obtain ⟨hbusy, hfiles, htasks, hturns, hbase, hdeleted, hrefusals⟩ := hcore
  have hheld : ∀ c, t.held c ↔ s.held c := by
    intro c
    simp only [State.held, htasks]
  exact
    { turns := by
        rw [htasks, hturns]
        exact hs.turns
      latest := by
        rw [htasks]
        exact hs.latest
      marks := by
        intro c
        rw [hbusy, hheld, hreserved]
        exact hs.marks c
      alone := by
        intro c conv h
        rw [hheld]
        exact hs.alone c conv (hreserved ▸ h)
      purging := by
        intro c h
        rw [hbusy]
        exact hs.purging c (hpurging c h)
      copy := by
        rw [htasks, hfiles]
        exact hs.copy
      loaded := by
        rw [hreserved, hfiles]
        exact hs.loaded
      named := by
        rw [hfiles]
        exact hs.named
      based := by
        rw [hfiles, hbase]
        exact hs.based
      known := by
        rw [htasks, hbase]
        exact hs.known
      filed := by
        intro c messages h hkept
        rw [hfiles, contributions_congr htasks hturns]
        exact hs.filed c messages (hbase ▸ h) (hdeleted ▸ hkept)
      gone := by
        rw [hdeleted, hfiles]
        exact hs.gone
      refused := by
        rw [hrefusals]
        exact hs.refused }

/-! ## What the turns contribute -/

/-- One part of a range grows, behind which there is nothing. -/
theorem flatMap_range_grow {α : Type*} {f g : Nat → List α} {t n : Nat} {added : List α}
    (ht : t < n) (hsame : ∀ u, u ≠ t → g u = f u) (hgrow : g t = f t ++ added)
    (hlast : ∀ u, t < u → f u = []) :
    (List.range n).flatMap g = (List.range n).flatMap f ++ added := by
  induction n with
  | zero => omega
  | succ n ih =>
      simp only [List.range_succ, List.flatMap_append, List.flatMap_singleton]
      by_cases hn : t = n
      · subst hn
        have hbefore : (List.range t).flatMap g = (List.range t).flatMap f := by
          apply List.flatMap_congr
          intro u hu
          apply hsame
          have hlt := List.mem_range.1 hu
          omega
        rw [hbefore, hgrow, List.append_assoc]
      · have hlt : t < n := by omega
        rw [ih hlt, hsame n (by omega), hlast n hlt, List.append_nil, List.append_nil]

theorem keptIn_of_task {t : Nat} {task : Task} (ht : s.tasks t = some task) (c : Uuid) :
    s.keptIn c t = if task.conversation = c then task.kept else [] := by
  simp only [State.keptIn, ht]

/-- The tasks, with one of them changed. -/
theorem keptIn_setTask {t : Nat} (task' : Task) (c : Uuid) (u : Nat) :
    (s.setTask t task').keptIn c u =
      if u = t then (if task'.conversation = c then task'.kept else []) else s.keptIn c u := by
  by_cases h : u = t
  · simp [State.keptIn, State.setTask, h]
  · simp [State.keptIn, State.setTask, h]

section Task

variable {t : Nat} {task task' : Task}

/-- The messages that the last turn of a conversation adds come at the end. -/
theorem contributions_setTask (hs : Inv s) (ht : s.tasks t = some task)
    (hlive : task.stage.live = true) (hconv : task'.conversation = task.conversation)
    {added : List Message} (hkept : task'.kept = task.kept ++ added) (c : Uuid) :
    (s.setTask t task').contributions c =
      s.contributions c ++ if task.conversation = c then added else [] := by
  have hturns : (s.setTask t task').turns = s.turns := rfl
  simp only [State.contributions, hturns]
  by_cases hc : task.conversation = c
  · rw [if_pos hc]
    apply flatMap_range_grow (hs.turns t task ht)
    · intro u hu
      rw [keptIn_setTask, if_neg hu]
    · rw [keptIn_setTask, if_pos rfl, keptIn_of_task ht, if_pos hc, if_pos (hconv.trans hc), hkept]
    · intro u hu
      unfold State.keptIn
      split
      · next b hb =>
        rw [if_neg]
        intro hb'
        have hle := hs.latest t u task b ht hb hlive (hc.trans hb'.symm)
        omega
      · rfl
  · rw [if_neg hc, List.append_nil]
    apply List.flatMap_congr
    intro u _
    rw [keptIn_setTask]
    split_ifs with hu hc'
    · exact absurd (hconv.symm.trans hc') hc
    · rw [hu, keptIn_of_task ht, if_neg hc]
    · rfl

theorem held_setTask (ht : s.tasks t = some task) (hlive : task.stage.live = true)
    (hconv : task'.conversation = task.conversation) (hlive' : task'.stage.live = true)
    (c : Uuid) : (s.setTask t task').held c ↔ s.held c := by
  constructor
  · rintro ⟨u, b, hb, hbc, hblive⟩
    by_cases hu : u = t
    · simp only [State.setTask, hu, Function.update_self, Option.some.injEq] at hb
      subst hb
      exact ⟨t, task, ht, hconv.symm.trans hbc, hlive⟩
    · simp only [State.setTask, Function.update_of_ne hu] at hb
      exact ⟨u, b, hb, hbc, hblive⟩
  · rintro ⟨u, b, hb, hbc, hblive⟩
    by_cases hu : u = t
    · subst hu
      rw [ht, Option.some.injEq] at hb
      subst hb
      exact ⟨u, task', by simp [State.setTask], hconv.trans hbc, hlive'⟩
    · exact ⟨u, b, by simp [State.setTask, hu, hb], hbc, hblive⟩

/-- The task goes on, and adds messages to its conversation or none. -/
theorem inv_setTask (hs : Inv s) (ht : s.tasks t = some task) (hlive : task.stage.live = true)
    (hconv : task'.conversation = task.conversation) (hlive' : task'.stage.live = true)
    {added : List Message} (hkept : task'.kept = task.kept ++ added) {files' : Files}
    (hfiles : ∀ c, c ≠ task.conversation → files' c = s.files c)
    (hfile : (files' task.conversation = s.files task.conversation ∧ added = []) ∨
      ∃ old conv, s.files task.conversation = some (.json old) ∧
        files' task.conversation = some (.json conv) ∧ conv.id = task.conversation ∧
        conv.messages = old.messages ++ added)
    (hcopy : task'.stage.writes = true → files' task.conversation = some (.json task'.conv)) :
    Inv ({ s with files := files' }.setTask t task') := by
  have hheld : ∀ c, ({ s with files := files' }.setTask t task').held c ↔ s.held c :=
    held_setTask ht hlive hconv hlive'
  have hjson : ∀ c conv, files' c = some (.json conv) →
      conv.id = c ∧ (s.base c).isSome = true := by
    intro c conv hc
    by_cases h : c = task.conversation
    · subst h
      rcases hfile with ⟨hsame, -⟩ | ⟨old, conv', hold, hnew, hid, -⟩
      · rw [hsame] at hc
        exact ⟨hs.named _ conv hc, hs.based _ conv hc⟩
      · rw [hnew] at hc
        cases hc
        exact ⟨hid, hs.based _ old hold⟩
    · rw [hfiles c h] at hc
      exact ⟨hs.named c conv hc, hs.based c conv hc⟩
  exact
    { turns := by
        intro u b hb
        simp only [State.setTask, Function.update_apply] at hb
        split_ifs at hb with hu
        · rw [hu]
          exact hs.turns t task ht
        · exact hs.turns u b hb
      latest := by
        intro u v a b ha hb halive hab
        simp only [State.setTask, Function.update_apply] at ha hb
        split_ifs at ha hb with hu hv hv
        · omega
        · cases ha
          rw [hu]
          exact hs.latest t v task b ht hb hlive (hconv.symm.trans hab)
        · cases hb
          rw [hv]
          exact hs.latest u t a task ha ht halive (hab.trans hconv)
        · exact hs.latest u v a b ha hb halive hab
      marks := by
        intro c
        rw [hheld]
        exact hs.marks c
      alone := by
        intro c conv h
        rw [hheld]
        exact hs.alone c conv h
      purging := hs.purging
      copy := by
        intro u b hb hwrites
        simp only [State.setTask, Function.update_apply] at hb
        split_ifs at hb with hu
        · cases hb
          rw [hconv]
          exact hcopy hwrites
        · have hne : b.conversation ≠ task.conversation := by
            intro hsame
            have hle := hs.latest t u task b ht hb hlive hsame.symm
            have hge := hs.latest u t b task hb ht (live_of_writes hwrites) hsame
            omega
          show files' b.conversation = _
          rw [hfiles _ hne]
          exact hs.copy u b hb hwrites
      loaded := by
        intro c conv h
        have hne : c ≠ task.conversation := by
          intro hsame
          exact hs.alone c conv h ⟨t, task, ht, hsame.symm, hlive⟩
        show files' c = _
        rw [hfiles c hne]
        exact hs.loaded c conv h
      named := fun c conv hc => (hjson c conv hc).1
      based := fun c conv hc => (hjson c conv hc).2
      known := by
        intro u b hb
        simp only [State.setTask, Function.update_apply] at hb
        split_ifs at hb with hu
        · cases hb
          rw [hconv]
          exact hs.known t task ht
        · exact hs.known u b hb
      filed := by
        intro c messages h hkept'
        obtain ⟨conv, hc, hmessages⟩ := hs.filed c messages h hkept'
        show ∃ conv, files' c = some (.json conv) ∧
          conv.messages = messages ++ (s.setTask t task').contributions c
        rw [contributions_setTask hs ht hlive hconv hkept]
        by_cases hne : task.conversation = c
        · subst hne
          rw [if_pos rfl]
          rcases hfile with ⟨hsame, hnone⟩ | ⟨old, conv', hold, hnew, -, hadded⟩
          · refine ⟨conv, hsame.trans hc, ?_⟩
            rw [hnone, List.append_nil]
            exact hmessages
          · rw [hc, Option.some.injEq, File.json.injEq] at hold
            refine ⟨conv', hnew, ?_⟩
            rw [hadded, ← hold, hmessages, List.append_assoc]
        · rw [if_neg hne, List.append_nil]
          exact ⟨conv, (hfiles c (Ne.symm hne)).trans hc, hmessages⟩
      gone := by
        intro c h
        have hnone := hs.gone c h
        show files' c = none
        by_cases hne : c = task.conversation
        · subst hne
          rcases hfile with ⟨hsame, -⟩ | ⟨old, conv, hold, -⟩
          · rw [hsame, hnone]
          · rw [hold] at hnone
            cases hnone
        · rw [hfiles c hne, hnone]
      refused := hs.refused }

/-- The task goes on, and writes nothing. -/
theorem inv_goOn (hs : Inv s) (ht : s.tasks t = some task) (hlive : task.stage.live = true)
    (hconv : task'.conversation = task.conversation) (hlive' : task'.stage.live = true)
    (hkept : task'.kept = task.kept)
    (hcopy : task'.stage.writes = true → task.stage.writes = true ∧ task'.conv = task.conv) :
    Inv (s.setTask t task') := by
  refine inv_setTask hs ht hlive hconv hlive' (by rw [hkept, List.append_nil]) (fun _ _ => rfl)
    (.inl ⟨rfl, rfl⟩) ?_
  intro hwrites
  obtain ⟨hwrites', hsame⟩ := hcopy hwrites
  rw [hsame]
  exact hs.copy t task ht hwrites'

/-- The task adds a message to its copy, and the copy is saved. -/
theorem inv_write (hs : Inv s) (ht : s.tasks t = some task) (hwrites : task.stage.writes = true)
    {message : Message} (hconv : task'.conversation = task.conversation)
    (hlive' : task'.stage.live = true) (hkept : task'.kept = task.kept ++ [message])
    (hcopy : task'.conv = push task.conv message) :
    Inv ({ s with files := saveConversation s.files (push task.conv message) .saved }.setTask t
      task') := by
  have hold := hs.copy t task ht hwrites
  have hid : (push task.conv message).id = task.conversation := hs.named _ task.conv hold
  have hsaved : saveConversation s.files (push task.conv message) .saved =
      Function.update s.files task.conversation (some (.json (push task.conv message))) := by
    rw [← hid]
    rfl
  rw [hsaved]
  refine inv_setTask hs ht (live_of_writes hwrites) hconv hlive' hkept ?_
    (.inr ⟨task.conv, push task.conv message, hold, Function.update_self .., hid, rfl⟩) ?_
  · intro c hc
    exact Function.update_of_ne hc ..
  · intro _
    rw [hcopy]
    exact Function.update_self ..

/-- The task ends, and its mark is released. -/
theorem inv_release (hs : Inv s) (ht : s.tasks t = some task) (hlive : task.stage.live = true)
    {result : Option (Except Text ChatTurnResult)}
    (hkept : { task with stage := .ended result : Task }.kept = task.kept) :
    Inv (s.release t task result) := by
  have hheld : ∀ c, (s.release t task result).held c ↔ s.held c ∧ c ≠ task.conversation := by
    intro c
    constructor
    · rintro ⟨u, b, hb, hbc, hblive⟩
      simp only [State.release, State.setTask, Function.update_apply] at hb
      split_ifs at hb with hu
      · cases hb
        cases hblive
      · refine ⟨⟨u, b, hb, hbc, hblive⟩, ?_⟩
        intro hc
        have hle := hs.latest t u task b ht hb hlive (hc.symm.trans hbc.symm)
        have hge := hs.latest u t b task hb ht hblive (hbc.trans hc)
        omega
    · rintro ⟨⟨u, b, hb, hbc, hblive⟩, hc⟩
      have hu : u ≠ t := by
        intro hu
        rw [hu, ht, Option.some.injEq] at hb
        exact hc (by rw [hb, hbc])
      exact ⟨u, b, by simp [State.release, State.setTask, hu, hb], hbc, hblive⟩
  have hadded : { task with stage := .ended result : Task }.kept = task.kept ++ [] := by
    rw [hkept, List.append_nil]
  have hsame : { task with stage := .ended result : Task }.conversation = task.conversation := rfl
  exact
    { hs with
      turns := by
        intro u b hb
        simp only [State.release, State.setTask, Function.update_apply] at hb
        split_ifs at hb with hu
        · rw [hu]
          exact hs.turns t task ht
        · exact hs.turns u b hb
      latest := by
        intro u v a b ha hb halive hab
        simp only [State.release, State.setTask, Function.update_apply] at ha hb
        split_ifs at ha hb with hu hv hv
        · omega
        · cases ha
          cases halive
        · cases hb
          rw [hv]
          exact hs.latest u t a task ha ht halive hab
        · exact hs.latest u v a b ha hb halive hab
      marks := by
        intro c
        show c ∈ s.busy.erase task.conversation ↔ _
        rw [hheld, Finset.mem_erase, hs.marks c]
        constructor
        · rintro ⟨hne, hheld' | hreserved⟩
          · exact .inl ⟨hheld', hne⟩
          · exact .inr hreserved
        · rintro (⟨hheld', hne⟩ | ⟨conv, hreserved⟩)
          · exact ⟨hne, .inl hheld'⟩
          · refine ⟨?_, .inr ⟨conv, hreserved⟩⟩
            intro hc
            exact hs.alone c conv hreserved ⟨t, task, ht, hc.symm, hlive⟩
      alone := by
        intro c conv h
        rw [hheld]
        intro hheld'
        exact hs.alone c conv h hheld'.1
      purging := by
        intro c h hbusy
        exact hs.purging c h (Finset.mem_of_mem_erase hbusy)
      copy := by
        intro u b hb hwrites
        simp only [State.release, State.setTask, Function.update_apply] at hb
        split_ifs at hb with hu
        · cases hb
          cases hwrites
        · exact hs.copy u b hb hwrites
      known := by
        intro u b hb
        simp only [State.release, State.setTask, Function.update_apply] at hb
        split_ifs at hb with hu
        · cases hb
          exact hs.known t task ht
        · exact hs.known u b hb
      filed := by
        intro c messages h hkept'
        obtain ⟨conv, hfile, hmessages⟩ := hs.filed c messages h hkept'
        refine ⟨conv, hfile, ?_⟩
        show conv.messages = messages ++ (s.setTask t _).contributions c
        rw [contributions_setTask hs ht hlive hsame hadded, ite_self, List.append_nil]
        exact hmessages }

end Task

/-! ## The loop -/

section Loop

variable {line : Nat} {id : Id} {env : Env}

/-- A stage that has no conversation in hand. -/
structure Stage.Plain (stage : Stage) : Prop where
  reserved : ∀ line id, (Loop.handling line id stage).reserved = none
  purging : ∀ line id, (Loop.handling line id stage).purging = none

theorem plain_respond (body : Body) : (Stage.respond body).Plain := ⟨fun _ _ => rfl, fun _ _ => rfl⟩

theorem plain_handleInitialize (params : Option InitializeParams) :
    (State.handleInitialize env params).Plain := by
  unfold State.handleInitialize
  split
  · exact plain_respond _
  · split_ifs
    · exact plain_respond _
    · exact ⟨fun _ _ => rfl, fun _ _ => rfl⟩

theorem plain_handleConversationsGet (params : Option Reference) :
    (s.handleConversationsGet env params).Plain := by
  unfold State.handleConversationsGet
  split
  · exact plain_respond _
  · exact plain_respond _
  · exact plain_respond _

theorem plain_handleChatCancel (params : Option Reference) :
    (State.handleChatCancel params).Plain := by
  unfold State.handleChatCancel
  split
  · exact plain_respond _
  · exact plain_respond _
  · exact plain_respond _

theorem plain_handleChatSend (params : Option ChatSendParams) :
    (s.handleChatSend env params).Plain := by
  unfold State.handleChatSend
  split
  · exact plain_respond _
  · split
    · exact plain_respond _
    · split
      · exact plain_respond _
      · exact ⟨fun _ _ => rfl, fun _ _ => rfl⟩

/-- From a stage that has none in hand, the loop goes to another. -/
theorem Inv.goTo (hs : Inv s) (hreserved : s.loop.reserved = none) {stage : Stage}
    (hplain : stage.Plain) : Inv (s.goTo line id stage) := by
  refine hs.of_core rfl ?_ ?_
  · rw [hreserved]
    exact hplain.reserved line id
  · intro c h
    have hnone : (s.goTo line id stage).loop.purging = none := hplain.purging line id
    rw [hnone] at h
    cases h

/-- A file that cannot be read stands under an id that no conversation has had. -/
theorem Inv.tornFile (hs : Inv s) (hreserved : s.loop.reserved = none) {c : Uuid}
    (hbase : s.base c = none) (hdeleted : s.deleted c = false) :
    Inv { s with files := Function.update s.files c (some .garbled) } := by
  have hbased : ∀ c', (s.base c').isSome = true → c' ≠ c := by
    intro c' h hc
    rw [hc, hbase] at h
    cases h
  have hjson : ∀ c' conv, Function.update s.files c (some .garbled) c' = some (.json conv) →
      s.files c' = some (.json conv) := by
    intro c' conv h
    rw [Function.update_apply] at h
    split_ifs at h
    · cases h
    · exact h
  exact
    { hs with
      copy := by
        intro t task ht hwrites
        show Function.update s.files c (some .garbled) _ = _
        rw [Function.update_of_ne (hbased _ (hs.known t task ht))]
        exact hs.copy t task ht hwrites
      loaded := by
        intro c' conv h
        have h' : s.loop.reserved = some (c', conv) := h
        rw [hreserved] at h'
        cases h'
      named := fun c' conv h => hs.named c' conv (hjson c' conv h)
      based := fun c' conv h => hs.based c' conv (hjson c' conv h)
      filed := by
        intro c' messages h hkept
        obtain ⟨conv, hfile, hmessages⟩ := hs.filed c' messages h hkept
        refine ⟨conv, ?_, hmessages⟩
        show Function.update s.files c (some .garbled) c' = _
        rw [Function.update_of_ne]
        · exact hfile
        · exact hbased c' (hs.based c' conv hfile)
      gone := by
        intro c' h
        have hne : c' ≠ c := by
          intro hc
          have h' : s.deleted c' = true := h
          rw [hc, hdeleted] at h'
          cases h'
        show Function.update s.files c (some .garbled) c' = none
        rw [Function.update_of_ne hne]
        exact hs.gone c' h }

/-- A conversation without messages stands under an id that no conversation has had. -/
theorem Inv.newFile (hs : Inv s) (hreserved : s.loop.reserved = none) {c : Uuid}
    (hbase : s.base c = none) (hdeleted : s.deleted c = false) {conv : Conversation}
    (hid : conv.id = c) (hempty : conv.messages = []) :
    Inv { s with
      files := Function.update s.files c (some (.json conv))
      base := Function.update s.base c (some []) } := by
  have hknown : ∀ t task, s.tasks t = some task → task.conversation ≠ c := by
    intro t task ht hc
    have h := hs.known t task ht
    rw [hc, hbase] at h
    cases h
  have hnothing : s.contributions c = [] := by
    simp only [State.contributions, List.flatMap_eq_nil_iff]
    intro t _
    unfold State.keptIn
    split
    · next task ht => rw [if_neg (hknown t task ht)]
    · rfl
  exact
    { hs with
      copy := by
        intro t task ht hwrites
        simp only [Function.update_of_ne (hknown t task ht)]
        exact hs.copy t task ht hwrites
      loaded := by
        intro c' conv h
        have h' : s.loop.reserved = some (c', conv) := h
        rw [hreserved] at h'
        cases h'
      named := by
        intro c' conv' h
        simp only [Function.update_apply] at h
        split_ifs at h with hc
        · cases h
          exact hid.trans hc.symm
        · exact hs.named c' conv' h
      based := by
        intro c' conv' h
        simp only [Function.update_apply] at h ⊢
        split_ifs at h ⊢ with hc
        · rfl
        · exact hs.based c' conv' h
      known := by
        intro t task ht
        simp only [Function.update_of_ne (hknown t task ht)]
        exact hs.known t task ht
      filed := by
        intro c' messages h hkept
        simp only [Function.update_apply] at h ⊢
        split_ifs at h ⊢ with hc
        · cases h
          refine ⟨conv, rfl, ?_⟩
          show conv.messages = [] ++ s.contributions c'
          rw [hc, hempty, hnothing, List.append_nil]
        · exact hs.filed c' messages h hkept
      gone := by
        intro c' h
        have hne : c' ≠ c := by
          intro hc
          have h' : s.deleted c' = true := h
          rw [hc, hdeleted] at h'
          cases h'
        simp only [Function.update_of_ne hne]
        exact hs.gone c' h }

/-- A conversation is created under an id that no conversation has had. -/
theorem inv_handleConversationsCreate (hs : Inv s) (hreserved : s.loop.reserved = none)
    {params : Option ConversationCreateParams} {t : State}
    (h : s.handleConversationsCreate line id env params = some t) : Inv t := by
  unfold State.handleConversationsCreate at h
  split at h
  · cases h
    exact hs.goTo hreserved (plain_respond _)
  · split_ifs at h with hfresh
    simp only [State.isFresh, Bool.and_eq_true, Option.isNone_iff_eq_none,
      Bool.not_eq_true'] at hfresh
    obtain ⟨⟨-, hbase⟩, hdeleted⟩ := hfresh
    cases hdisk : env.disk with
    | saved =>
        simp only [hdisk, Option.some.injEq] at h
        subst h
        exact (hs.newFile hreserved hbase hdeleted rfl rfl).goTo hreserved (plain_respond _)
    | refused =>
        simp only [hdisk, Option.some.injEq] at h
        subst h
        exact hs.goTo hreserved (plain_respond _)
    | torn =>
        simp only [hdisk, Option.some.injEq] at h
        subst h
        exact (hs.tornFile hreserved hbase hdeleted).goTo hreserved (plain_respond _)

/-- A conversation is deleted while its mark is not set. -/
theorem inv_handleConversationsDelete (hs : Inv s) (hreserved : s.loop.reserved = none)
    (params : Option Reference)
    (hok : ∀ text c, params = some ⟨text, some c⟩ →
      (env.ioFails && (s.files c).isSome) = false → c ∉ s.busy) :
    Inv (s.handleConversationsDelete line id env params) := by
  unfold State.handleConversationsDelete
  split
  · exact hs.goTo hreserved (plain_respond _)
  · exact hs.goTo hreserved (plain_respond _)
  · next text c =>
    split_ifs with hfails
    · exact hs.goTo hreserved (plain_respond _)
    · have hbusy : c ∉ s.busy := hok text c rfl (by simpa using hfails)
      have hfree : ∀ t task, s.tasks t = some task → task.stage.live = true →
          task.conversation ≠ c := by
        intro t task ht hlive hc
        exact hbusy ((hs.marks c).2 (.inl ⟨t, task, ht, hc, hlive⟩))
      have hjson : ∀ c' conv, Function.update s.files c none c' = some (.json conv) →
          s.files c' = some (.json conv) := by
        intro c' conv h
        rw [Function.update_apply] at h
        split_ifs at h
        exact h
      exact
        { hs with
          marks := by
            intro c'
            show c' ∈ s.busy ↔ s.held c' ∨ ∃ conv, none = some (c', conv)
            rw [hs.marks c', hreserved]
          alone := by
            intro c' conv h
            cases h
          purging := by
            intro c' h
            have hc : some c = some c' := h
            rw [Option.some.injEq] at hc
            subst hc
            exact hbusy
          copy := by
            intro t task ht hwrites
            show Function.update s.files c none _ = _
            rw [Function.update_of_ne (hfree t task ht (live_of_writes hwrites))]
            exact hs.copy t task ht hwrites
          loaded := by
            intro c' conv h
            cases h
          named := fun c' conv h => hs.named c' conv (hjson c' conv h)
          based := fun c' conv h => hs.based c' conv (hjson c' conv h)
          filed := by
            intro c' messages h hkept
            have hkept' : Function.update s.deleted c true c' = false := hkept
            show ∃ conv, Function.update s.files c none c' = some (.json conv) ∧ _
            rw [Function.update_apply] at hkept' ⊢
            split_ifs at hkept' ⊢ with hc
            exact hs.filed c' messages h hkept'
          gone := by
            intro c' h
            have h' : Function.update s.deleted c true c' = true := h
            show Function.update s.files c none c' = none
            rw [Function.update_apply] at h' ⊢
            split_ifs at h' ⊢ with hc
            · rfl
            · exact hs.gone c' h' }

/-- While no task lingers, a mark is that of a turn that is on its way. -/
theorem Inv.unanswered (hs : Inv s) (hreserved : s.loop.reserved = none) {c : Uuid}
    (hbusy : c ∈ s.busy) (hlingers : s.lingers c = false) : s.unanswered c = true := by
  rcases (hs.marks c).1 hbusy with ⟨t, task, ht, hc, hlive⟩ | ⟨conv, h⟩
  · have hlt := List.mem_range.2 (hs.turns t task ht)
    have hnot := List.any_eq_false.1 hlingers t hlt
    simp only [ht, Option.any_some, hc, decide_true, hlive, Bool.and_self, Bool.true_and,
      Bool.not_eq_true', Bool.not_eq_false] at hnot
    refine List.any_eq_true.2 ⟨t, hlt, ?_⟩
    simp [ht, hc, hnot]
  · rw [hreserved] at h
    cases h

/-- The mark is taken with the copy that the file holds, or the request is refused for a
turn that is on its way. -/
theorem inv_lockBusy (hs : Inv s) (hreserved : s.loop.reserved = none) {params : ChatSendParams}
    {c : Uuid} {conv : Conversation} (hload : c ∉ s.busy → s.files c = some (.json conv))
    (hlingers : c ∈ s.busy → s.lingers c = false) :
    Inv (s.lockBusy line id params c conv) := by
  unfold State.lockBusy
  split_ifs with hbusy
  · have hrefused : Inv { s with refusals := s.refusals ++ [(c, s.unanswered c)] } :=
      { hs with
        refused := by
          intro r hr
          rcases List.mem_append.1 hr with hr | hr
          · exact hs.refused r hr
          · rw [List.mem_singleton.1 hr]
            exact hs.unanswered hreserved hbusy (hlingers hbusy) }
    exact hrefused.goTo hreserved (plain_respond _)
  · have hfree : ¬ s.held c := fun h => hbusy ((hs.marks c).2 (.inl h))
    exact
      { hs with
        marks := by
          intro c'
          show c' ∈ insert c s.busy ↔ s.held c' ∨ ∃ conv', some (c, conv) = some (c', conv')
          rw [Finset.mem_insert, hs.marks c', hreserved]
          constructor
          · rintro (rfl | hheld | ⟨conv', h⟩)
            · exact .inr ⟨conv, rfl⟩
            · exact .inl hheld
            · cases h
          · rintro (hheld | ⟨conv', h⟩)
            · exact .inr (.inl hheld)
            · cases h
              exact .inl rfl
        alone := by
          intro c' conv' h
          have h' : some (c, conv) = some (c', conv') := h
          cases h'
          exact hfree
        purging := by
          intro c' h
          cases h
        loaded := by
          intro c' conv' h
          have h' : some (c, conv) = some (c', conv') := h
          cases h'
          exact hload hbusy }

/-- The task starts with the copy that was loaded, or the mark is given back. -/
theorem inv_spawn (hs : Inv s) {params : ChatSendParams} {c : Uuid} {conv : Conversation}
    (hreserved : s.loop.reserved = some (c, conv)) :
    Inv (s.spawn line id params c conv env) := by
  have hfree := hs.alone c conv hreserved
  have hfile := hs.loaded c conv hreserved
  unfold State.spawn
  split
  · exact
      { hs with
        marks := by
          intro c'
          show c' ∈ s.busy.erase c ↔ s.held c' ∨ ∃ conv', none = some (c', conv')
          rw [Finset.mem_erase, hs.marks c', hreserved]
          constructor
          · rintro ⟨hne, hheld | ⟨conv', h⟩⟩
            · exact .inl hheld
            · cases h
              exact absurd rfl hne
          · rintro (hheld | ⟨conv', h⟩)
            · refine ⟨?_, .inl hheld⟩
              intro hc
              exact hfree (hc ▸ hheld)
            · cases h
        alone := by
          intro c' conv' h
          cases h
        purging := by
          intro c' h
          cases h
        loaded := by
          intro c' conv' h
          cases h }
  · next agent hagent =>
    have hnext : s.next.reserved = none ∧ s.next.purging = none := by
      unfold State.next
      split_ifs
      · exact ⟨rfl, rfl⟩
      · exact ⟨rfl, rfl⟩
    have hnew : s.tasks s.turns = none := by
      by_contra h
      obtain ⟨task, ht⟩ := Option.ne_none_iff_exists'.1 h
      exact absurd (hs.turns _ task ht) (Nat.lt_irrefl _)
    dsimp only
    generalize htask : Task.mk line id c conv agent (conversationHistoryToMessages conv.messages)
      params.message (s.epoch c) .spawned = task
    have hconv : task.conversation = c := by rw [← htask]
    have hstage : task.stage = .spawned := by rw [← htask]
    have hcopy : task.conv = conv := by rw [← htask]
    have hkept : task.kept = [] := by rw [← htask]; rfl
    have hlive : task.stage.live = true := by rw [hstage]; rfl
    have hold : ∀ u b, s.tasks u = some b → b.stage.live = true → b.conversation ≠ c :=
      fun u b hb hblive hc => hfree ⟨u, b, hb, hc, hblive⟩
    let t : State := { s with
      tasks := Function.update s.tasks s.turns (some task)
      turns := s.turns + 1
      loop := s.next }
    have hheld : ∀ c', t.held c' ↔ s.held c' ∨ c' = c := by
      intro c'
      constructor
      · rintro ⟨u, b, hb, hbc, hblive⟩
        simp only [t, Function.update_apply] at hb
        split_ifs at hb with hu
        · cases hb
          exact .inr (hbc.symm.trans hconv)
        · exact .inl ⟨u, b, hb, hbc, hblive⟩
      · rintro (⟨u, b, hb, hbc, hblive⟩ | rfl)
        · have hu : u ≠ s.turns := by
            intro hu
            rw [hu, hnew] at hb
            cases hb
          exact ⟨u, b, by simp [t, hu, hb], hbc, hblive⟩
        · exact ⟨s.turns, task, by simp [t], hconv, hlive⟩
    have hcontributions : ∀ c', t.contributions c' = s.contributions c' := by
      intro c'
      have hlast : t.keptIn c' s.turns = [] := by
        have htask' : t.tasks s.turns = some task := by simp [t]
        rw [keptIn_of_task htask', hkept, ite_self]
      have hbefore : (List.range s.turns).flatMap (t.keptIn c') = s.contributions c' := by
        apply List.flatMap_congr
        intro u hu
        have hne : u ≠ s.turns := Nat.ne_of_lt (List.mem_range.1 hu)
        simp [State.keptIn, t, hne]
      show (List.range (s.turns + 1)).flatMap (t.keptIn c') = _
      rw [List.range_succ, List.flatMap_append, List.flatMap_singleton, hlast, hbefore,
        List.append_nil]
    exact
      { hs with
        turns := by
          intro u b hb
          simp only [Function.update_apply] at hb
          split_ifs at hb with hu
          · rw [hu]
            exact Nat.lt_succ_self _
          · exact Nat.lt_succ_of_lt (hs.turns u b hb)
        latest := by
          intro u v a b ha hb halive hab
          simp only [Function.update_apply] at ha hb
          split_ifs at ha hb with hu hv hv
          · omega
          · have hlt := hs.turns v b hb
            omega
          · cases hb
            exact absurd (hab.trans hconv) (hold u a ha halive)
          · exact hs.latest u v a b ha hb halive hab
        marks := by
          intro c'
          show c' ∈ s.busy ↔ t.held c' ∨ ∃ conv', s.next.reserved = some (c', conv')
          rw [hs.marks c', hheld, hreserved, hnext.1]
          constructor
          · rintro (hheld' | ⟨conv', h⟩)
            · exact .inl (.inl hheld')
            · cases h
              exact .inl (.inr rfl)
          · rintro ((hheld' | rfl) | ⟨conv', h⟩)
            · exact .inl hheld'
            · exact .inr ⟨conv, rfl⟩
            · cases h
        alone := by
          intro c' conv' h
          have h' : s.next.reserved = some (c', conv') := h
          rw [hnext.1] at h'
          cases h'
        purging := by
          intro c' h
          have h' : s.next.purging = some c' := h
          rw [hnext.2] at h'
          cases h'
        copy := by
          intro u b hb hwrites
          simp only [Function.update_apply] at hb
          split_ifs at hb with hu
          · cases hb
            rw [hconv, hcopy]
            exact hfile
          · exact hs.copy u b hb hwrites
        loaded := by
          intro c' conv' h
          have h' : s.next.reserved = some (c', conv') := h
          rw [hnext.1] at h'
          cases h'
        known := by
          intro u b hb
          simp only [Function.update_apply] at hb
          split_ifs at hb with hu
          · cases hb
            rw [hconv]
            exact hs.based c conv hfile
          · exact hs.known u b hb
        filed := by
          intro c' messages h hkept'
          obtain ⟨conv', hfile', hmessages⟩ := hs.filed c' messages h hkept'
          exact ⟨conv', hfile', by rw [hmessages, ← hcontributions c']⟩ }

theorem inv_handle (hs : Inv s) (hreserved : s.loop.reserved = none) {method : Method}
    (hok : CarefulStage s env (.handle method)) {t : State}
    (h : s.handle line id env method = some t) : Inv t := by
  unfold State.handle at h
  split at h
  · cases h
    exact hs.goTo hreserved (plain_handleInitialize _)
  · cases h
    exact hs.goTo hreserved (plain_respond _)
  · cases h
    have hshutdown : Inv { s with shutdownRequested := true } := { hs with }
    exact hshutdown.goTo hreserved (plain_respond _)
  · cases h
    exact hs.goTo hreserved (plain_handleConversationsGet _)
  · exact inv_handleConversationsCreate hs hreserved h
  · cases h
    refine inv_handleConversationsDelete hs hreserved _ ?_
    intro text c hparams
    subst hparams
    exact hok
  · cases h
    exact hs.goTo hreserved (plain_handleChatCancel _)
  · cases h
    exact hs.goTo hreserved (plain_handleChatSend _)
  · cases h
    exact hs.goTo hreserved (plain_respond _)
  · cases h
    exact hs.goTo hreserved (plain_respond _)

theorem inv_advance (hs : Inv s) {stage : Stage} (hloop : s.loop = .handling line id stage)
    (hok : CarefulStage s env stage) {t : State} (h : s.advance line id env stage = some t) :
    Inv t := by
  cases stage with
  | handle method =>
      have hreserved : s.loop.reserved = none := by rw [hloop]; rfl
      exact inv_handle hs hreserved hok h
  | clearBusy result =>
      cases h
      have hbusy : s.busy = ∅ := hok
      refine hs.of_core (by simp only [State.core, State.goTo, hbusy]) ?_ ?_
      · rw [hloop]
        rfl
      · intro c hc
        cases hc
  | clearSeq result =>
      cases h
      refine hs.of_core rfl ?_ ?_
      · rw [hloop]
        rfl
      · intro c hc
        cases hc
  | purgeSeq c =>
      cases h
      refine hs.of_core rfl ?_ ?_
      · rw [hloop]
        rfl
      · intro c' hc
        rw [hloop]
        exact hc
  | purgeBusy c =>
      cases h
      have hbusy : c ∉ s.busy := hs.purging c (by rw [hloop]; rfl)
      refine hs.of_core ?_ ?_ ?_
      · simp only [State.core, State.goTo, Finset.erase_eq_of_notMem hbusy]
      · rw [hloop]
        rfl
      · intro c' hc
        cases hc
  | lock params c conv =>
      cases h
      have hreserved : s.loop.reserved = none := by rw [hloop]; rfl
      exact inv_lockBusy hs hreserved hok.1 hok.2
  | resolve params c conv =>
      cases h
      have hreserved : s.loop.reserved = some (c, conv) := by rw [hloop]; rfl
      exact inv_spawn hs hreserved
  | respond body =>
      cases h
      refine hs.of_core rfl ?_ ?_
      · rw [hloop]
        show s.next.reserved = none
        unfold State.next
        split_ifs
        · rfl
        · rfl
      · intro c hc
        have hc' : s.next.purging = some c := hc
        unfold State.next at hc'
        split_ifs at hc'
        · cases hc'
        · cases hc'

end Loop

/-! ## Runs -/

/-- A step of a task is one of a task that is there. -/
theorem act_cases {t : State} {turn : Nat} {f : Task → Option State}
    (h : s.act turn f = some t) : ∃ task, s.tasks turn = some task ∧ f task = some t :=
  Option.bind_eq_some_iff.1 h

theorem inv_step {t : State} {a : Label} (hs : Inv s) (hok : Careful s a)
    (h : step s a = some t) : Inv t := by
  cases a with
  | read line =>
      simp only [step] at h
      split at h
      · next hloop =>
        cases h
        have hreserved : s.loop.reserved = none := by rw [hloop]; rfl
        cases line with
        | blank => exact hs
        | notARequest =>
            have hread : Inv { s with ids := s.ids ++ [none] } := { hs with }
            exact hread.goTo hreserved (plain_respond _)
        | request id method =>
            have hread : Inv { s with ids := s.ids ++ [id] } := { hs with }
            exact hread.goTo hreserved ⟨fun _ _ => rfl, fun _ _ => rfl⟩
      · cases h
  | eof =>
      simp only [step] at h
      split at h
      · next hloop =>
        cases h
        refine hs.of_core rfl ?_ ?_
        · rw [hloop]
          rfl
        · intro c hc
          cases hc
      · cases h
  | advance env =>
      simp only [step] at h
      split at h
      · next line id stage hloop =>
        simp only [Careful, hloop] at hok
        exact inv_advance hs hloop hok h
      · cases h
  | saveMessage turn disk =>
      obtain ⟨task, ht, h⟩ := act_cases h
      split at h
      · next hstage =>
        cases h
        have hdisk : disk = .saved := hok
        subst hdisk
        refine inv_write hs ht (by rw [hstage]; rfl) rfl rfl ?_ rfl
        simp only [Task.kept, hstage, List.nil_append]
      · cases h
  | draw turn event =>
      obtain ⟨task, ht, h⟩ := act_cases h
      split at h
      · cases h
        exact { hs with }
      · cases h
  | send i =>
      simp only [step] at h
      split at h
      · cases h
        exact { hs with }
      · cases h
  | finish turn result =>
      obtain ⟨task, ht, h⟩ := act_cases h
      split at h
      · next hstage =>
        split_ifs at h
        cases h
        have hlive : task.stage.live = true := by rw [hstage]; rfl
        cases result with
        | ok result =>
            refine inv_goOn hs ht hlive rfl rfl ?_ (fun _ => ⟨by rw [hstage]; rfl, rfl⟩)
            simp only [Task.kept, hstage]
        | error e =>
            refine inv_goOn hs ht hlive rfl rfl ?_ (fun hwrites => by cases hwrites)
            simp only [Task.kept, hstage]
            rfl
      · cases h
  | saveAnswer turn disk =>
      obtain ⟨task, ht, h⟩ := act_cases h
      split at h
      · next result hstage =>
        cases h
        have hdisk : disk = .saved := hok
        subst hdisk
        refine inv_write hs ht (by rw [hstage]; rfl) rfl rfl ?_ rfl
        simp only [Task.kept, hstage]
        rfl
      · cases h
  | respond turn =>
      obtain ⟨task, ht, h⟩ := act_cases h
      split at h
      · next result hstage =>
        cases h
        have hqueued : Inv { s with
            queue := s.queue ++ [Out.response task.line task.id (State.turnBody result)] } :=
          { hs with }
        refine inv_goOn hqueued ht (by rw [hstage]; rfl) rfl rfl ?_ (fun hwrites => by cases hwrites)
        simp only [Task.kept, hstage]
      · cases h
  | release turn =>
      obtain ⟨task, ht, h⟩ := act_cases h
      split at h
      · next result hstage =>
        cases h
        refine inv_release hs ht (by rw [hstage]; rfl) ?_
        simp only [Task.kept, hstage]
      · cases h
  | panic turn =>
      obtain ⟨task, ht, h⟩ := act_cases h
      split at h
      · next hstage =>
        cases h
        refine inv_release hs ht (by rw [hstage]; rfl) ?_
        simp only [Task.kept, hstage]
      · cases h
  | write =>
      simp only [step] at h
      split at h
      · cases h
        exact { hs with }
      · cases h
  | exit =>
      simp only [step] at h
      split at h
      · split_ifs at h
        cases h
        exact { hs with }
      · cases h

/-- In every run in which the marks are cleared while no turn runs, and taken with the
copy that the file holds, no message is lost. -/
theorem nothingLost_of_run {store : Store} {as : List Label}
    (h : Run step Careful (State.init store) as s) : NothingLost s :=
  nothingLost_of_inv (h.invariant (inv_init store) fun _ _ _ hs hok hstep =>
    inv_step hs hok hstep)

/-! ## Messages that are lost -/

/-- One conversation without messages. -/
def oneConversation : Store where
  files := fun c =>
    if c = 0 then some (.json ⟨0, some "a".toList, none, [], none⟩) else none
  named := by
    intro c conv h
    split_ifs at h with hc
    cases h
    exact hc.symm

/-- A line is read and handled in so many steps. -/
def request (method : Method) (steps : Nat) : List Label :=
  .read (.request none method) :: List.replicate steps (.advance {})

def start : List Label := request (.initializeServer (some ⟨1, none⟩)) 4

def chatSend (text : String) (steps : Nat) : List Label :=
  request (.chatSend (some ⟨⟨"0".toList, some 0⟩, text.toList, none⟩)) steps

def delete : List Label := request (.conversationsDelete (some ⟨"0".toList, some 0⟩)) 4

/-- The turn runs up to its answer. -/
def turn (t : Nat) (answer : String) : List Label :=
  [.saveMessage t .saved, .finish t (.ok ⟨answer.toList, []⟩)]

/-- The answer is saved and sent, and the mark is released. -/
def answer (t : Nat) : List Label := [.saveAnswer t .saved, .respond t, .release t]

/-- The second request loads the conversation before the answer of the first is saved. -/
def loadedEarly : List Label :=
  start ++ chatSend "q" 3 ++ turn 0 "A" ++ chatSend "r" 1 ++ answer 0 ++
    [.advance {}, .advance {}, .saveMessage 1 .saved]

def overwritten (s : State) : Bool :=
  s.base 0 == some [] && !s.deleted 0 &&
    s.files 0 == some (.json ⟨0, some "a".toList, none,
      [userMessage "q".toList, userMessage "r".toList], none⟩) &&
    s.contributions 0 == [userMessage "q".toList, ⟨"assistant".toList, "A".toList, none⟩,
      userMessage "r".toList]

/-- A second turn is accepted after a second `initialize`. -/
def initializedTwice : List Label :=
  start ++ chatSend "q" 3 ++ turn 0 "A" ++ start ++ chatSend "r" 3

def twoTurns (s : State) : Bool :=
  [0, 1].all fun t => (s.tasks t).any fun task => task.conversation == 0 && task.stage.unanswered

/-- The conversation is deleted while its turn runs. -/
def deletedEarly : List Label :=
  start ++ chatSend "q" 3 ++ turn 0 "A" ++ delete ++ answer 0

def cameBack (s : State) : Bool := s.deleted 0 && (s.files 0).isSome

/-- The next request comes when the first has been answered. -/
def askedEarly : List Label :=
  start ++ chatSend "q" 3 ++ turn 0 "A" ++ [.saveAnswer 0 .saved, .respond 0] ++ chatSend "r" 3

def refusedLate (s : State) : Bool := s.refusals == [(0, false)]

theorem lost_of_overwritten {s : State} (h : overwritten s = true) : ¬ NothingLost s := by
  intro hkept
  simp only [overwritten, Bool.and_eq_true, beq_iff_eq, Bool.not_eq_true'] at h
  obtain ⟨⟨⟨hbase, hdeleted⟩, hfile⟩, hcontributions⟩ := h
  obtain ⟨conv, hconv, hmessages⟩ := hkept.filed 0 [] hbase hdeleted
  rw [hfile, Option.some.injEq, File.json.injEq] at hconv
  rw [← hconv, hcontributions] at hmessages
  exact absurd hmessages (by decide)

theorem lost_of_twoTurns {s : State} (h : twoTurns s = true) : ¬ NothingLost s := by
  intro hkept
  simp only [twoTurns, List.all_cons, List.all_nil, Bool.and_true, Bool.and_eq_true] at h
  obtain ⟨a, ha, ha'⟩ := (Option.any_eq_true _ _).1 h.1
  obtain ⟨b, hb, hb'⟩ := (Option.any_eq_true _ _).1 h.2
  simp only [Bool.and_eq_true, beq_iff_eq] at ha' hb'
  have hsame := hkept.oneTurn 0 1 a b ha hb ha'.2 hb'.2 (ha'.1.trans hb'.1.symm)
  omega

theorem lost_of_cameBack {s : State} (h : cameBack s = true) : ¬ NothingLost s := by
  intro hkept
  simp only [cameBack, Bool.and_eq_true] at h
  have hnone := hkept.gone 0 h.1
  rw [hnone] at h
  cases h.2

theorem lost_of_refusedLate {s : State} (h : refusedLate s = true) : ¬ NothingLost s := by
  intro hkept
  have hrefusals := beq_iff_eq.1 h
  have htrue := hkept.refused (0, false) (by rw [hrefusals]; exact List.mem_cons_self)
  cases htrue

theorem exists_lost {as : List Label} (test : State → Bool)
    (h : (exec step free (State.init oneConversation) as).any test = true)
    (hlost : ∀ s, test s = true → ¬ NothingLost s) :
    ∃ s, Run step free (State.init oneConversation) as s ∧ test s = true ∧ ¬ NothingLost s := by
  obtain ⟨s, hrun, hs⟩ := Run.exists_of_exec test h
  exact ⟨s, hrun, hs, hlost s hs⟩

/-- An answer is overwritten, two turns run, a deleted conversation comes back, and a
request is refused after the turn has been answered. -/
theorem answer_is_overwritten :
    (∃ s, Run step free (State.init oneConversation) loadedEarly s ∧ overwritten s = true ∧
      ¬ NothingLost s) ∧
    (∃ s, Run step free (State.init oneConversation) initializedTwice s ∧ twoTurns s = true ∧
      ¬ NothingLost s) ∧
    (∃ s, Run step free (State.init oneConversation) deletedEarly s ∧ cameBack s = true ∧
      ¬ NothingLost s) ∧
    ∃ s, Run step free (State.init oneConversation) askedEarly s ∧ refusedLate s = true ∧
      ¬ NothingLost s :=
  ⟨exists_lost overwritten (by decide) fun _ => lost_of_overwritten,
    exists_lost twoTurns (by decide) fun _ => lost_of_twoTurns,
    exists_lost cameBack (by decide) fun _ => lost_of_cameBack,
    exists_lost refusedLate (by decide) fun _ => lost_of_refusedLate⟩

instance (s : State) (env : Env) (stage : Stage) : Decidable (CarefulStage s env stage) :=
  match stage with
  | .clearBusy _ => inferInstanceAs (Decidable (_ = _))
  | .handle (.conversationsDelete (some ⟨_, some _⟩)) => inferInstanceAs (Decidable (_ → _))
  | .handle (.conversationsDelete (some ⟨_, none⟩)) | .handle (.conversationsDelete none)
  | .handle (.initializeServer _) | .handle .shutdown | .handle (.conversationsGet _)
  | .handle (.conversationsCreate _) | .handle (.chatCancel _) | .handle (.chatSend _)
  | .handle .other | .handle (.unknown _) => isTrue trivial
  | .lock _ _ _ => inferInstanceAs (Decidable (_ ∧ _))
  | .clearSeq _ | .purgeSeq _ | .purgeBusy _ | .resolve _ _ _ | .respond _ => isTrue trivial

instance (s : State) (a : Label) : Decidable (Careful s a) :=
  match a with
  | .advance env =>
    match h : s.loop with
    | .handling _ _ stage =>
      decidable_of_iff (CarefulStage s env stage) (by simp only [Careful, h])
    | .waiting | .stopped => isTrue (by simp only [Careful, h])
  | .saveMessage _ _ | .saveAnswer _ _ => inferInstanceAs (Decidable (_ = _))
  | .read _ | .eof | .draw _ _ | .send _ | .finish _ _ | .respond _ | .release _ | .panic _
  | .write | .exit => isTrue trivial

/-- Two turns one after the other, with a request that is refused, and the conversation is
deleted at the end. -/
def inTurn : List Label :=
  start ++ chatSend "q" 3 ++ chatSend "p" 3 ++ turn 0 "A" ++ answer 0 ++ chatSend "r" 3 ++
    turn 1 "B" ++ answer 1 ++ delete

theorem nothingLost_kept : ∃ s, Run step Careful (State.init oneConversation) inTurn s ∧
    s.refusals = [(0, true)] ∧ NothingLost s := by
  obtain ⟨s, hrun, hs⟩ := Run.exists_of_exec (fun s : State => s.refusals == [(0, true)])
    (show (exec step Careful (State.init oneConversation) inTurn).any _ = true by decide)
  exact ⟨s, hrun, beq_iff_eq.1 hs, nothingLost_of_run hrun⟩

end Vanyline.Cli.Rpc
