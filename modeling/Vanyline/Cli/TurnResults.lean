import Vanyline.Cli.Tui

/-!
# A turn and its result

The loop of the chat pairs the question that it started last with the next outcome it
takes, and puts every event that it takes at the end of the transcript.  Neither an
outcome nor an event says which turn it is of.

`TurnsApart` says that the parts of a stored turn belong together, that an interrupted
turn is not stored, that one task runs at a time and is shown as running, and that
the events of a turn do not come after the message of a later one.

Aborting a task leaves what it has sent in the queues, so an outcome that was sent just
before `Ctrl+C` is stored, with the question of the next turn when that has been asked
(`outcome_meets_next_turn`); and the loop may take an outcome before the events that
were sent earlier.  `turnsApart_of_run` holds when a turn is not interrupted while an
outcome waits, and a message is not sent while events wait (`Orderly`).
-/

namespace Vanyline.Cli.Tui

open Vanyline.Lib

/-! ## The property -/

/-- The message of a turn is before the events of this turn and of later ones only. -/
def InOrder (a b : Mark) : Prop := ∀ m, a.user = some m → ∀ k ∈ b.events, m ≤ k

structure TurnsApart (s : State) : Prop where
  oneTask : ∀ t u, s.alive t = true → s.alive u = true → t = u
  ownQuestion : ∀ x ∈ s.saved, x.answer.turn = x.user.turn ∧ x.todo.turn = x.user.turn
  notInterrupted : ∀ x ∈ s.saved, s.interrupted x.user.turn = false ∧
    s.interrupted x.answer.turn = false
  running : ∀ t, s.alive t = true → s.state.status.isRunning = true
  inOrder : s.marks.Pairwise InOrder

/-! ## The condition -/

/-- An event that leaves the transcript as it is. -/
def silent : ChatEvent → Bool
  | .usage _ _ | .skillLoaded _ => true
  | _ => false

/-- The effects start a turn. -/
def startsTurn (effects : List Effect) : Bool :=
  effects.any fun
    | .startTurn _ => true
    | _ => false

/-- A turn is not interrupted while an outcome waits. -/
def Timely (s : State) : Label → Prop
  | .key .ctrlC => s.state.status.isRunning = true → s.turnRx = []
  | _ => True

/-- No turn is started while events wait that show in the transcript. -/
def Unhurried (s : State) : Label → Prop
  | .key .enter => startsTurn (submit s.state).2 = true → ∀ e ∈ s.agentRx, silent e.value = true
  | _ => True

def Orderly (s : State) (a : Label) : Prop := Timely s a ∧ Unhurried s a

/-! ## The transcript and its marks -/

section Marks

variable {turns : Nat} {event : Option Nat}

theorem length_remark (old new : Transcript) (marks : List Mark)
    (hlen : marks.length = old.length) (hle : old.length ≤ new.length) :
    (remark turns event old new marks).length = new.length := by
  induction old generalizing new marks with
  | nil => simp [remark]
  | cons before old ih =>
      cases new with
      | nil => simp at hle
      | cons item new =>
          cases marks with
          | nil => simp at hlen
          | cons mark marks =>
              simp only [remark, List.length_cons, Nat.add_right_cancel_iff]
              exact ih new marks (by simpa using hlen) (by simpa using hle)

/-- A mark is that of an item that was there, which the event may have touched, or that
of an added item. -/
theorem mem_remark {old new : Transcript} {marks : List Mark} {mark : Mark}
    (hlen : marks.length = old.length) (h : mark ∈ remark turns event old new marks) :
    (∃ mark' ∈ marks, mark = mark' ∨
        mark = { mark' with events := event.toList ++ mark'.events }) ∨
      ∃ item ∈ new.drop old.length,
        mark = ⟨if item.isUser then some turns else none, event.toList⟩ := by
  induction old generalizing new marks with
  | nil =>
      simp only [remark, List.mem_map] at h
      obtain ⟨item, hitem, rfl⟩ := h
      exact .inr ⟨item, hitem, rfl⟩
  | cons before old ih =>
      cases marks with
      | nil => simp at hlen
      | cons mark' marks =>
          cases new with
          | nil => simp [remark] at h
          | cons item new =>
              simp only [remark, List.mem_cons] at h
              rcases h with rfl | h
              · refine .inl ⟨mark', List.mem_cons_self, ?_⟩
                split_ifs
                · exact .inl rfl
                · exact .inr rfl
              · rcases ih (by simpa using hlen) h with ⟨mark'', hmem, hmark⟩ | hadded
                · exact .inl ⟨mark'', List.mem_cons_of_mem _ hmem, hmark⟩
                · exact .inr hadded

/-- The message of a mark is one that was there, or the turn that starts. -/
theorem user_remark {old new : Transcript} {marks : List Mark} {mark : Mark} {m : Nat}
    (hlen : marks.length = old.length) (h : mark ∈ remark turns event old new marks)
    (hm : mark.user = some m) : (∃ mark' ∈ marks, mark'.user = some m) ∨
      m = turns ∧ ∃ item ∈ new.drop old.length, item.isUser = true := by
  rcases mem_remark hlen h with ⟨mark', hmem, rfl | rfl⟩ | ⟨item, hitem, rfl⟩
  · exact .inl ⟨mark, hmem, hm⟩
  · exact .inl ⟨mark', hmem, hm⟩
  · simp only at hm
    split_ifs at hm with huser
    · simp only [Option.some.injEq] at hm
      exact .inr ⟨hm.symm, item, hitem, huser⟩

/-- The events that a mark notes were there before, or are those of the turn. -/
theorem events_remark {old new : Transcript} {marks : List Mark} {mark : Mark} {k : Nat}
    (hlen : marks.length = old.length) (h : mark ∈ remark turns event old new marks)
    (hk : k ∈ mark.events) : event = some k ∨ ∃ mark' ∈ marks, k ∈ mark'.events := by
  rcases mem_remark hlen h with ⟨mark', hmem, rfl | rfl⟩ | ⟨item, -, rfl⟩
  · exact .inr ⟨mark, hmem, hk⟩
  · rcases List.mem_append.1 hk with hk | hk
    · exact .inl (Option.mem_toList.1 hk)
    · exact .inr ⟨mark', hmem, hk⟩
  · exact .inl (Option.mem_toList.1 hk)

/-- The order stays when the event is of no earlier turn than the messages, and adds no
message. -/
theorem inOrder_remark {old new : Transcript} {marks : List Mark}
    (hlen : marks.length = old.length) (hmarks : marks.Pairwise InOrder)
    (hevent : ∀ k, event = some k → (∀ mark ∈ marks, ∀ m, mark.user = some m → m ≤ k) ∧
      ∀ item ∈ new.drop old.length, item.isUser = false) :
    (remark turns event old new marks).Pairwise InOrder := by
  induction old generalizing new marks with
  | nil =>
      simp only [remark, List.pairwise_map]
      apply List.pairwise_of_forall_mem_list
      intro a ha b _ m hm k hk
      have hnone := (hevent k (Option.mem_toList.1 hk)).2 a ha
      simp [hnone] at hm
  | cons before old ih =>
      cases marks with
      | nil => simp at hlen
      | cons mark marks =>
          cases new with
          | nil => simp [remark]
          | cons item new =>
              obtain ⟨hhead, hrest⟩ := List.pairwise_cons.1 hmarks
              simp only [remark, List.pairwise_cons]
              refine ⟨?_, ih (by simpa using hlen) hrest ?_⟩
              · intro b hb m hm k hk
                have hm' : mark.user = some m := by
                  split_ifs at hm
                  · exact hm
                  · exact hm
                rcases events_remark (by simpa using hlen) hb hk with hk | ⟨b', hb', hk⟩
                · exact (hevent k hk).1 mark List.mem_cons_self m hm'
                · exact hhead b' hb' m hm' k hk
              · intro k hk
                obtain ⟨hle, hadded⟩ := hevent k hk
                exact ⟨fun mark' hmem => hle mark' (List.mem_cons_of_mem _ hmem), hadded⟩

/-- A transcript that has not changed keeps its marks. -/
theorem remark_self (items : Transcript) (marks : List Mark) (hlen : marks.length = items.length) :
    remark turns event items items marks = marks := by
  induction items generalizing marks with
  | nil =>
      rw [List.length_eq_zero_iff.1 hlen]
      simp [remark]
  | cons item items ih =>
      cases marks with
      | nil => simp at hlen
      | cons mark marks =>
          simp only [remark, if_true, List.cons.injEq, true_and]
          exact ih marks (by simpa using hlen)

end Marks

/-! ## What a key does -/

/-- What a key can do: change the view, start a turn, interrupt one, or have another
effect. -/
inductive KeyResult (s : AppState) : Key → AppState → List Effect → Prop
  | view {key : Key} {next : AppState} (hgrows : Transcript.Grows s.transcript next.transcript)
      (hstatus : next.status = s.status) : KeyResult s key next []
  | start {next : AppState} {text : Text} (hidle : s.status = .idle)
      (htranscript : next.transcript = s.transcript ++ [.user text])
      (hstatus : next.status.isRunning = true) : KeyResult s .enter next [.startTurn text]
  | interrupt {next : AppState} (hrunning : s.status.isRunning = true)
      (htranscript : next.transcript = s.transcript ++ [.interrupted])
      (hstatus : next.status = .idle) : KeyResult s .ctrlC next [.cancelTurn]
  | quit {key : Key} {next : AppState} (htranscript : next.transcript = s.transcript)
      (hstatus : next.status = s.status) : KeyResult s key next [.quit]
  | newConversation {next : AppState} (hidle : s.status = .idle)
      (htranscript : next.transcript = s.transcript) (hstatus : next.status = s.status) :
      KeyResult s .enter next [.newConversation]
  | switchAgent {next : AppState} {agent : Text} (htranscript : next.transcript = s.transcript)
      (hstatus : next.status = s.status) : KeyResult s .enter next [.switchAgent agent]

section KeyResult

variable (s : AppState)

theorem sendMessage_result (hidle : s.status = .idle) (text : Text) :
    KeyResult s .enter (sendMessage s text).1 (sendMessage s text).2 :=
  .start hidle rfl rfl

theorem pushNotice_result (key : Key) (level : NoticeLevel) (text input : Text) :
    KeyResult s key (pushNotice { s with input } level text) [] :=
  .view (Transcript.grows_push rfl) rfl

theorem slashCommand_result (hidle : s.status = .idle) (line : Text) :
    KeyResult s .enter (slashCommand s line).1 (slashCommand s line).2 := by
  unfold slashCommand
  dsimp only
  split_ifs
  · exact pushNotice_result s .enter .info helpText []
  · exact .newConversation hidle rfl rfl
  · exact pushNotice_result s .enter .warn _ s.input
  · exact .switchAgent rfl rfl
  · exact .view (.of_eq rfl) rfl
  · exact .quit rfl rfl
  · exact pushNotice_result s .enter .warn _ []

theorem submit_result : KeyResult s .enter (submit s).1 (submit s).2 := by
  unfold submit
  split
  · exact pushNotice_result s .enter .warn _ s.input
  · next hidle =>
    split
    · exact .view (.of_eq rfl) rfl
    · exact sendMessage_result s hidle _
    · split_ifs
      · exact sendMessage_result s hidle _
      · exact slashCommand_result s hidle _
    · exact sendMessage_result s hidle _

theorem isUser_toggle (item : TranscriptItem) : (toggle item).isUser = item.isUser := by
  cases item <;> rfl

theorem toggleSelected_result (key : Key) : KeyResult s key (toggleSelected s) [] := by
  unfold toggleSelected
  split
  · next i _ =>
    refine .view (.of_eq ?_) rfl
    apply List.ext_getElem?
    intro j
    simp only [List.getElem?_map, List.getElem?_modify]
    cases s.transcript[j]? with
    | none => rfl
    | some item =>
        by_cases hij : i = j
        · simp [hij, isUser_toggle]
        · simp [hij]
  · exact .view (.of_eq rfl) rfl

theorem toggleAllReasoning_result (key : Key) : KeyResult s key (toggleAllReasoning s) [] := by
  refine .view (.of_eq ?_) rfl
  simp only [toggleAllReasoning, List.map_map]
  apply List.map_congr_left
  intro item _
  cases item <;> rfl

theorem moveSelection_result (key : Key) (forward : Bool) :
    KeyResult s key (moveSelection s forward) [] := by
  unfold moveSelection
  dsimp only
  split_ifs
  · exact .view (.of_eq rfl) rfl
  · exact .view (.of_eq rfl) rfl

/-- Every key does one of these. -/
theorem keyUpdate_result (key : Key) : KeyResult s key (keyUpdate s key).1 (keyUpdate s key).2 := by
  cases key with
  | ctrlC =>
      simp only [keyUpdate]
      split
      · next hrunning => exact .interrupt (by rw [hrunning]; rfl) rfl rfl
      · split_ifs
        · exact .view (.of_eq rfl) rfl
        · exact .quit rfl rfl
        · exact .view (.of_eq rfl) rfl
  | ctrlD input =>
      simp only [keyUpdate]
      split_ifs
      · exact .quit rfl rfl
      · exact .view (.of_eq rfl) rfl
  | enter => exact submit_result s
  | ctrlR => exact toggleAllReasoning_result s _
  | ctrlT => exact .view (.of_eq rfl) rfl
  | tab => exact moveSelection_result s _ true
  | backTab => exact moveSelection_result s _ false
  | space input =>
      simp only [keyUpdate]
      split_ifs
      · exact toggleSelected_result s _
      · exact .view (.of_eq rfl) rfl
  | type input => exact .view (.of_eq rfl) rfl
  | move input => exact .view (.of_eq rfl) rfl

end KeyResult

/-! ## The invariant of the turns -/

/-- What the loop has stored. -/
structure Kept (s : State) : Prop where
  lastTurn : s.lastTurn = none
  interrupted : ∀ t, s.interrupted t = true → t < s.turns
  saved : ∀ x ∈ s.saved, x.answer.turn = x.user.turn ∧ x.todo.turn = x.user.turn ∧
    x.user.turn < s.turns ∧ s.interrupted x.user.turn = false

/-- Between two steps the task in the slot is the one of the last turn and the only one
that runs, and the only outcome that waits is its outcome. -/
structure Turns (s : State) : Prop extends Kept s where
  alive : ∀ t, s.alive t = true → s.slot = some t
  slot : ∀ t, s.slot = some t → t + 1 = s.turns ∧ (∃ text, s.lastUser = some ⟨t, text⟩) ∧
    s.state.status.isRunning = true ∧ s.interrupted t = false ∧ ∀ x ∈ s.saved, x.user.turn ≠ t
  shown : s.quit = false → s.state.status.isRunning = true → s.slot ≠ none
  waiting : s.quit = false → s.turnRx = [] ∨
    ∃ t outcome, s.turnRx = [⟨t, outcome⟩] ∧ s.slot = some t ∧ s.alive t = false

variable {s : State}

/-- A state in which no turn is on its way. -/
theorem turns_of_rest (hs : Kept s) (hslot : s.slot = none) (halive : ∀ t, s.alive t = false)
    (hrest : s.quit = false → s.state.status = .idle ∧ s.turnRx = []) : Turns s :=
  { hs with
    alive := by
      intro t ht
      rw [halive t] at ht
      cases ht
    slot := by
      intro t ht
      rw [hslot] at ht
      cases ht
    shown := by
      intro hquit hrunning
      rw [(hrest hquit).1] at hrunning
      cases hrunning
    waiting := fun hquit => .inl (hrest hquit).2 }

theorem turns_init (session : Session) : Turns (State.init session) :=
  turns_of_rest
    { lastTurn := rfl
      interrupted := by simp [State.init]
      saved := by simp [State.init] }
    rfl (fun _ => rfl) fun _ => ⟨rfl, rfl⟩

/-- With nothing in the slot, no task runs. -/
theorem Turns.not_alive (hs : Turns s) (hslot : s.slot = none) (t : Nat) : s.alive t = false := by
  by_contra h
  have hsome := hs.alive t (by simpa using h)
  rw [hslot] at hsome
  cases hsome

/-- At rest, the slot is empty and no outcome waits. -/
theorem Turns.at_rest (hs : Turns s) (hquit : s.quit = false) (hidle : s.state.status = .idle) :
    s.slot = none ∧ s.turnRx = [] := by
  have hslot : s.slot = none := by
    by_contra h
    obtain ⟨t, ht⟩ := Option.ne_none_iff_exists'.1 h
    have hrunning := (hs.slot t ht).2.2.1
    rw [hidle] at hrunning
    cases hrunning
  refine ⟨hslot, ?_⟩
  rcases hs.waiting hquit with hempty | ⟨t, outcome, -, ht, -⟩
  · exact hempty
  · rw [hslot] at ht
    cases ht

/-- While the task runs, no outcome waits. -/
theorem Turns.nothing_waits (hs : Turns s) (hquit : s.quit = false) {turn : Nat}
    (halive : s.alive turn = true) : s.turnRx = [] := by
  rcases hs.waiting hquit with hempty | ⟨t, outcome, -, ht, hended⟩
  · exact hempty
  · have hslot := hs.alive turn halive
    rw [ht, Option.some.injEq] at hslot
    rw [hslot, halive] at hended
    cases hended

/-- When the task in the slot has ended, no task runs. -/
theorem Turns.all_ended (hs : Turns s) {turn : Nat} (hslot : s.slot = some turn)
    (hended : s.alive turn = false) (t : Nat) : s.alive t = false := by
  by_contra h
  have ht := hs.alive t (by simpa using h)
  rw [hslot, Option.some.injEq] at ht
  rw [← ht, hended] at h
  exact h rfl

/-- A change of the view that starts and ends no turn. -/
theorem Turns.view (hs : Turns s) {next : AppState} {marks : List Mark}
    (hstatus : next.status = s.state.status) : Turns { s with state := next, marks } :=
  { hs with
    slot := by
      intro t ht
      obtain ⟨hturn, hlast, hrunning, hrest⟩ := hs.slot t ht
      exact ⟨hturn, hlast, by rw [hstatus]; exact hrunning, hrest⟩
    shown := by
      intro hquit hrunning
      exact hs.shown hquit (by rw [← hstatus]; exact hrunning) }

theorem loopStep_eq (event : Option Nat) (action : Action) : s.loopStep event action =
    (update s.state action).2.foldl State.runEffect { s with
      state := (update s.state action).1
      marks := remark s.turns event s.state.transcript (update s.state action).1.transcript
        s.marks } := rfl

/-! ### Tasks that end -/

theorem alive_endTask (t u : Nat) : (s.endTask t).alive u = (decide (u ≠ t) && s.alive u) := by
  by_cases h : u = t
  · subst h
    cases htask : s.tasks u <;> simp [State.alive, State.endTask, htask]
  · simp [State.alive, State.endTask, h]

/-- Aborting the task in the slot changes the slot and the tasks only. -/
theorem cancel_eq : s.cancel = { s with slot := none, tasks := s.cancel.tasks } := by
  unfold State.cancel
  cases hslot : s.slot with
  | none => simp [← hslot]
  | some t => rfl

/-- After that no task runs. -/
theorem not_alive_cancel (halive : ∀ t, s.alive t = true → s.slot = some t) (t : Nat) :
    s.cancel.alive t = false := by
  have hdead : ∀ u, s.slot ≠ some u → s.alive u = false := by
    intro u hu
    by_contra h
    exact hu (halive u (by simpa using h))
  unfold State.cancel
  cases hslot : s.slot with
  | none => exact hdead t (by simp [hslot])
  | some u =>
      show (s.endTask u).alive t = false
      rw [alive_endTask]
      by_cases h : t = u
      · simp [h]
      · rw [hdead t (by rw [hslot]; simpa using fun h' => h h'.symm), Bool.and_false]

theorem Kept.cancel (hs : Kept s) : Kept s.cancel := by
  rw [cancel_eq]
  exact { hs with }

theorem slot_cancel : s.cancel.slot = none := by
  rw [cancel_eq]

theorem turns_cancel : s.cancel.turns = s.turns := by
  rw [cancel_eq]

theorem saved_cancel : s.cancel.saved = s.saved := by
  rw [cancel_eq]

/-! ### Keys -/

/-- A message is sent: its task takes the slot. -/
theorem turns_start (hs : Turns s) {next : AppState} {text : Text} {marks : List Mark}
    (hquit : s.quit = false) (hidle : s.state.status = .idle)
    (hstatus : next.status.isRunning = true) :
    Turns ({ s with state := next, marks }.startTurn text) := by
  obtain ⟨hslot, hempty⟩ := hs.at_rest hquit hidle
  simp only [State.startTurn, hslot]
  exact
    { lastTurn := hs.lastTurn
      interrupted := fun t ht => Nat.lt_succ_of_lt (hs.interrupted t ht)
      saved := by
        intro x hx
        obtain ⟨hanswer, htodo, hlt, hinterrupted⟩ := hs.saved x hx
        exact ⟨hanswer, htodo, Nat.lt_succ_of_lt hlt, hinterrupted⟩
      alive := by
        intro t ht
        by_contra hne
        have hne' : t ≠ s.turns := fun h => hne (by rw [h])
        simp only [State.alive, Function.update_of_ne hne'] at ht
        exact absurd ht (by simpa [State.alive] using hs.not_alive hslot t)
      slot := by
        intro t ht
        simp only [Option.some.injEq] at ht
        subst ht
        refine ⟨rfl, ⟨text, rfl⟩, hstatus, ?_, ?_⟩
        · by_contra h
          exact absurd (hs.interrupted s.turns (by simpa using h)) (Nat.lt_irrefl _)
        · intro x hx
          exact Nat.ne_of_lt (hs.saved x hx).2.2.1
      shown := by simp
      waiting := fun _ => .inl hempty }

/-- The user interrupts the turn, while its outcome does not wait. -/
theorem turns_interrupt (hs : Turns s) {next : AppState} {marks : List Mark}
    (hquit : s.quit = false) (hrunning : s.state.status.isRunning = true)
    (hempty : s.turnRx = []) (hstatus : next.status = .idle) :
    Turns (State.runEffect { s with state := next, marks } .cancelTurn) := by
  obtain ⟨t, ht⟩ := Option.ne_none_iff_exists'.1 (hs.shown hquit hrunning)
  obtain ⟨hturn, -, -, -, hfresh⟩ := hs.slot t ht
  let shown : State := { s with state := next, marks }
  have hshown : Kept shown := { hs.toKept with }
  have hkept : Kept shown.cancel := hshown.cancel
  have hlast : s.turns - 1 = t := by omega
  have hcancel : shown.cancel = { shown with slot := none, tasks := shown.cancel.tasks } := cancel_eq
  show Turns { shown.cancel with interrupted := Function.update s.interrupted (s.turns - 1) true }
  refine turns_of_rest { hkept with interrupted := ?_, saved := ?_ } slot_cancel
    (not_alive_cancel hs.alive) fun _ => ?_
  · intro u hu
    show u < shown.cancel.turns
    rw [turns_cancel]
    by_cases hut : u = t
    · show u < s.turns
      omega
    · simp only [hlast, Function.update_of_ne hut] at hu
      exact hs.interrupted u hu
  · intro x hx
    have hx' : x ∈ s.saved := by
      rw [saved_cancel] at hx
      exact hx
    obtain ⟨hanswer, htodo, hlt, hinterrupted⟩ := hs.saved x hx'
    refine ⟨hanswer, htodo, ?_, ?_⟩
    · rw [turns_cancel]
      exact hlt
    · simp only [hlast, Function.update_of_ne (hfresh x hx')]
      exact hinterrupted
  · rw [hcancel]
    exact ⟨hstatus, hempty⟩

/-- The loop ends, and aborts the task. -/
theorem turns_quit (hs : Turns s) : Turns { s.cancel with quit := true } :=
  turns_of_rest { hs.toKept.cancel with } slot_cancel (not_alive_cancel hs.alive) (by simp)

/-- A new conversation, while no turn is on its way. -/
theorem turns_newConversation (hs : Turns s) (hquit : s.quit = false)
    (hidle : s.state.status = .idle) : Turns s.newConversation := by
  obtain ⟨hslot, hempty⟩ := hs.at_rest hquit hidle
  exact turns_of_rest { hs.toKept with lastTurn := rfl } hslot (hs.not_alive hslot)
    fun _ => ⟨hidle, hempty⟩

/-- What comes of a key. -/
theorem turns_key (hs : Turns s) (hquit : s.quit = false) {key : Key}
    (hok : Timely s (.key key)) : Turns (s.loopStep none (.key key)) := by
  rw [loopStep_eq]
  show Turns ((keyUpdate s.state key).2.foldl _ _)
  have hresult := keyUpdate_result s.state key
  have hcancel : key = .ctrlC → s.state.status.isRunning = true → s.turnRx = [] := by
    intro hkey
    subst hkey
    exact hok
  simp only [update]
  generalize keyUpdate s.state key = result at *
  obtain ⟨next, effects⟩ := result
  cases hresult with
  | view _ hstatus => exact hs.view hstatus
  | start hidle _ hstatus => exact turns_start hs hquit hidle hstatus
  | interrupt hrunning _ hstatus =>
      exact turns_interrupt hs hquit hrunning (hcancel rfl hrunning) hstatus
  | quit _ hstatus => exact turns_quit (hs.view hstatus)
  | newConversation hidle _ hstatus =>
      exact turns_newConversation (hs.view hstatus) hquit (hstatus.trans hidle)
  | switchAgent _ hstatus => exact hs.view hstatus

/-! ### Events and outcomes -/

theorem agentUpdate_spec (state : AppState) (event : ChatEvent) :
    (agentUpdate state event).transcript = state.transcript.apply event ∧
      (agentUpdate state event).status = state.status := by
  unfold agentUpdate
  dsimp only
  split
  · split_ifs
    · exact ⟨rfl, rfl⟩
    · exact ⟨rfl, rfl⟩
  · exact ⟨rfl, rfl⟩
  · exact ⟨rfl, rfl⟩

/-- The turn has failed: an error is shown, and nothing is stored. -/
theorem turns_failed (hs : Turns s) (hdead : ∀ t, s.alive t = false) (e : Text) :
    Turns ({ s with slot := none, turnRx := [] }.loopStep none (.turnFinished (.error e))) :=
  turns_of_rest { hs.toKept with } rfl hdead fun _ => ⟨rfl, rfl⟩

/-- The turn that has succeeded is stored with its question. -/
theorem succeeded_eq {t : Nat} {text : Text} (hlast : s.lastUser = some ⟨t, text⟩)
    (answer : Message × Option Text) :
    { s with slot := none, turnRx := [], lastTurn := some ⟨t, answer⟩ }.loopStep none
        (.turnFinished (.ok ())) =
      { s with
        slot := none
        turnRx := []
        lastUser := none
        lastTurn := none
        conv := applyTurn s.conv text answer.1 answer.2
        saved := s.saved ++ [⟨s.conv.id, ⟨t, text⟩, ⟨t, answer.1⟩, ⟨t, answer.2⟩⟩]
        state := { s.state with status := .idle }
        marks := remark s.turns none s.state.transcript s.state.transcript s.marks } := by
  rw [loopStep_eq]
  simp only [update, List.foldl_cons, List.foldl_nil, State.runEffect, State.saveLastTurn, hlast]

theorem turns_succeeded (hs : Turns s) {t : Nat} (hslot : s.slot = some t)
    (hdead : ∀ t, s.alive t = false) (answer : Message × Option Text) :
    Turns ({ s with slot := none, turnRx := [], lastTurn := some ⟨t, answer⟩ }.loopStep none
      (.turnFinished (.ok ()))) := by
  obtain ⟨hturn, ⟨text, hlast⟩, -, hinterrupted, hfresh⟩ := hs.slot t hslot
  rw [succeeded_eq hlast]
  refine turns_of_rest { hs.toKept with lastTurn := rfl, saved := ?_ } rfl hdead
    fun _ => ⟨rfl, rfl⟩
  intro x hx
  rcases List.mem_append.1 hx with hx | hx
  · exact hs.saved x hx
  · rw [List.mem_singleton.1 hx]
    refine ⟨rfl, rfl, ?_, hinterrupted⟩
    show t < s.turns
    omega

/-- The outcome that the loop takes is that of the turn in the slot, whose task has
ended. -/
theorem Turns.outcome (hs : Turns s) (hquit : s.quit = false) {o : Of TurnOutcome}
    {rest : List (Of TurnOutcome)} (ho : s.turnRx = o :: rest) :
    rest = [] ∧ s.slot = some o.turn ∧ ∀ t, s.alive t = false := by
  rcases hs.waiting hquit with hempty | ⟨t, outcome, hwaiting, hslot, hended⟩
  · rw [hempty] at ho
    cases ho
  · rw [hwaiting] at ho
    cases ho
    exact ⟨rfl, hslot, hs.all_ended hslot hended⟩

theorem turns_takeOutcome (hs : Turns s) (hquit : s.quit = false) {o : Of TurnOutcome}
    {rest : List (Of TurnOutcome)} (ho : s.turnRx = o :: rest) :
    Turns ({ s with turnRx := rest }.takeOutcome o) := by
  obtain ⟨hrest, hslot, hdead⟩ := hs.outcome hquit ho
  subst hrest
  unfold State.takeOutcome
  dsimp only
  cases o.value.result with
  | ok result => exact turns_succeeded hs hslot hdead _
  | error e => exact turns_failed hs hdead e

/-- What the loop finds at the clock: nothing, an outcome that waits, or a task that has
ended without outcome. -/
theorem takeFinished_cases (reason : Text) : s.takeFinished reason = s ∨
    (∃ o rest, s.turnRx = o :: rest ∧
      s.takeFinished reason = { s with turnRx := rest }.takeOutcome o) ∨
    ∃ t, s.slot = some t ∧ s.alive t = false ∧ s.turnRx = [] ∧
      s.takeFinished reason =
        { s with slot := none, turnRx := [] }.loopStep none
          (.turnFinished (.error (State.endedText reason))) := by
  unfold State.takeFinished
  split
  · next t hslot =>
    split_ifs with halive
    · exact .inl rfl
    · split
      · next o rest ho => exact .inr (.inl ⟨o, rest, ho, rfl⟩)
      · next hempty =>
        exact .inr (.inr ⟨t, hslot, by simpa using halive, hempty, by rw [← hempty]⟩)
  · exact .inl rfl

/-- A task that has ended is noticed at the clock. -/
theorem turns_takeFinished (hs : Turns s) (hquit : s.quit = false) (reason : Text) :
    Turns (s.takeFinished reason) := by
  rcases takeFinished_cases reason with heq | ⟨o, rest, ho, heq⟩ | ⟨t, hslot, hended, -, heq⟩
  · rw [heq]
    exact hs
  · rw [heq]
    exact turns_takeOutcome hs hquit ho
  · rw [heq]
    exact turns_failed hs (hs.all_ended hslot hended) _

/-! ### Acts of the task -/

/-- An act is one of a task that runs. -/
theorem act_cases {t : State} {turn : Nat} {f : Task → State} (h : s.act turn f = some t) :
    ∃ task, s.tasks turn = some task ∧ s.alive turn = true ∧ t = f task := by
  unfold State.act at h
  split at h
  · next task htask =>
    split_ifs at h with halive
    · cases h
      exact ⟨task, htask, by simp [State.alive, htask, halive], rfl⟩
  · cases h

/-- The loop goes on while it has not ended. -/
theorem take_cases {t next : State} (h : s.take next = some t) : s.quit = false ∧ t = next := by
  unfold State.take at h
  split_ifs at h with hquit
  · cases h
    exact ⟨by simpa using hquit, rfl⟩

/-- The list of a task changes, and no task ends. -/
theorem turns_todowrite (hs : Turns s) {turn : Nat} {task : Task} (htask : s.tasks turn = some task)
    (task' : Task) (halive : task'.alive = task.alive) (shared : Option Text) :
    Turns { s with tasks := Function.update s.tasks turn (some task'), sharedTodo := shared } := by
  have hsame : ∀ t, ({ s with
      tasks := Function.update s.tasks turn (some task')
      sharedTodo := shared } : State).alive t = s.alive t := by
    intro t
    by_cases ht : t = turn
    · simp [State.alive, ht, htask, halive]
    · simp [State.alive, ht]
  exact
    { hs with
      alive := by
        intro t ht
        rw [hsame] at ht
        exact hs.alive t ht
      waiting := by
        intro hquit
        rcases hs.waiting hquit with hempty | ⟨t, outcome, hwaiting, hslot, hended⟩
        · exact .inl hempty
        · exact .inr ⟨t, outcome, hwaiting, hslot, by rw [hsame]; exact hended⟩ }

/-- The task of the turn ends, and sends its outcome or not. -/
theorem turns_endTask (hs : Turns s) {turn : Nat} (halive : s.alive turn = true)
    {waiting : List (Of TurnOutcome)}
    (hwaiting : waiting = [] ∨ ∃ outcome, waiting = [⟨turn, outcome⟩]) :
    Turns { s.endTask turn with turnRx := s.turnRx ++ waiting } := by
  have hslot := hs.alive turn halive
  have hend : ∀ t, ({ s.endTask turn with turnRx := s.turnRx ++ waiting } : State).alive t =
      (decide (t ≠ turn) && s.alive t) := alive_endTask turn
  refine
    { hs with
      alive := ?_
      waiting := ?_ }
  · intro t ht
    rw [hend, Bool.and_eq_true] at ht
    exact hs.alive t ht.2
  · intro hquit
    have hnothing : s.turnRx ++ waiting = waiting := by
      rw [hs.nothing_waits hquit halive, List.nil_append]
    rcases hwaiting with hempty | ⟨outcome, hwaiting⟩
    · exact .inl (hnothing.trans hempty)
    · refine .inr ⟨turn, outcome, hnothing.trans hwaiting, hslot, ?_⟩
      rw [hend]
      simp

theorem turns_step {t : State} {a : Label} (hs : Turns s) (hok : Timely s a)
    (h : step s a = some t) : Turns t := by
  cases a with
  | key key =>
      obtain ⟨hquit, rfl⟩ := take_cases h
      exact turns_key hs hquit hok
  | paste input =>
      obtain ⟨-, rfl⟩ := take_cases h
      exact hs.view rfl
  | event =>
      simp only [step] at h
      split at h
      · next e rest hevents =>
        obtain ⟨-, rfl⟩ := take_cases h
        have hrest : Turns { s with agentRx := rest } := { hs with }
        exact hrest.view (agentUpdate_spec s.state e.value).2
      · cases h
  | outcome =>
      simp only [step] at h
      split at h
      · next o rest ho =>
        obtain ⟨hquit, rfl⟩ := take_cases h
        exact turns_takeOutcome hs hquit ho
      · cases h
  | clock reason =>
      obtain ⟨hquit, rfl⟩ := take_cases h
      exact (turns_takeFinished hs hquit reason).view rfl
  | gitSummary summary =>
      obtain ⟨-, rfl⟩ := take_cases h
      exact hs.view rfl
  | stop =>
      obtain ⟨-, rfl⟩ := take_cases h
      exact turns_quit hs
  | emit turn event =>
      obtain ⟨task, -, -, rfl⟩ := act_cases h
      exact { hs with }
  | todowrite turn todos =>
      obtain ⟨task, htask, -, rfl⟩ := act_cases h
      exact turns_todowrite hs htask
        { task with todo := some todos, writes := task.writes ++ [todos] } rfl _
  | finish turn result =>
      obtain ⟨task, -, halive, rfl⟩ := act_cases h
      exact turns_endTask hs halive (.inr ⟨_, rfl⟩)
  | refused turn message =>
      simp only [step] at h
      split_ifs at h
      · obtain ⟨task, -, halive, rfl⟩ := act_cases h
        exact turns_endTask hs halive (.inr ⟨_, rfl⟩)
  | panic turn =>
      obtain ⟨task, -, halive, rfl⟩ := act_cases h
      have hended := turns_endTask hs halive (.inl rfl)
      rw [List.append_nil] at hended
      exact hended

/-! ## The invariant of the transcript -/

/-- The marks follow the transcript and are in order, and only events of the last turn
wait. -/
structure Shown (s : State) : Prop where
  marked : s.marks.length = s.state.transcript.length
  inOrder : s.marks.Pairwise InOrder
  users : ∀ mark ∈ s.marks, ∀ m, mark.user = some m → m < s.turns
  events : ∀ e ∈ s.agentRx, silent e.value = true ∨ e.turn + 1 = s.turns

theorem shown_init (session : Session) : Shown (State.init session) where
  marked := by simp [State.init]
  inOrder := by
    simp only [State.init, List.pairwise_map]
    apply List.pairwise_of_forall_mem_list
    intro a _ b _ m hm
    cases hm
  users := by simp [State.init]
  events := by simp [State.init]

/-- Nothing that the marks speak of changes. -/
theorem Shown.of_same (hs : Shown s) {t : State} (hmarks : t.marks = s.marks)
    (htranscript : t.state.transcript = s.state.transcript) (hturns : t.turns = s.turns)
    (hevents : t.agentRx = s.agentRx) : Shown t where
  marked := by
    rw [hmarks, htranscript]
    exact hs.marked
  inOrder := by
    rw [hmarks]
    exact hs.inOrder
  users := by
    rw [hmarks, hturns]
    exact hs.users
  events := by
    rw [hevents, hturns]
    exact hs.events

/-- Nothing is added for the user. -/
theorem Shown.view (hs : Shown s) {event : Option Nat} {next : AppState}
    (hgrows : Transcript.Grows s.state.transcript next.transcript)
    (hevent : ∀ k, event = some k → ∀ mark ∈ s.marks, ∀ m, mark.user = some m → m ≤ k) :
    Shown { s with
      state := next
      marks := remark s.turns event s.state.transcript next.transcript s.marks } :=
  { hs with
    marked := length_remark _ _ _ hs.marked hgrows.length_le
    inOrder := inOrder_remark hs.marked hs.inOrder fun k hk => ⟨hevent k hk, hgrows.not_user⟩
    users := by
      intro mark hmark m hm
      rcases user_remark hs.marked hmark hm with ⟨mark', hmem, hm'⟩ | ⟨-, item, hitem, huser⟩
      · exact hs.users mark' hmem m hm'
      · exact absurd huser (by simp [hgrows.not_user item hitem]) }

/-- A message is added at the end, with no event that shows behind it. -/
theorem shown_start (hs : Shown s) {next : AppState} {text : Text}
    (hsilent : ∀ e ∈ s.agentRx, silent e.value = true)
    (htranscript : next.transcript = s.state.transcript ++ [.user text]) :
    Shown ({ s with
      state := next
      marks := remark s.turns none s.state.transcript next.transcript s.marks }.startTurn text) := by
  have hle : s.state.transcript.length ≤ next.transcript.length := by
    rw [htranscript, List.length_append]
    omega
  have hstarted : Shown { s with
      state := next
      marks := remark s.turns none s.state.transcript next.transcript s.marks
      turns := s.turns + 1 } :=
    { marked := length_remark _ _ _ hs.marked hle
      inOrder := inOrder_remark hs.marked hs.inOrder (by simp)
      users := by
        intro mark hmark m hm
        rcases user_remark hs.marked hmark hm with ⟨mark', hmem, hm'⟩ | ⟨rfl, -⟩
        · exact Nat.lt_succ_of_lt (hs.users mark' hmem m hm')
        · exact Nat.lt_succ_self _
      events := fun e he => .inl (hsilent e he) }
  unfold State.startTurn
  dsimp only
  split
  · exact hstarted.of_same rfl rfl rfl rfl
  · exact hstarted.of_same rfl rfl rfl rfl

theorem shown_newConversation (hs : Shown s) : Shown s.newConversation where
  marked := rfl
  inOrder := .nil
  users := by
    intro mark hmark
    cases hmark
  events := hs.events

theorem Shown.cancel (hs : Shown s) : Shown s.cancel := by
  rw [cancel_eq]
  exact hs.of_same rfl rfl rfl rfl

/-- What comes of a key. -/
theorem shown_key (hs : Shown s) {key : Key} (hok : Unhurried s (.key key)) :
    Shown (s.loopStep none (.key key)) := by
  rw [loopStep_eq]
  show Shown ((keyUpdate s.state key).2.foldl _ _)
  have hresult := keyUpdate_result s.state key
  have hstart : key = .enter → startsTurn (keyUpdate s.state key).2 = true →
      ∀ e ∈ s.agentRx, silent e.value = true := by
    intro hkey
    subst hkey
    exact hok
  simp only [update]
  generalize keyUpdate s.state key = result at *
  obtain ⟨next, effects⟩ := result
  cases hresult with
  | view hgrows _ => exact hs.view hgrows (by simp)
  | start _ htranscript _ => exact shown_start hs (hstart rfl rfl) htranscript
  | interrupt _ htranscript _ =>
      have hgrows : Transcript.Grows s.state.transcript next.transcript := by
        rw [htranscript]
        exact Transcript.grows_push rfl
      exact (hs.view hgrows (by simp)).cancel.of_same rfl rfl rfl rfl
  | quit htranscript _ =>
      exact (hs.view (.of_eq (by rw [htranscript])) (by simp)).cancel.of_same rfl rfl rfl rfl
  | newConversation _ htranscript _ =>
      exact shown_newConversation (hs.view (.of_eq (by rw [htranscript])) (by simp))
  | switchAgent htranscript _ => exact hs.view (.of_eq (by rw [htranscript])) (by simp)

theorem apply_of_silent {event : ChatEvent} (h : silent event = true) (items : Transcript) :
    items.apply event = items := by
  cases event with
  | usage input output => rfl
  | skillLoaded name => rfl
  | _ => cases h

/-- The loop takes the next event. -/
theorem shown_event (hs : Shown s) {e : Of ChatEvent} {rest : List (Of ChatEvent)}
    (hevents : s.agentRx = e :: rest) :
    Shown ({ s with agentRx := rest }.loopStep (some e.turn) (.agent e.value)) := by
  have hrest : Shown { s with agentRx := rest } :=
    { hs with
      events := by
        intro e' he'
        exact hs.events e' (by rw [hevents]; exact List.mem_cons_of_mem _ he') }
  obtain ⟨htranscript, -⟩ := agentUpdate_spec s.state e.value
  rw [loopStep_eq]
  show Shown { s with
    agentRx := rest
    state := agentUpdate s.state e.value
    marks := remark s.turns (some e.turn) s.state.transcript
      (agentUpdate s.state e.value).transcript s.marks }
  rcases hs.events e (by rw [hevents]; exact List.mem_cons_self) with hsilent | hturn
  · rw [apply_of_silent hsilent] at htranscript
    refine hrest.of_same ?_ htranscript rfl rfl
    show remark s.turns (some e.turn) s.state.transcript
      (agentUpdate s.state e.value).transcript s.marks = s.marks
    rw [htranscript]
    exact remark_self _ _ hs.marked
  · refine hrest.view ?_ ?_
    · rw [htranscript]
      exact Transcript.apply_spec e.value s.state.transcript
    · intro k hk mark hmark m hm
      simp only [Option.some.injEq] at hk
      have hlt := hs.users mark hmark m hm
      omega

theorem shown_failed (hs : Shown s) {slot : Option Nat} {waiting : List (Of TurnOutcome)}
    (e : Text) :
    Shown ({ s with slot, turnRx := waiting }.loopStep none (.turnFinished (.error e))) := by
  have hgrows : Transcript.Grows s.state.transcript (s.state.transcript ++ [.notice .error e]) :=
    Transcript.grows_push rfl
  have hview : Shown { s with
      state := pushNotice { s.state with status := .idle } .error e
      marks := remark s.turns none s.state.transcript
        (s.state.transcript ++ [.notice .error e]) s.marks } := hs.view hgrows (by simp)
  exact hview.of_same rfl rfl rfl rfl

/-- The loop takes an outcome, whichever turn it is of. -/
theorem shown_takeOutcome (hs : Shown s) (o : Of TurnOutcome) (rest : List (Of TurnOutcome)) :
    Shown ({ s with turnRx := rest }.takeOutcome o) := by
  unfold State.takeOutcome
  dsimp only
  cases o.value.result with
  | ok result =>
      show Shown (State.loopStep _ _ _)
      rw [loopStep_eq]
      have hview : Shown { s with
          state := { s.state with status := .idle }
          marks := remark s.turns none s.state.transcript s.state.transcript s.marks } :=
        hs.view (.of_eq rfl) (by simp)
      simp only [update, List.foldl_cons, List.foldl_nil, State.runEffect, State.saveLastTurn]
      split
      · exact hview.of_same rfl rfl rfl rfl
      · exact hview.of_same rfl rfl rfl rfl
  | error e => exact shown_failed hs e

theorem shown_takeFinished (hs : Shown s) (reason : Text) : Shown (s.takeFinished reason) := by
  rcases takeFinished_cases reason with heq | ⟨o, rest, ho, heq⟩ | ⟨t, -, -, -, heq⟩
  · rw [heq]
    exact hs
  · rw [heq]
    exact shown_takeOutcome hs o rest
  · rw [heq]
    exact shown_failed hs _

theorem shown_step {t : State} {a : Label} (hturns : Turns s) (hs : Shown s)
    (hok : Unhurried s a) (h : step s a = some t) : Shown t := by
  cases a with
  | key key =>
      obtain ⟨-, rfl⟩ := take_cases h
      exact shown_key hs hok
  | paste input =>
      obtain ⟨-, rfl⟩ := take_cases h
      exact hs.view (.of_eq rfl) (by simp)
  | event =>
      simp only [step] at h
      split at h
      · next e rest hevents =>
        obtain ⟨-, rfl⟩ := take_cases h
        exact shown_event hs hevents
      · cases h
  | outcome =>
      simp only [step] at h
      split at h
      · next o rest ho =>
        obtain ⟨-, rfl⟩ := take_cases h
        exact shown_takeOutcome hs o rest
      · cases h
  | clock reason =>
      obtain ⟨-, rfl⟩ := take_cases h
      exact (shown_takeFinished hs reason).view (.of_eq rfl) (by simp)
  | gitSummary summary =>
      obtain ⟨-, rfl⟩ := take_cases h
      exact hs.view (.of_eq rfl) (by simp)
  | stop =>
      obtain ⟨-, rfl⟩ := take_cases h
      exact hs.cancel.of_same rfl rfl rfl rfl
  | emit turn event =>
      obtain ⟨task, -, halive, rfl⟩ := act_cases h
      refine { hs with events := ?_ }
      intro e he
      rcases List.mem_append.1 he with he | he
      · exact hs.events e he
      · rw [List.mem_singleton.1 he]
        exact .inr (hturns.slot turn (hturns.alive turn halive)).1
  | todowrite turn todos =>
      obtain ⟨task, -, -, rfl⟩ := act_cases h
      exact hs.of_same rfl rfl rfl rfl
  | finish turn result =>
      obtain ⟨task, -, -, rfl⟩ := act_cases h
      exact hs.of_same rfl rfl rfl rfl
  | refused turn message =>
      simp only [step] at h
      split_ifs at h
      · obtain ⟨task, -, -, rfl⟩ := act_cases h
        exact hs.of_same rfl rfl rfl rfl
  | panic turn =>
      obtain ⟨task, -, -, rfl⟩ := act_cases h
      exact hs.of_same rfl rfl rfl rfl

/-! ## Runs -/

structure Inv (s : State) : Prop extends Turns s, Shown s

theorem inv_step {t : State} {a : Label} (hs : Inv s) (hok : Orderly s a)
    (h : step s a = some t) : Inv t :=
  { turns_step hs.toTurns hok.1 h, shown_step hs.toTurns hs.toShown hok.2 h with }

theorem turnsApart_of_inv (hs : Inv s) : TurnsApart s where
  oneTask := by
    intro t u ht hu
    exact Option.some.inj ((hs.alive t ht).symm.trans (hs.alive u hu))
  ownQuestion := fun x hx => ⟨(hs.saved x hx).1, (hs.saved x hx).2.1⟩
  notInterrupted := by
    intro x hx
    obtain ⟨hanswer, -, -, hinterrupted⟩ := hs.saved x hx
    exact ⟨hinterrupted, by rw [hanswer, hinterrupted]⟩
  running := fun t ht => (hs.slot t (hs.alive t ht)).2.2.1
  inOrder := hs.inOrder

/-- In every run in which a turn is not interrupted while an outcome waits, and none is
started while events wait, every turn is stored with its own result. -/
theorem turnsApart_of_run {session : Session} {as : List Label} {t : State}
    (h : Run step Orderly (State.init session) as t) : TurnsApart t :=
  turnsApart_of_inv (h.invariant { turns_init session, shown_init session with }
    fun _ _ _ hs hok hstep => inv_step hs hok hstep)

/-! ## A result that comes too late -/

instance (s : State) (a : Label) : Decidable (Timely s a) :=
  match a with
  | .key .ctrlC => inferInstanceAs (Decidable (_ → _))
  | .key .enter | .key (.ctrlD _) | .key .ctrlR | .key .ctrlT | .key .tab | .key .backTab
  | .key (.space _) | .key (.type _) | .key (.move _) => isTrue trivial
  | .paste _ | .event | .outcome | .clock _ | .gitSummary _ | .stop | .emit _ _ | .todowrite _ _
  | .finish _ _ | .refused _ _ | .panic _ => isTrue trivial

instance (s : State) (a : Label) : Decidable (Unhurried s a) :=
  match a with
  | .key .enter => inferInstanceAs (Decidable (_ → _))
  | .key .ctrlC | .key (.ctrlD _) | .key .ctrlR | .key .ctrlT | .key .tab | .key .backTab
  | .key (.space _) | .key (.type _) | .key (.move _) => isTrue trivial
  | .paste _ | .event | .outcome | .clock _ | .gitSummary _ | .stop | .emit _ _ | .todowrite _ _
  | .finish _ _ | .refused _ _ | .panic _ => isTrue trivial

instance (s : State) (a : Label) : Decidable (Orderly s a) :=
  inferInstanceAs (Decidable (_ ∧ _))

/-- A session with an empty conversation, without toolbox. -/
def emptySession : Session := ⟨⟨0, none, none, [], none⟩, "a".toList, [], false⟩

/-- The user types a message and sends it. -/
def ask (text : Text) : List Label := [.key (.type text), .key .enter]

/-- The outcome of a turn is sent just before the turn is interrupted, and waits while
the next message is sent. -/
def lateOutcome : List Label :=
  ask "a".toList ++
    [.emit 0 (.token "x".toList), .finish 0 (.ok ⟨"A".toList, []⟩), .key .ctrlC] ++
    ask "b".toList ++ [.event, .outcome] ++ ask "c".toList

/-- Two tasks run; the question of the second turn is stored with the answer of the first,
which was interrupted, and an event of the first stands below that question. -/
def State.mixedUp (s : State) : Bool :=
  s.alive 1 && s.alive 2 && s.interrupted 0 &&
    (s.saved.map fun x => (x.user.turn, x.answer.turn)) == [(1, 0)] &&
    (s.marks.map fun mark => (mark.user, mark.events)) ==
      [(some 0, []), (none, []), (some 1, []), (none, [0]), (some 2, [])]

theorem outcome_meets_next_turn :
    ∃ t, Run step free (State.init emptySession) lateOutcome t ∧ t.mixedUp = true ∧
      ¬ TurnsApart t := by
  obtain ⟨t, hrun, ht⟩ := Run.exists_of_exec State.mixedUp
    (show (exec step free (State.init emptySession) lateOutcome).any State.mixedUp = true by
      decide)
  refine ⟨t, hrun, ht, ?_⟩
  intro happart
  simp only [State.mixedUp, Bool.and_eq_true] at ht
  have hsame := happart.oneTask 1 2 ht.1.1.1.1 ht.1.1.1.2
  omega

/-- Two turns one after the other, each of them stored before the next is sent. -/
theorem turnsApart_kept : ∃ t, Run step Orderly (State.init emptySession)
    (ask "a".toList ++ [.emit 0 (.token "x".toList), .event, .finish 0 (.ok ⟨"A".toList, []⟩),
      .outcome] ++ ask "b".toList ++ [.key .ctrlC] ++ ask "c".toList) t ∧
    t.saved.length = 1 ∧ TurnsApart t := by
  obtain ⟨t, hrun, ht⟩ := Run.exists_of_exec (fun t : State => decide (t.saved.length = 1))
    (show (exec step Orderly (State.init emptySession)
      (ask "a".toList ++ [.emit 0 (.token "x".toList), .event,
        .finish 0 (.ok ⟨"A".toList, []⟩), .outcome] ++ ask "b".toList ++ [.key .ctrlC] ++
        ask "c".toList)).any _ = true by decide)
  exact ⟨t, hrun, of_decide_eq_true ht, turnsApart_of_run hrun⟩

end Vanyline.Cli.Tui
