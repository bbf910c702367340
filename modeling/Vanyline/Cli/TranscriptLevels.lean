import Mathlib.Data.List.Forall2
import Vanyline.Cli.Tui

/-!
# What the transcript shows, agent by agent

The transcript is a tree: a sub-agent has items of its own.  A level is the list of items of one
agent, and is found by the places of the sub-agents on the way to it.

* `shown path items` is the text of a level, and `brings event items path` what an event of the
  turn has to say there: at the first sub-agent with its id, and at no other level.
* `shown_apply`: an event puts what it brings behind what each level shows, and changes nothing
  that stands before.
* `shown_run`: so it is for every run of the chat, whatever the keys, the events and the outcomes
  are.  Nothing that was shown is lost, moved, shown twice or shown at another agent.
* `subagent_shown`: a sub-agent shows the text of its own events, however those of the other
  agents are mixed in.
* `shown_conversation`: in the loop with its queues and tasks, only a new conversation takes text
  away.
-/

namespace Vanyline.Cli

/-! ## What a level shows -/

/-- What an item shows.  A text that can go on is shown character by character. -/
inductive Piece
  | asked (text : Text)
  | said (c : Char)
  | thought (c : Char)
  | called (id name args : Text)
  | started (id agent task : Text)
  | notice (level : NoticeLevel) (text : Text)
  | interrupted

namespace TranscriptItem

def pieces : TranscriptItem → List Piece
  | .user text => [.asked text]
  | .assistant text _ => text.map .said
  | .reasoning text _ => text.map .thought
  | .toolCall id name args _ _ _ => [.called id name args]
  | .subagent id agent task _ _ => [.started id agent task]
  | .notice level text => [.notice level text]
  | .interrupted => [.interrupted]

/-- The items of a sub-agent. -/
def inner : TranscriptItem → Option (List TranscriptItem)
  | .subagent _ _ _ items _ => some items
  | _ => none

def subagentId : TranscriptItem → Option Text
  | .subagent id _ _ _ _ => some id
  | _ => none

end TranscriptItem

namespace Transcript

def pieces (items : Transcript) : List Piece := items.flatMap TranscriptItem.pieces

/-- The items of the agent at the end of the path. -/
def level : List Nat → Transcript → Option Transcript
  | [], items => some items
  | i :: path, items => (items[i]?.bind TranscriptItem.inner).bind (level path)

/-- What the agent at the end of the path shows. -/
def shown : List Nat → Transcript → List Piece
  | [], items => items.pieces
  | i :: path, items => (items[i]?.bind TranscriptItem.inner).elim [] (shown path)

/-- The id of the sub-agent at the end of the path. -/
def agentAt : List Nat → Transcript → Option Text
  | [], _ => none
  | [i], items => items[i]?.bind TranscriptItem.subagentId
  | i :: j :: path, items => (items[i]?.bind TranscriptItem.inner).bind (agentAt (j :: path))

/-- The way to the first sub-agent with the id. -/
def findSubagent (id : Text) : Transcript → Option (List Nat)
  | [] => none
  | .subagent sid _ _ items _ :: rest =>
      if sid = id then some [0]
      else
        match findSubagent id items with
        | some path => some (0 :: path)
        | none => (findSubagent id rest).map (List.modifyHead (· + 1))
  | .user _ :: rest => (findSubagent id rest).map (List.modifyHead (· + 1))
  | .assistant _ _ :: rest => (findSubagent id rest).map (List.modifyHead (· + 1))
  | .reasoning _ _ :: rest => (findSubagent id rest).map (List.modifyHead (· + 1))
  | .toolCall _ _ _ _ _ _ :: rest => (findSubagent id rest).map (List.modifyHead (· + 1))
  | .notice _ _ :: rest => (findSubagent id rest).map (List.modifyHead (· + 1))
  | .interrupted :: rest => (findSubagent id rest).map (List.modifyHead (· + 1))

/-- The way to the sub-agent with the id within an item. -/
def findIn (id : Text) : TranscriptItem → Option (List Nat)
  | .subagent sid _ _ items _ => if sid = id then some [] else findSubagent id items
  | _ => none

/-- What an event of an agent brings to the agent at the end of the path. -/
def bringsNested : ChatEvent → Transcript → List Nat → List Piece
  | .token content, _, [] => content.map .said
  | .reasoningDelta content, _, [] => content.map .thought
  | .toolCall id name args, _, [] => [.called id name args.text]
  | .subagentStart id agent task, _, [] => [.started id agent task]
  | .error code message, _, [] => [.notice .error (errorText code message)]
  | .toolUnavailable server reason, _, [] => [.notice .warn (unavailableText server reason)]
  | .subagentEvent id event, items, path =>
      match findSubagent id items with
      | some place =>
        if place.isPrefixOf path then
          bringsNested event ((level place items).getD []) (path.drop place.length)
        else []
      | none => []
  | _, _, _ => []

/-- What an event of the turn brings.  The result of a sub-agent is only shown from here: an
event within a sub-agent does not bring it. -/
def brings : ChatEvent → Transcript → List Nat → List Piece
  | .subagentEnd id result, items, path =>
      if agentAt path items = some id then result.map .said else []
  | event, items, path => bringsNested event items path

/-! ## Changes of single items -/

/-- What an item shows at the end of a path that starts in it. -/
def inside (path : List Nat) (item : TranscriptItem) : List Piece := item.inner.elim [] (shown path)

theorem shown_cons (i : Nat) (path : List Nat) (items : Transcript) :
    shown (i :: path) items = items[i]?.elim [] (inside path) := by
  show (items[i]?.bind TranscriptItem.inner).elim [] (shown path) = _
  cases items[i]? <;> rfl

theorem pieces_append (front back : Transcript) :
    pieces (front ++ back) = pieces front ++ pieces back := List.flatMap_append

/-- The item shows the same, at every path into it, and has the same sub-agents. -/
structure Kept (old new : TranscriptItem) : Prop where
  pieces : new.pieces = old.pieces
  inside : ∀ path, inside path new = inside path old
  found : ∀ id, findIn id new = findIn id old

theorem Kept.refl (item : TranscriptItem) : Kept item item := ⟨rfl, fun _ => rfl, fun _ => rfl⟩

theorem findSubagent_cons (id : Text) (item : TranscriptItem) (rest : Transcript) :
    findSubagent id (item :: rest) =
      ((findIn id item).map (0 :: ·)).or
        ((findSubagent id rest).map (List.modifyHead (· + 1))) := by
  cases item with
  | subagent sid agent task items done =>
      rw [findSubagent, findIn]
      split_ifs
      · rfl
      · cases findSubagent id items <;> rfl
  | _ =>
      rw [findSubagent]
      rfl

theorem findSubagent_congr {id : Text} {old new : Transcript}
    (h : List.Forall₂ (fun old new => findIn id new = findIn id old) old new) :
    findSubagent id new = findSubagent id old := by
  induction h with
  | nil => rfl
  | cons hfound _ ih => rw [findSubagent_cons, findSubagent_cons, hfound, ih]

theorem findSubagent_append {id : Text} {more : Transcript}
    (h : ∀ item ∈ more, findIn id item = none) (items : Transcript) :
    findSubagent id (items ++ more) = findSubagent id items := by
  have hmore : findSubagent id more = none := by
    induction more with
    | nil => rw [findSubagent]
    | cons item more ih =>
        rw [findSubagent_cons, h item List.mem_cons_self,
          ih fun item hitem => h item (List.mem_cons_of_mem _ hitem)]
        rfl
  induction items with
  | nil => rw [List.nil_append, hmore, findSubagent]
  | cons item items ih => rw [List.cons_append, findSubagent_cons, findSubagent_cons, ih]

theorem findSubagent_of_kept {old new : Transcript} (h : List.Forall₂ Kept old new) (id : Text) :
    findSubagent id new = findSubagent id old :=
  findSubagent_congr (h.imp fun _ _ hkept => hkept.found id)

theorem shown_of_kept {old new : Transcript} (h : List.Forall₂ Kept old new) (path : List Nat) :
    shown path new = shown path old := by
  cases path with
  | nil =>
      show pieces new = pieces old
      induction h with
      | nil => rfl
      | cons hkept _ ih =>
          show _ ++ pieces _ = _ ++ pieces _
          rw [hkept.pieces, ih]
  | cons i path =>
      rw [shown_cons, shown_cons]
      induction h generalizing i with
      | nil => rfl
      | cons hkept _ ih =>
          cases i with
          | zero => exact hkept.inside path
          | succ i => exact ih i

theorem kept_subagent {id agent task : Text} {items items' : Transcript} {done done' : Bool}
    (h : List.Forall₂ Kept items items') :
    Kept (.subagent id agent task items done) (.subagent id agent task items' done') := by
  refine ⟨rfl, shown_of_kept h, fun sid => ?_⟩
  rw [findIn, findIn, findSubagent_of_kept h]

theorem kept_map {f : TranscriptItem → TranscriptItem} (h : ∀ item, Kept item (f item))
    (items : Transcript) : List.Forall₂ Kept items (items.map f) := by
  rw [List.forall₂_map_right_iff, List.forall₂_same]
  exact fun item _ => h item

theorem kept_modify {f : TranscriptItem → TranscriptItem} (h : ∀ item, Kept item (f item))
    (items : Transcript) (i : Nat) : List.Forall₂ Kept items (items.modify i f) := by
  induction items generalizing i with
  | nil =>
      rw [List.modify_nil]
      exact .nil
  | cons item items ih =>
      cases i with
      | zero => exact .cons (h item) (List.forall₂_same.2 fun item _ => .refl item)
      | succ i => exact .cons (.refl item) (ih i)

/-- The last item goes on; nothing is shown in it. -/
theorem shown_last {items : Transcript} {last item : TranscriptItem} {more : List Piece}
    (hlast : items.getLast? = some last) (hpieces : item.pieces = last.pieces ++ more)
    (hold : last.inner = none) (hnew : item.inner = none) (path : List Nat) :
    shown path (items.dropLast ++ [item]) = shown path items ++ if path = [] then more else [] := by
  obtain ⟨front, rfl⟩ := List.getLast?_eq_some_iff.1 hlast
  rw [List.dropLast_concat]
  cases path with
  | nil =>
      show pieces _ = pieces _ ++ more
      rw [pieces_append, pieces_append, List.append_assoc]
      congr 1
      show item.pieces ++ [] = (last.pieces ++ []) ++ more
      rw [List.append_nil, List.append_nil, hpieces]
  | cons i path =>
      have hinside : inside path item = inside path last := by
        unfold inside
        rw [hold, hnew]
      rw [shown_cons, shown_cons, if_neg (List.cons_ne_nil i path), List.append_nil]
      by_cases hlt : i < front.length
      · rw [List.getElem?_append_left hlt, List.getElem?_append_left hlt]
      · rw [List.getElem?_append_right (by omega), List.getElem?_append_right (by omega)]
        cases i - front.length with
        | zero => exact hinside
        | succ j => rfl

/-- A new item, in which nothing is shown yet. -/
theorem shown_push {items : Transcript} {item : TranscriptItem} (h : ∀ path, inside path item = [])
    (path : List Nat) :
    shown path (items ++ [item]) = shown path items ++ if path = [] then item.pieces else [] := by
  cases path with
  | nil =>
      show pieces _ = pieces _ ++ item.pieces
      rw [pieces_append]
      congr 1
      exact List.append_nil _
  | cons i path =>
      rw [shown_cons, shown_cons, if_neg (List.cons_ne_nil i path), List.append_nil]
      by_cases hlt : i < items.length
      · rw [List.getElem?_append_left hlt]
      · rw [List.getElem?_append_right (by omega),
          List.getElem?_eq_none (show items.length ≤ i by omega)]
        cases i - items.length with
        | zero => exact h path
        | succ j => rfl

/-! ## The operations -/

theorem shown_pushToken (items : Transcript) (content : Text) (path : List Nat) :
    shown path (pushToken items content) =
      shown path items ++ if path = [] then content.map .said else [] := by
  unfold pushToken
  split
  · next text hlast =>
    refine shown_last hlast ?_ rfl rfl path
    exact List.map_append
  · exact shown_push (fun _ => rfl) path

theorem shown_pushReasoning (items : Transcript) (content : Text) (path : List Nat) :
    shown path (pushReasoning items content) =
      shown path items ++ if path = [] then content.map .thought else [] := by
  unfold pushReasoning
  split
  · next text expanded hlast =>
    refine shown_last hlast ?_ rfl rfl path
    exact List.map_append
  · exact shown_push (fun _ => rfl) path

theorem shown_closeOpenBlocks (items : Transcript) (path : List Nat) :
    shown path (closeOpenBlocks items) = shown path items := by
  unfold closeOpenBlocks
  split
  · next text done hlast =>
    have hsame := (List.append_nil (TranscriptItem.assistant text true).pieces).symm
    have hlevel := shown_last hlast hsame rfl rfl path
    rw [ite_self, List.append_nil] at hlevel
    exact hlevel
  · rfl

/-- A result is attached to its call, which shows the same call. -/
theorem kept_attachResult (id result : Text) (isError : Bool) (items : Transcript) :
    List.Forall₂ Kept items (attachResult id result isError items) := by
  fun_induction attachResult id result isError items with
  | case1 => exact .nil
  | case2 name args slot flag expanded rest =>
      exact .cons ⟨rfl, fun _ => rfl, fun _ => rfl⟩ (List.forall₂_same.2 fun item _ => .refl item)
  | case3 tid name args slot flag expanded rest hne ih => exact .cons (.refl _) ih
  | case4 sid agent task items done rest ihitems ihrest =>
      exact .cons (kept_subagent ihitems) ihrest
  | case5 text rest ih => exact .cons (.refl _) ih
  | case6 text done rest ih => exact .cons (.refl _) ih
  | case7 text expanded rest ih => exact .cons (.refl _) ih
  | case8 level text rest ih => exact .cons (.refl _) ih
  | case9 rest ih => exact .cons (.refl _) ih

/-! ### The items of a sub-agent -/

/-- Change the items of the agent at the end of the path. -/
def modifyAt : List Nat → (Transcript → Transcript) → Transcript → Transcript
  | [], f, items => f items
  | i :: path, f, items =>
      items.modify i fun
        | .subagent id agent task inner done => .subagent id agent task (modifyAt path f inner) done
        | item => item

/-- The search finds the sub-agent whose items the source changes. -/
def Found (id : Text) (f : Transcript → Transcript) (items : Transcript) : Prop :=
  (findSubagent id items = none ∧ updateSubagent id f items = none) ∨
    ∃ i path sub, findSubagent id items = some (i :: path) ∧
      level (i :: path) items = some sub ∧ agentAt (i :: path) items = some id ∧
      updateSubagent id f items = some (modifyAt (i :: path) f items)

/-- The sub-agent is in the items behind. -/
theorem found_behind {id : Text} {f : Transcript → Transcript} {item : TranscriptItem}
    {rest : Transcript}
    (hfind : findSubagent id (item :: rest) = (findSubagent id rest).map (List.modifyHead (· + 1)))
    (hupdate : updateSubagent id f (item :: rest) = (updateSubagent id f rest).map (item :: ·))
    (h : Found id f rest) : Found id f (item :: rest) := by
  rcases h with ⟨hnone, hnone'⟩ | ⟨i, path, sub, hsome, hlevel, hagent, hsome'⟩
  · left
    rw [hfind, hupdate, hnone, hnone']
    exact ⟨rfl, rfl⟩
  · right
    rw [hfind, hupdate, hsome, hsome']
    refine ⟨i + 1, path, sub, rfl, hlevel, ?_, rfl⟩
    cases path <;> exact hagent

theorem found (id : Text) (f : Transcript → Transcript) (items : Transcript) :
    Found id f items := by
  fun_induction updateSubagent id f items with
  | case1 => exact .inl ⟨by simp only [findSubagent], by simp only [updateSubagent]⟩
  | case2 agent task items done rest =>
      refine .inr ⟨0, [], items, ?_, rfl, rfl, ?_⟩
      · rw [findSubagent, if_pos rfl]
      · rw [updateSubagent, if_pos rfl]
        rfl
  | case3 sid agent task items done rest hne items' hitems ih =>
      rcases ih with ⟨-, hnone⟩ | ⟨i, path, sub, hsome, hlevel, hagent, hsome'⟩
      · rw [hitems] at hnone
        cases hnone
      · refine .inr ⟨0, i :: path, sub, ?_, hlevel, hagent, ?_⟩
        · rw [findSubagent, if_neg hne, hsome]
        · rw [updateSubagent, if_neg hne, hsome']
          rfl
  | case4 sid agent task items done rest hne hitems ih ihrest =>
      rcases ih with ⟨hnone, -⟩ | ⟨i, path, sub, -, -, -, hsome⟩
      · refine found_behind ?_ ?_ ihrest
        · rw [findSubagent, if_neg hne, hnone]
        · rw [updateSubagent, if_neg hne, hitems]
      · rw [hitems] at hsome
        cases hsome
  | case5 text rest ih =>
      exact found_behind (by simp only [findSubagent]) (by simp only [updateSubagent]) ih
  | case6 text done rest ih =>
      exact found_behind (by simp only [findSubagent]) (by simp only [updateSubagent]) ih
  | case7 text expanded rest ih =>
      exact found_behind (by simp only [findSubagent]) (by simp only [updateSubagent]) ih
  | case8 tid name args slot flag expanded rest ih =>
      exact found_behind (by simp only [findSubagent]) (by simp only [updateSubagent]) ih
  | case9 level text rest ih =>
      exact found_behind (by simp only [findSubagent]) (by simp only [updateSubagent]) ih
  | case10 rest ih =>
      exact found_behind (by simp only [findSubagent]) (by simp only [updateSubagent]) ih

theorem shown_level {place : List Nat} {items sub : Transcript} (h : level place items = some sub)
    (path : List Nat) : shown (place ++ path) items = shown path sub := by
  induction place generalizing items with
  | nil =>
      obtain rfl := Option.some.inj h
      rfl
  | cons i place ih =>
      obtain ⟨inner, hinner, hlevel⟩ := Option.bind_eq_some_iff.1 h
      show (items[i]?.bind TranscriptItem.inner).elim [] (shown (place ++ path)) = _
      rw [hinner]
      exact ih hlevel

theorem pieces_modify {g : TranscriptItem → TranscriptItem}
    (hg : ∀ item, (g item).pieces = item.pieces) (items : Transcript) (i : Nat) :
    pieces (items.modify i g) = pieces items := by
  induction items generalizing i with
  | nil => rw [List.modify_nil]
  | cons item items ih =>
      cases i with
      | zero =>
          show (g item).pieces ++ _ = item.pieces ++ _
          rw [hg]
      | succ i =>
          show item.pieces ++ pieces (items.modify i g) = item.pieces ++ pieces items
          rw [ih]

/-- Below the place the new items are shown, and elsewhere what was. -/
theorem shown_modifyAt {place : List Nat} {items sub : Transcript}
    (h : level place items = some sub) (f : Transcript → Transcript) (path : List Nat) :
    shown path (modifyAt place f items) =
      if place.isPrefixOf path then shown (path.drop place.length) (f sub)
      else shown path items := by
  induction place generalizing items path with
  | nil =>
      obtain rfl := Option.some.inj h
      rfl
  | cons i place ih =>
      obtain ⟨inner, hinner, hlevel⟩ := Option.bind_eq_some_iff.1 h
      obtain ⟨item, hitem, hsub⟩ := Option.bind_eq_some_iff.1 hinner
      cases path with
      | nil =>
          refine pieces_modify (fun item => ?_) items i
          cases item <;> rfl
      | cons j path =>
          rw [shown_cons, shown_cons, List.isPrefixOf_cons_cons]
          by_cases hij : i = j
          · subst hij
            rw [beq_self_eq_true, Bool.true_and, modifyAt, List.getElem?_modify_eq, hitem]
            cases item with
            | subagent id agent task items' done =>
                obtain rfl := Option.some.inj hsub
                exact ih hlevel path
            | _ => cases hsub
          · rw [beq_false_of_ne hij, Bool.false_and, if_neg Bool.false_ne_true, modifyAt,
              List.getElem?_modify_ne _ _ hij]

/-! ### The end of a sub-agent -/

/-- What the end of the sub-agent makes of an item. -/
def ended (id result : Text) : TranscriptItem → TranscriptItem
  | .subagent sid agent task items done =>
      if sid = id then
        .subagent sid agent task
          (if result = [] then markSubagentDone id result items
          else pushToken (closeOpenBlocks (markSubagentDone id result items)) result) true
      else .subagent sid agent task (markSubagentDone id result items) done
  | item => item

theorem markSubagentDone_eq_map (id result : Text) (items : Transcript) :
    markSubagentDone id result items = items.map (ended id result) := by
  induction items with
  | nil => simp only [markSubagentDone, List.map_nil]
  | cons item items ih =>
      cases item <;> simp only [markSubagentDone, List.map_cons, ended, ih]

/-- The result comes behind what the sub-agent shows, and not behind what its own ones do. -/
theorem inside_ended (id result sid agent task : Text) (items : Transcript) (done : Bool)
    (path : List Nat) :
    inside path (ended id result (.subagent sid agent task items done)) =
      shown path (markSubagentDone id result items) ++
        if sid = id ∧ path = [] then result.map .said else [] := by
  by_cases hid : sid = id
  · by_cases hresult : result = []
    · rw [ended, if_pos hid, if_pos hresult, hresult, List.map_nil, ite_self, List.append_nil]
      rfl
    · rw [ended, if_pos hid, if_neg hresult]
      show shown path (pushToken _ _) = _
      rw [shown_pushToken, shown_closeOpenBlocks]
      simp only [hid, true_and]
  · rw [ended, if_neg hid, if_neg (fun h => hid h.1), List.append_nil]
    rfl

theorem shown_markSubagentDone (id result : Text) (items : Transcript) (path : List Nat) :
    shown path (markSubagentDone id result items) =
      shown path items ++ if agentAt path items = some id then result.map .said else [] := by
  induction path generalizing items with
  | nil =>
      rw [agentAt, if_neg (fun h => nomatch h), List.append_nil, markSubagentDone_eq_map]
      show (items.map (ended id result)).flatMap _ = items.flatMap _
      rw [List.flatMap_map]
      congr 1
      funext item
      cases item with
      | subagent sid agent task inner done =>
          simp only [ended]
          split_ifs <;> rfl
      | _ => rfl
  | cons i path ih =>
      rw [shown_cons, shown_cons, markSubagentDone_eq_map, List.getElem?_map]
      cases hitem : items[i]? with
      | none =>
          have hagent : agentAt (i :: path) items = none := by
            cases path <;> simp only [agentAt, hitem, Option.bind_none]
          rw [hagent, if_neg (fun h => nomatch h)]
          rfl
      | some item =>
          cases item with
          | subagent sid agent task inner done =>
              show inside path (ended id result _) = shown path inner ++ _
              rw [inside_ended, ih inner, List.append_assoc]
              congr 1
              cases path with
              | nil =>
                  simp only [agentAt, hitem, Option.bind_some, TranscriptItem.subagentId,
                    Option.some.injEq, and_true, reduceCtorEq, if_false, List.nil_append]
              | cons j path =>
                  simp only [agentAt, hitem, Option.bind_some, TranscriptItem.inner,
                    reduceCtorEq, and_false, if_false, List.append_nil]
          | _ =>
              have hagent : agentAt (i :: path) items = none := by
                cases path <;> simp only [agentAt, hitem, Option.bind_some] <;> rfl
              rw [hagent, if_neg (fun h => nomatch h)]
              rfl

/-! ## What an event brings -/

theorem shown_applyNested (event : ChatEvent) (items : Transcript) (path : List Nat) :
    shown path (applyNested event items) = shown path items ++ bringsNested event items path := by
  induction event generalizing items path with
  | token content =>
      rw [applyNested, shown_pushToken]
      cases path <;> rfl
  | reasoningDelta content =>
      rw [applyNested, shown_pushReasoning]
      cases path <;> rfl
  | toolCall id name args =>
      rw [applyNested, shown_push fun _ => rfl]
      cases path <;> rfl
  | toolResult id name result isError =>
      rw [applyNested, shown_of_kept (kept_attachResult id result isError items)]
      exact (List.append_nil _).symm
  | skillLoaded name => exact (List.append_nil _).symm
  | subagentStart id agent task =>
      rw [applyNested, shown_push fun path => by cases path <;> rfl]
      cases path <;> rfl
  | subagentEvent id event ih =>
      rcases found id (applyNested event) items with
        ⟨hnone, hnone'⟩ | ⟨i, place, sub, hsome, hlevel, -, hsome'⟩
      · rw [applyNested, bringsNested, hnone, hnone']
        exact (List.append_nil _).symm
      · have hbrings : bringsNested (.subagentEvent id event) items path =
            if (i :: place).isPrefixOf path then
              bringsNested event sub (path.drop (i :: place).length)
            else [] := by
          rw [bringsNested, hsome]
          show (if _ then bringsNested event ((level (i :: place) items).getD []) _ else _) = _
          rw [hlevel, Option.getD_some]
        rw [hbrings, applyNested, hsome', Option.getD_some, shown_modifyAt hlevel]
        by_cases hprefix : (i :: place).isPrefixOf path = true
        · obtain ⟨rest, rfl⟩ := List.isPrefixOf_iff_prefix.1 hprefix
          rw [if_pos hprefix, if_pos hprefix, ih, shown_level hlevel, List.drop_left]
        · rw [if_neg hprefix, if_neg hprefix, List.append_nil]
  | subagentEnd id result =>
      rw [applyNested, shown_of_kept (kept_map (fun item => ?_) items)]
      · exact (List.append_nil _).symm
      · cases item <;> exact ⟨rfl, fun _ => rfl, fun _ => rfl⟩
  | usage input output => exact (List.append_nil _).symm
  | done =>
      rw [applyNested, shown_closeOpenBlocks]
      exact (List.append_nil _).symm
  | error code message =>
      rw [applyNested, shown_push fun _ => rfl]
      cases path <;> rfl
  | toolUnavailable server reason =>
      rw [applyNested, shown_push fun _ => rfl]
      cases path <;> rfl

/-- What an event brings stands behind what each agent shows; nothing else changes. -/
theorem shown_apply (event : ChatEvent) (items : Transcript) (path : List Nat) :
    shown path (apply event items) = shown path items ++ brings event items path := by
  cases event with
  | subagentEnd id result => exact shown_markSubagentDone id result items path
  | _ => exact shown_applyNested _ items path

/-! ## Sub-agents side by side -/

/-- The event starts a sub-agent with the id, at some depth. -/
def starts (id : Text) : ChatEvent → Bool
  | .subagentStart sid _ _ => sid = id
  | .subagentEvent _ event => starts id event
  | _ => false

/-- What a sub-agent with the id has to say by the event: an event within it that is its own, or
its result. -/
def ownText (id : Text) : ChatEvent → List Piece
  | .subagentEvent sid event => if sid = id then bringsNested event [] [] else []
  | .subagentEnd sid result => if sid = id then result.map .said else []
  | _ => []

theorem findSubagent_push {id : Text} {item : TranscriptItem} (items : Transcript)
    (h : findIn id item = none) : findSubagent id (items ++ [item]) = findSubagent id items := by
  refine findSubagent_append ?_ items
  intro other hother
  rw [List.mem_singleton.1 hother, h]

theorem findSubagent_last {id : Text} {items : Transcript} {last item : TranscriptItem}
    (hlast : items.getLast? = some last) (hold : findIn id last = none)
    (hnew : findIn id item = none) :
    findSubagent id (items.dropLast ++ [item]) = findSubagent id items := by
  obtain ⟨front, rfl⟩ := List.getLast?_eq_some_iff.1 hlast
  rw [List.dropLast_concat, findSubagent_push front hnew, findSubagent_push front hold]

theorem findSubagent_pushToken (id : Text) (items : Transcript) (content : Text) :
    findSubagent id (pushToken items content) = findSubagent id items := by
  unfold pushToken
  split
  · next text hlast => exact findSubagent_last hlast rfl rfl
  · exact findSubagent_push items rfl

theorem findSubagent_pushReasoning (id : Text) (items : Transcript) (content : Text) :
    findSubagent id (pushReasoning items content) = findSubagent id items := by
  unfold pushReasoning
  split
  · next text expanded hlast => exact findSubagent_last hlast rfl rfl
  · exact findSubagent_push items rfl

theorem findSubagent_closeOpenBlocks (id : Text) (items : Transcript) :
    findSubagent id (closeOpenBlocks items) = findSubagent id items := by
  unfold closeOpenBlocks
  split
  · next text done hlast => exact findSubagent_last hlast rfl rfl
  · rfl

theorem findSubagent_modifyAt {id : Text} {f : Transcript → Transcript}
    (hf : ∀ items, findSubagent id (f items) = findSubagent id items) (place : List Nat)
    (items : Transcript) : findSubagent id (modifyAt place f items) = findSubagent id items := by
  induction place generalizing items with
  | nil => exact hf items
  | cons i place ih =>
      rw [modifyAt]
      refine findSubagent_congr ?_
      induction items generalizing i with
      | nil =>
          rw [List.modify_nil]
          exact .nil
      | cons item items ihitems =>
          cases i with
          | zero =>
              refine .cons ?_ (List.forall₂_same.2 fun item _ => rfl)
              cases item with
              | subagent sid agent task inner done => simp only [findIn, ih]
              | _ => rfl
          | succ i => exact .cons rfl (ihitems i)

theorem findSubagent_markSubagentDone (id sid result : Text) (items : Transcript) :
    findSubagent id (markSubagentDone sid result items) = findSubagent id items := by
  refine findSubagent_congr ?_
  fun_induction markSubagentDone sid result items with
  | case1 => exact .nil
  | case2 tid agent task items done rest items' ihitems ihrest =>
      refine .cons ?_ ihrest
      have hitems : findSubagent id items' = findSubagent id items := findSubagent_congr ihitems
      split_ifs
      · simp only [findIn, hitems]
      · simp only [findIn, findSubagent_pushToken, findSubagent_closeOpenBlocks, hitems]
      · simp only [findIn, hitems]
  | case3 text rest ih => exact .cons rfl ih
  | case4 text done rest ih => exact .cons rfl ih
  | case5 text expanded rest ih => exact .cons rfl ih
  | case6 tid name args slot flag expanded rest ih => exact .cons rfl ih
  | case7 level text rest ih => exact .cons rfl ih
  | case8 rest ih => exact .cons rfl ih

theorem findSubagent_applyNested {id : Text} {event : ChatEvent} (h : starts id event = false)
    (items : Transcript) : findSubagent id (applyNested event items) = findSubagent id items := by
  induction event generalizing items with
  | token content => exact findSubagent_pushToken id items content
  | reasoningDelta content => exact findSubagent_pushReasoning id items content
  | toolCall tid name args => exact findSubagent_push items rfl
  | toolResult tid name result isError =>
      exact findSubagent_of_kept (kept_attachResult tid result isError items) id
  | subagentStart sid agent task =>
      refine findSubagent_push items ?_
      rw [findIn, if_neg (of_decide_eq_false h), findSubagent]
  | subagentEvent sid event ih =>
      rcases found sid (applyNested event) items with
        ⟨-, hnone⟩ | ⟨i, place, sub, -, -, -, hsome⟩
      · rw [applyNested, hnone, Option.getD_none]
      · rw [applyNested, hsome, Option.getD_some]
        exact findSubagent_modifyAt (ih h) _ items
  | subagentEnd sid result =>
      refine findSubagent_of_kept (kept_map (fun item => ?_) items) id
      cases item <;> exact ⟨rfl, fun _ => rfl, fun _ => rfl⟩
  | done => exact findSubagent_closeOpenBlocks id items
  | error code message => exact findSubagent_push items rfl
  | toolUnavailable server reason => exact findSubagent_push items rfl
  | _ => rfl

/-- A sub-agent stays where it is, as long as no other one starts with its id. -/
theorem findSubagent_apply {id : Text} {event : ChatEvent} (h : starts id event = false)
    (items : Transcript) : findSubagent id (apply event items) = findSubagent id items := by
  cases event with
  | subagentEnd sid result => exact findSubagent_markSubagentDone id sid result items
  | _ => exact findSubagent_applyNested h items

/-- What an event says at the agent that it is for does not depend on the items. -/
theorem bringsNested_nil (event : ChatEvent) (items : Transcript) :
    bringsNested event items [] = bringsNested event [] [] := by
  cases event with
  | subagentEvent id event =>
      rcases found id (fun items => items) items with
        ⟨hnone, -⟩ | ⟨i, place, sub, hsome, -, -, -⟩
      · rw [bringsNested, bringsNested, hnone, findSubagent]
      · rw [bringsNested, bringsNested, hsome, findSubagent]
        rfl
  | _ => rfl

theorem brings_subagent {id : Text} {i : Nat} {items : Transcript}
    (h : findSubagent id items = some [i]) (event : ChatEvent) :
    brings event items [i] = ownText id event := by
  obtain ⟨sub, hlevel, hagent⟩ :
      ∃ sub, level [i] items = some sub ∧ agentAt [i] items = some id := by
    rcases found id (fun items => items) items with
      ⟨hnone, -⟩ | ⟨j, path, sub, hsome, hlevel, hagent, -⟩
    · rw [h] at hnone
      cases hnone
    · obtain ⟨rfl, rfl⟩ := List.cons.inj (Option.some.inj (h.symm.trans hsome))
      exact ⟨sub, hlevel, hagent⟩
  cases event with
  | subagentEvent sid event =>
      show bringsNested (.subagentEvent sid event) items [i] = ownText id (.subagentEvent sid event)
      rw [bringsNested, ownText]
      by_cases hsid : sid = id
      · subst hsid
        rw [h, if_pos rfl]
        show (if [i].isPrefixOf [i] then _ else _) = _
        rw [if_pos (List.isPrefixOf_iff_prefix.2 (List.prefix_refl [i]))]
        exact bringsNested_nil event _
      · rw [if_neg hsid]
        rcases found sid (fun items => items) items with
          ⟨hnone, -⟩ | ⟨j, path, other, hsome, -, hother, -⟩
        · rw [hnone]
        · rw [hsome]
          refine if_neg fun hprefix => hsid ?_
          -- the only way that goes to the place is the place itself
          obtain ⟨rfl, hpath⟩ := List.cons_prefix_cons.1 (List.isPrefixOf_iff_prefix.1 hprefix)
          obtain rfl := List.prefix_nil.1 hpath
          exact Option.some.inj (hother.symm.trans hagent)
  | subagentEnd sid result =>
      rw [brings, ownText, hagent]
      simp only [Option.some.injEq, eq_comm]
  | _ => rfl

end Transcript

/-! ## Runs of the chat -/

namespace Tui

open Transcript Vanyline.Lib

/-- The items show what they did, and those that are new at the end have no items. -/
def Appends (old new : Transcript) : Prop :=
  ∃ base more, List.Forall₂ Kept old base ∧ (∀ item ∈ more, item.inner = none) ∧
    new = base ++ more

/-- What an action brings to the agent at the end of the path. -/
def broughtBy : List Nat → AppState → Action → List Piece
  | path, s, .agent event => brings event s.transcript path
  | [], s, action => pieces ((update s action).1.transcript.drop s.transcript.length)
  | _, _, _ => []

/-- What a list of actions brings, each in the state that it finds. -/
def brought (path : List Nat) : AppState → List Action → List Piece
  | _, [] => []
  | s, action :: actions => broughtBy path s action ++ brought path (update s action).1 actions

theorem appends_of_kept {old new : Transcript} (h : List.Forall₂ Kept old new) : Appends old new :=
  ⟨new, [], h, List.forall_mem_nil _, (List.append_nil _).symm⟩

theorem appends_rfl (items : Transcript) : Appends items items :=
  appends_of_kept (List.forall₂_same.2 fun item _ => .refl item)

theorem appends_push {item : TranscriptItem} (items : Transcript) (h : item.inner = none) :
    Appends items (items ++ [item]) := by
  refine ⟨items, [item], List.forall₂_same.2 fun item _ => .refl item, ?_, rfl⟩
  intro other hother
  rw [List.mem_singleton.1 hother, h]

theorem shown_of_appends {old new : Transcript} (h : Appends old new) (path : List Nat) :
    shown path new =
      shown path old ++ if path = [] then pieces (new.drop old.length) else [] := by
  obtain ⟨base, more, hbase, hmore, rfl⟩ := h
  rw [hbase.length_eq, List.drop_left, ← shown_of_kept hbase]
  cases path with
  | nil =>
      rw [if_pos rfl]
      exact pieces_append base more
  | cons i path =>
      rw [shown_cons, shown_cons, if_neg (List.cons_ne_nil i path), List.append_nil]
      by_cases hlt : i < base.length
      · rw [List.getElem?_append_left hlt]
      · rw [List.getElem?_append_right (by omega),
          List.getElem?_eq_none (show base.length ≤ i by omega)]
        cases hitem : more[i - base.length]? with
        | none => rfl
        | some item =>
            show inside path item = []
            rw [inside, hmore item (List.mem_of_getElem? hitem)]
            rfl

theorem appends_slashCommand (s : AppState) (line : Text) :
    Appends s.transcript (slashCommand s line).1.transcript := by
  unfold slashCommand
  dsimp only
  split_ifs
  · exact appends_push _ rfl
  · exact appends_rfl _
  · exact appends_push _ rfl
  · exact appends_rfl _
  · exact appends_rfl _
  · exact appends_rfl _
  · exact appends_push _ rfl

theorem appends_submit (s : AppState) : Appends s.transcript (submit s).1.transcript := by
  unfold submit
  split
  · exact appends_push _ rfl
  · split
    · exact appends_rfl _
    · exact appends_push _ rfl
    · split_ifs
      · exact appends_push _ rfl
      · exact appends_slashCommand s _
    · exact appends_push _ rfl

theorem appends_toggleAllReasoning (s : AppState) :
    Appends s.transcript (toggleAllReasoning s).transcript := by
  apply appends_of_kept
  refine kept_map (fun item => ?_) s.transcript
  cases item <;> exact ⟨rfl, fun _ => rfl, fun _ => rfl⟩

theorem appends_toggleSelected (s : AppState) :
    Appends s.transcript (toggleSelected s).transcript := by
  unfold toggleSelected
  split
  · next i hselected =>
    apply appends_of_kept
    refine kept_modify (fun item => ?_) s.transcript i
    cases item <;> exact ⟨rfl, fun _ => rfl, fun _ => rfl⟩
  · exact appends_rfl _

theorem appends_keyUpdate (s : AppState) (key : Key) :
    Appends s.transcript (keyUpdate s key).1.transcript := by
  cases key with
  | ctrlC =>
      simp only [keyUpdate]
      split
      · exact appends_push _ rfl
      · split_ifs <;> exact appends_rfl _
  | ctrlD input =>
      simp only [keyUpdate]
      split_ifs <;> exact appends_rfl _
  | enter => exact appends_submit s
  | ctrlR => exact appends_toggleAllReasoning s
  | tab =>
      simp only [keyUpdate, moveSelection]
      split_ifs <;> exact appends_rfl _
  | backTab =>
      simp only [keyUpdate, moveSelection]
      split_ifs <;> exact appends_rfl _
  | space input =>
      simp only [keyUpdate]
      split_ifs
      · exact appends_toggleSelected s
      · exact appends_rfl _
  | _ => exact appends_rfl _

theorem transcript_agentUpdate (s : AppState) (event : ChatEvent) :
    (agentUpdate s event).transcript = s.transcript.apply event := by
  unfold agentUpdate
  cases event with
  | toolCall id name args =>
      dsimp only
      split_ifs <;> rfl
  | _ => rfl

theorem appends_update (s : AppState) {action : Action} (h : ∀ event, action ≠ .agent event) :
    Appends s.transcript (update s action).1.transcript := by
  cases action with
  | key key => exact appends_keyUpdate s key
  | agent event => exact absurd rfl (h event)
  | turnFinished result =>
      cases result with
      | ok _ => exact appends_rfl _
      | error e => exact appends_push _ rfl
  | _ => exact appends_rfl _

/-- Every action adds what it brings, at every agent. -/
theorem shown_update (s : AppState) (action : Action) (path : List Nat) :
    shown path (update s action).1.transcript =
      shown path s.transcript ++ broughtBy path s action := by
  by_cases hagent : ∃ event, action = .agent event
  · obtain ⟨event, rfl⟩ := hagent
    show shown path (agentUpdate s event).transcript = _
    rw [transcript_agentUpdate]
    exact shown_apply event s.transcript path
  · have hother : ∀ event, action ≠ .agent event := fun event h => hagent ⟨event, h⟩
    rw [shown_of_appends (appends_update s hother)]
    congr 1
    cases action with
    | agent event => exact absurd rfl (hother event)
    | _ => cases path <;> rfl

/-- Over any run of the chat, each agent shows what it did, and behind it, in order, what the
actions of the run bring there. -/
theorem shown_run (s : AppState) (actions : List Action) (path : List Nat) :
    shown path (actions.foldl (fun s action => (update s action).1) s).transcript =
      shown path s.transcript ++ brought path s actions := by
  induction actions generalizing s with
  | nil => exact (List.append_nil _).symm
  | cons action actions ih =>
      rw [List.foldl_cons, ih, shown_update, List.append_assoc]
      rfl

/-- What an action brings to the sub-agent with the id. -/
def ownTextOf (id : Text) : Action → List Piece
  | .agent event => ownText id event
  | _ => []

def startsOf (id : Text) : Action → Bool
  | .agent event => starts id event
  | _ => false

theorem findSubagent_update {id : Text} {s : AppState} {action : Action}
    (h : startsOf id action = false) :
    findSubagent id (update s action).1.transcript = findSubagent id s.transcript := by
  by_cases hagent : ∃ event, action = .agent event
  · obtain ⟨event, rfl⟩ := hagent
    show findSubagent id (agentUpdate s event).transcript = _
    rw [transcript_agentUpdate]
    exact findSubagent_apply h s.transcript
  · obtain ⟨base, more, hbase, hmore, hnew⟩ := appends_update s fun event h => hagent ⟨event, h⟩
    rw [hnew, ← findSubagent_of_kept hbase]
    refine findSubagent_append (fun item hitem => ?_) base
    have hinner := hmore item hitem
    cases item with
    | subagent sid agent task items done => cases hinner
    | _ => rfl

/-- A sub-agent of the turn shows the text of its own events, in their order, whatever the other
agents do in between. -/
theorem subagent_shown {id : Text} {i : Nat} {s : AppState} {actions : List Action}
    (h : findSubagent id s.transcript = some [i])
    (hfresh : ∀ action ∈ actions, startsOf id action = false) :
    shown [i] (actions.foldl (fun s action => (update s action).1) s).transcript =
      shown [i] s.transcript ++ actions.flatMap (ownTextOf id) := by
  induction actions generalizing s with
  | nil => exact (List.append_nil _).symm
  | cons action actions ih =>
      have hfind := findSubagent_update (hfresh action List.mem_cons_self) (s := s)
      rw [List.foldl_cons, List.flatMap_cons, ih (hfind.trans h)
        fun action haction => hfresh action (List.mem_cons_of_mem _ haction), shown_update,
        List.append_assoc]
      congr 2
      cases action with
      | agent event => exact brings_subagent h event
      | _ => rfl

/-- Two sub-agents that take turns, with a key of the user in between. -/
theorem subagent_shown_mixed :
    shown [0] ([.agent (.subagentEvent ['a'] (.token ['x'])),
      .agent (.subagentEvent ['b'] (.token ['y'])), .key .tab,
      .agent (.subagentEnd ['a'] ['z'])].foldl (fun s action => (update s action).1)
        { AppState.new [] 0 none with
          transcript :=
            [.subagent ['a'] [] [] [] false, .subagent ['b'] [] [] [] false] }).transcript =
      [.said 'x', .said 'z'] :=
  (subagent_shown (by rw [findSubagent, if_pos rfl]) (by decide)).trans rfl

/-! ## Runs of the loop -/

/-- The loop goes on with its conversation, where everything stays, or has begun a new one. -/
def Moves (s t : State) : Prop :=
  s.conversations ≤ t.conversations ∧
    ((t.conv.id = s.conv.id ∧
        ∀ path, shown path s.state.transcript <+: shown path t.state.transcript) ∨
      (s.conversations ≤ t.conv.id ∧ t.conv.id < t.conversations))

theorem Moves.of_eq {s t : State} (hconv : t.conv.id = s.conv.id)
    (hcount : t.conversations = s.conversations)
    (htranscript : t.state.transcript = s.state.transcript) : Moves s t := by
  refine ⟨Nat.le_of_eq hcount.symm, .inl ⟨hconv, fun path => ?_⟩⟩
  exact htranscript ▸ List.prefix_refl _

theorem Moves.trans {s t u : State} (h : Moves s t) (h' : Moves t u) : Moves s u := by
  obtain ⟨hcount, hst⟩ := h
  obtain ⟨hcount', htu⟩ := h'
  refine ⟨Nat.le_trans hcount hcount', ?_⟩
  rcases htu with ⟨hconv', hshown'⟩ | ⟨hnew, hlt⟩
  · rcases hst with ⟨hconv, hshown⟩ | ⟨hnew, hlt⟩
    · exact .inl ⟨hconv'.trans hconv, fun path => (hshown path).trans (hshown' path)⟩
    · right
      omega
  · right
    omega

theorem Moves.after {s t u : State} (h : Moves t u) (hconv : t.conv.id = s.conv.id)
    (hcount : t.conversations = s.conversations)
    (htranscript : t.state.transcript = s.state.transcript) : Moves s u :=
  .trans (.of_eq hconv hcount htranscript) h

theorem moves_endTask (s : State) (turn : Nat) : Moves s (s.endTask turn) := .of_eq rfl rfl rfl

theorem moves_cancel (s : State) : Moves s s.cancel := by
  unfold State.cancel
  split <;> exact .of_eq rfl rfl rfl

theorem moves_runEffect (s : State) (effect : Effect) : Moves s (s.runEffect effect) := by
  cases effect with
  | startTurn text =>
      simp only [State.runEffect, State.startTurn]
      split <;> exact .of_eq rfl rfl rfl
  | cancelTurn => exact (moves_cancel s).trans (.of_eq rfl rfl rfl)
  | save =>
      simp only [State.runEffect, State.saveLastTurn]
      split <;> exact .of_eq rfl rfl rfl
  | quit => exact (moves_cancel s).trans (.of_eq rfl rfl rfl)
  | newConversation =>
      refine ⟨Nat.le_succ _, .inr ⟨Nat.le_refl _, Nat.lt_succ_self _⟩⟩
  | _ => exact .of_eq rfl rfl rfl

theorem moves_loopStep (s : State) (event : Option Nat) (action : Action) :
    Moves s (s.loopStep event action) := by
  have heffects : ∀ (effects : List Effect) (s : State),
      Moves s (effects.foldl State.runEffect s) := by
    intro effects
    induction effects with
    | nil => exact fun s => .of_eq rfl rfl rfl
    | cons effect effects ih => exact fun s => (moves_runEffect s effect).trans (ih _)
  refine .trans ?_ (heffects _ _)
  refine ⟨Nat.le_refl _, .inl ⟨rfl, fun path => ?_⟩⟩
  show _ <+: shown path (update s.state action).1.transcript
  rw [shown_update]
  exact List.prefix_append _ _

theorem moves_takeOutcome (s : State) (outcome : Of TurnOutcome) :
    Moves s (s.takeOutcome outcome) := by
  unfold State.takeOutcome
  dsimp only
  split
  · exact (moves_loopStep _ none _).after rfl rfl rfl
  · exact (moves_loopStep _ none _).after rfl rfl rfl

theorem moves_takeFinished (s : State) (reason : Text) : Moves s (s.takeFinished reason) := by
  unfold State.takeFinished
  split
  · split_ifs
    · exact .of_eq rfl rfl rfl
    · split
      · exact (moves_takeOutcome _ _).after rfl rfl rfl
      · exact (moves_loopStep _ none _).after rfl rfl rfl
  · exact .of_eq rfl rfl rfl

theorem moves_take {s next t : State} (hnext : s.take next = some t) (h : Moves s next) :
    Moves s t := by
  unfold State.take at hnext
  split_ifs at hnext
  exact Option.some.inj hnext ▸ h

theorem moves_act {s t : State} {turn : Nat} {f : Task → State} (hnext : s.act turn f = some t)
    (h : ∀ task, Moves s (f task)) : Moves s t := by
  unfold State.act at hnext
  split at hnext
  · split_ifs at hnext
    exact Option.some.inj hnext ▸ h _
  · cases hnext

theorem moves_step {s t : State} {label : Label} (hnext : step s label = some t) : Moves s t := by
  cases label with
  | key key => exact moves_take hnext (moves_loopStep s none _)
  | paste input => exact moves_take hnext (moves_loopStep s none _)
  | event =>
      simp only [step] at hnext
      split at hnext
      · exact moves_take hnext ((moves_loopStep _ _ _).after rfl rfl rfl)
      · cases hnext
  | outcome =>
      simp only [step] at hnext
      split at hnext
      · exact moves_take hnext ((moves_takeOutcome _ _).after rfl rfl rfl)
      · cases hnext
  | clock reason =>
      exact moves_take hnext ((moves_takeFinished s reason).trans (moves_loopStep _ none _))
  | gitSummary summary => exact moves_take hnext (moves_loopStep s none _)
  | stop => exact moves_take hnext ((moves_cancel s).trans (.of_eq rfl rfl rfl))
  | emit turn event => exact moves_act hnext (fun task => .of_eq rfl rfl rfl)
  | todowrite turn todos => exact moves_act hnext (fun task => .of_eq rfl rfl rfl)
  | finish turn result => exact moves_act hnext (fun task => .of_eq rfl rfl rfl)
  | refused turn message =>
      simp only [step] at hnext
      split_ifs at hnext
      exact moves_act hnext (fun task => .of_eq rfl rfl rfl)
  | panic turn => exact moves_act hnext (fun task => moves_endTask s turn)

/-- As long as the loop stays in its conversation, each agent goes on to show what it showed,
whatever the user, the turns and the clock do. -/
theorem shown_conversation {session : Session} {ok : State → Label → Prop} {as bs : List Label}
    {s t : State} (hs : Run step ok (State.init session) as s) (ht : Run step ok s bs t)
    (hconv : t.conv.id = s.conv.id) (path : List Nat) :
    shown path s.state.transcript <+: shown path t.state.transcript := by
  have hlt : s.conv.id < s.conversations := by
    refine hs.invariant (I := fun t => t.conv.id < t.conversations) (Nat.lt_succ_self _) ?_
    intro t label u ht _ hnext
    obtain ⟨hcount, ⟨hconv, -⟩ | ⟨-, hlt⟩⟩ := moves_step hnext
    · omega
    · exact hlt
  have hmoves : Moves s t := by
    refine ht.relation (I := fun _ => True) trivial (fun _ _ _ _ _ _ => trivial) ?_ ?_ ?_
    · exact fun s => .of_eq rfl rfl rfl
    · exact fun _ _ _ => .trans
    · exact fun _ _ _ _ _ hnext => moves_step hnext
  rcases hmoves.2 with ⟨-, hshown⟩ | ⟨hnew, -⟩
  · exact hshown path
  · omega

/-- A question is asked, and a turn answers it. -/
theorem shown_conversation_answered :
    ∃ s t, Run step free (State.init ⟨⟨0, none, none, [], none⟩, [], [], false⟩)
        [.key (.type ['a']), .key .enter] s ∧
      Run step free s [.emit 0 (.token ['b']), .event] t ∧
      shown [] t.state.transcript = [.asked ['a'], .said 'b'] ∧
      shown [] s.state.transcript <+: shown [] t.state.transcript := by
  have h : (exec step free (State.init ⟨⟨0, none, none, [], none⟩, [], [], false⟩)
      [.key (.type ['a']), .key .enter]).any (fun s =>
        (exec step free s [.emit 0 (.token ['b']), .event]).any fun t =>
          decide (t.conv.id = s.conv.id) &&
            t.state.transcript == [.user ['a'], .assistant ['b'] false]) = true := by
    decide
  obtain ⟨s, hs, h⟩ := (Option.any_eq_true _ _).1 h
  obtain ⟨t, ht, h⟩ := (Option.any_eq_true _ _).1 h
  rw [Bool.and_eq_true, decide_eq_true_eq, beq_iff_eq] at h
  refine ⟨s, t, .of_exec hs, .of_exec ht, ?_, ?_⟩
  · rw [h.2]
    rfl
  · exact shown_conversation (.of_exec hs) (.of_exec ht) h.1 []

end Tui

end Vanyline.Cli
