import Vanyline.Lib.SpliceOrder
import Vanyline.Sandbox.TextEditMeaning

/-!
# Text edits that begin at one position

`apply_text_edits` also gives the text that is meant for some edits that begin at one position:
those whose texts, inserted and replaced in the order in which it does so, come to what is meant
there.  The offsets are bytes; when a range then has other characters than the document had, they
are as many bytes, since what is meant has the same characters in another order.
-/

namespace Vanyline.Sandbox.TextEdits

open Vanyline.Lib TextLines ByteOffsets ParsedEdit Splice

variable {content : Text} {edits : List TextEdit} {p q n : Nat}
  {splices group ahead behind rest : List (Splice Char)} {r : Splice Char}

theorem replaceRanges_append (first second : List ParsedEdit) (text : Text) :
    replaceRanges (first ++ second) text =
      (replaceRanges first text).bind (replaceRanges second) := by
  induction first generalizing text with
  | nil => rfl
  | cons edit first ih =>
      rw [List.cons_append, replaceRanges, replaceRanges]
      cases replaceRange text edit.start edit.stop edit.newText with
      | none => rfl
      | some text => exact ih text

/-- A range behind the first part of a text. -/
theorem replaceRange_behind (front old new ys : Text) :
    replaceRange (front ++ (old ++ ys)) (byteLen front) (byteLen front + byteLen old) new =
      some (front ++ (new ++ ys)) := by
  refine replaceRange_eq_some.2 ⟨front.length, front.length + old.length, Nat.le_add_right .., ?_,
    ?_, ?_, ?_⟩
  · rw [List.length_append, List.length_append]
    omega
  · rw [List.take_left]
  · rw [List.take_length_add_append, List.take_left, byteLen_append]
  · rw [List.take_left, List.drop_length_add_append, List.drop_left, List.append_assoc]

theorem replaceRanges_insertions (h : ∀ s ∈ group, s.start = p ∧ s.stop = p) (ys : Text) :
    replaceRanges (group.map (ofSplice content)) (content.take p ++ ys) =
      some (content.take p ++ (group.reverse.flatMap new ++ ys)) := by
  induction group generalizing ys with
  | nil => rfl
  | cons s group ih =>
      obtain ⟨hstart, hstop⟩ := h s (List.mem_cons_self ..)
      have hfirst : replaceRange (content.take p ++ ys) (byteLen (content.take p))
          (byteLen (content.take p)) s.new = some (content.take p ++ (s.new ++ ys)) :=
        replaceRange_behind (content.take p) [] s.new ys
      rw [List.map_cons, replaceRanges, ofSplice, hstart, hstop]
      dsimp only
      rw [hfirst]
      dsimp only
      rw [ih fun t ht => h t (List.mem_cons_of_mem _ ht), List.reverse_cons, List.flatMap_append,
        List.flatMap_singleton, List.append_assoc]

/-- What is replaced in place of the old characters is as many bytes. -/
theorem byteLen_of_keeps {old : Text} {k : Nat}
    (h : behind.reverse.flatMap new ++ r.new ++ (ahead.reverse.flatMap new ++ old).drop k =
      ahead.flatMap new ++ behind.flatMap new ++ r.new) :
    byteLen ((ahead.reverse.flatMap new ++ old).take k) = byteLen old := by
  have hreverse : ∀ l : List (Splice Char),
      byteLen (l.reverse.flatMap new) = byteLen (l.flatMap new) := fun l =>
    (((List.reverse_perm l).flatMap_right new).map Char.utf8Size).sum_nat
  have hbytes := congrArg byteLen h
  have hdivide := congrArg byteLen (List.take_append_drop k (ahead.reverse.flatMap new ++ old))
  simp only [byteLen_append, hreverse] at hbytes hdivide
  omega

/-- The edits of a place, when it is settled. -/
theorem replaceRanges_place (h : AtPlace p group q) (hq : q ≤ content.length)
    (hkeeps : Keeps content p (group.takeWhile inserts) (group.dropWhile inserts)) (ys : Text) :
    replaceRanges (group.map (ofSplice content))
        (content.take p ++ ((content.drop p).take (q - p) ++ ys)) =
      some (content.take p ++ (leaves group ((content.drop p).take (q - p)) ++ ys)) := by
  have hold := h.length_old hq
  rw [← h.leaves_append_right hold]
  cases h with
  | insertions h => rw [replaceRanges_insertions h, leaves_insertions h]
  | @replacement ahead behind r hahead hr hlt hbehind =>
      have hkeeps := ((AtPlace.replacement hahead hr hlt hbehind).keeps_iff hq).1 hkeeps
      rw [leaves_replacement hahead hr hbehind, newAt_replacement hahead hr hlt hbehind] at hkeeps
      have hbytes := byteLen_of_keeps hkeeps
      set old := (content.drop p).take (r.stop - p) with holdEq
      set texts := ahead.reverse.flatMap new with htexts
      have hdivide : texts ++ (old ++ ys) =
          (texts ++ old).take (r.stop - p) ++ ((texts ++ old).drop (r.stop - p) ++ ys) := by
        rw [← List.append_assoc, ← List.append_assoc, List.take_append_drop]
      have hstop : byteLen (content.take r.stop) =
          byteLen (content.take p) + byteLen ((texts ++ old).take (r.stop - p)) := by
        have htake : content.take r.stop = content.take p ++ old := by
          rw [holdEq, ← List.take_add, Nat.add_sub_cancel' (Nat.le_of_lt hlt)]
        rw [htake, byteLen_append, hbytes]
      have hreplace : replaceRange (content.take p ++ (texts ++ (old ++ ys)))
          (byteLen (content.take r.start)) (byteLen (content.take r.stop)) r.new =
            some (content.take p ++ (r.new ++ ((texts ++ old).drop (r.stop - p) ++ ys))) := by
        rw [hdivide, hr, hstop]
        exact replaceRange_behind _ _ _ _
      have hlength : r.stop - p ≤ (texts ++ old).length := by
        rw [List.length_append, hold]
        exact Nat.le_add_left ..
      rw [List.map_append, replaceRanges_append, replaceRanges_insertions hahead, Option.bind_some,
        List.map_cons, replaceRanges]
      simp only [ofSplice] at hreplace ⊢
      rw [hreplace]
      show replaceRanges (behind.map (ofSplice content)) _ = _
      rw [replaceRanges_insertions hbehind, leaves_replacement hahead hr hbehind,
        ← List.append_assoc texts, List.drop_append_of_le_length hlength]
      simp only [List.append_assoc]

/-- The edits place after place, when all are settled. -/
theorem replaceRanges_places (h : Places n splices) (hn : n ≤ content.length)
    (hsettled : ∀ s ∈ splices, Settled splices content s.start) (ys : Text) :
    replaceRanges (splices.map (ofSplice content)) (content.take n ++ ys) =
      some (applyAll splices (content.take n) ++ ys) := by
  induction h generalizing ys with
  | nil n => rfl
  | @cons n p q group rest hgroup hq hlt hrest ih =>
      have hq' := hq.trans hn
      have hp := hgroup.le
      have hlengthN : (content.take n).length = n := List.length_take_of_le hn
      have hqN : q ≤ (content.take n).length := hlengthN.symm ▸ hq
      obtain ⟨hkeeps, hrestSettled⟩ := (hgroup.settled_append_iff hlt).1 hsettled
      have htake : (content.take n).take p = content.take p := by
        rw [List.take_take, Nat.min_eq_left (hp.trans hq)]
      have hold : ((content.take n).drop p).take (q - p) = (content.drop p).take (q - p) := by
        rw [List.drop_take, List.take_take, Nat.min_eq_left (Nat.sub_le_sub_right hq p)]
      have hdivide : content.take n ++ ys =
          content.take p ++
            ((content.drop p).take (q - p) ++ ((content.take n).drop q ++ ys)) := by
        have hdrop : (content.take n).drop q = ((content.take n).drop p).drop (q - p) := by
          rw [List.drop_drop, Nat.add_sub_cancel' hp]
        rw [← hold, hdrop, ← htake, ← List.append_assoc _ _ ys, List.take_append_drop,
          ← List.append_assoc, List.take_append_drop]
      rw [List.map_append, replaceRanges_append, hdivide,
        replaceRanges_place hgroup hq' hkeeps, Option.bind_some,
        ih (hp.trans hq') hrestSettled, Places.applyAll_cons hgroup hqN hrest, htake, hold]
      simp only [List.append_assoc]

section Bmp

variable (hbmp : ∀ c ∈ content, c.toNat < 0x10000) (hvalid : ValidEdits content edits)
include hbmp hvalid

theorem map_inOrder :
    (inOrder content edits).map (TextEdit.splice content) =
      descending Splice.start (edits.map (TextEdit.splice content)) :=
  map_descending fun a ha b hb =>
    offset_le_iff hbmp (hvalid.start_valid b hb) (hvalid.start_valid a ha)

/-- Edits are applied as they are meant when no position is behind a CRLF or in the line behind the
last line break, and all places are settled. -/
theorem applied_of_settled
    (hpositions : ∀ edit ∈ edits, edit.start.Plain content ∧ edit.stop.Plain content)
    (hsettled : ∀ s ∈ edits.map (TextEdit.splice content),
      Settled (edits.map (TextEdit.splice content)) content s.start) : Applied content edits := by
  intro values hwritten
  have hwithin : Within content.length (edits.map (TextEdit.splice content)) := by
    refine List.forall_mem_map.2 fun edit hedit => ?_
    exact ⟨hvalid.ordered edit hedit, index_le hbmp (hvalid.stop_valid edit hedit)⟩
  have hdisjoint : (edits.map (TextEdit.splice content)).Pairwise
      fun s t => s.stop ≤ t.start ∨ t.stop ≤ s.start := List.pairwise_map.2 hvalid.disjoint
  have hmeant := (applyAll_eq_replaceAll_iff hwithin hdisjoint).2 hsettled
  have hinOrder := settled_descending.2 hsettled
  have hresult := replaceRanges_places (places_descending hwithin hdisjoint) (Nat.le_refl _)
    hinOrder []
  rw [List.append_nil, List.append_nil, List.take_length, hmeant, ← map_inOrder hbmp hvalid]
    at hresult
  exact applyTextEdits_of_replaceRanges hbmp hvalid hwritten hpositions hresult

end Bmp

end Vanyline.Sandbox.TextEdits
