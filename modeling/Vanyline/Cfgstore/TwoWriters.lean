import Vanyline.Cfgstore.Frame
import Vanyline.Lib.Run

/-!
# Two processes that write the configuration

A call reads its layer, truncates the `config.yaml` and writes the whole text.  There is no
lock, so that the steps of two processes mix in any order, and each may fail in between.

`BothPresent` says that two calls that succeed leave what one after the other would.  A call
that reads between the other's read and the end of its write loses the other's change.
`bothPresent_of_run` holds when no call does (`Alone`).
-/

namespace Vanyline.Cfgstore

open Vanyline.Lib

variable {V E : Type} [DecidableEq V]

/-! ## The processes -/

inductive Process
  | first
  | second
  deriving DecidableEq

def Process.other : Process → Process
  | .first => .second
  | .second => .first

theorem Process.eq_other {p q : Process} (h : q ≠ p) : q = p.other := by
  cases p <;> cases q <;> first | rfl | exact absurd rfl h

/-- How far a call is. -/
inductive Phase
  | idle
  | loaded (text : Text)
  | truncated (text : Text)
  | done (result : Except CfgStoreError Unit)

/-- The model notes in `log` the calls that have succeeded, oldest first. -/
structure State where
  layers : Layers
  phase : Process → Phase
  log : List Process

inductive Step
  | load (p : Process)
  | truncate (p : Process)
  | write (p : Process)
  /-- An error of the file system; a write may have got some of the text to the file. -/
  | fail (p : Process) (written : Nat)

def State.init (fs : Layers) : State := ⟨fs, fun _ => .idle, []⟩

def Layers.text (fs : Layers) (layer : Layer) : Text :=
  ((fs.dir layer).bind fun dir => dir.files configYaml).getD []

/-- A write at the start of the file. -/
def Layers.overlay (fs : Layers) (text : Text) (layer : Layer) : Layers :=
  fs.write (text ++ (fs.text layer).drop text.length) layer

def State.setPhase (s : State) (p : Process) (phase : Phase) : State :=
  { s with phase := Function.update s.phase p phase }

variable (serde : Serde V E) (calls : Process → Call)

def step (s : State) : Step → Option State
  | .load p =>
    match s.phase p with
    | .idle =>
      match compute serde s.layers (calls p) with
      | .ok text => some (s.setPhase p (.loaded text))
      | .error e => some (s.setPhase p (.done (.error e)))
    | _ => none
  | .truncate p =>
    match s.phase p with
    | .loaded text =>
      some { s.setPhase p (.truncated text) with layers := s.layers.write [] (calls p).layer }
    | _ => none
  | .write p =>
    match s.phase p with
    | .truncated text =>
      some { s.setPhase p (.done (.ok ())) with
        layers := s.layers.overlay text (calls p).layer, log := s.log ++ [p] }
    | _ => none
  | .fail p written =>
    match s.phase p with
    | .idle | .loaded _ => some (s.setPhase p (.done (.error .io)))
    | .truncated text =>
      some { s.setPhase p (.done (.error .io)) with
        layers := s.layers.overlay (text.take written) (calls p).layer }
    | .done _ => none

/-- The process has read the layer and has not written it yet. -/
def State.Writing (s : State) (p : Process) (text : Text) : Prop :=
  s.phase p = .loaded text ∨ s.phase p = .truncated text

/-- No call reads the layer between the other's read and the end of its write. -/
def Alone (s : State) : Step → Prop
  | .load p => (calls p).layer = (calls p.other).layer → ∀ text, ¬ s.Writing p.other text
  | _ => True

/-- Where the change of a call is. -/
def Call.place (c : Call) : Layer × SectionId × Text := (c.layer, c.op.target)

/-- Two calls that have succeeded left what one after the other would.  When they are about
different entries, both changes are there. -/
def BothPresent (fs : Layers) (s : State) : Prop :=
  (∀ p, s.phase p = .done (.ok ())) →
    (∃ p mid, call serde fs (calls p) = .ok mid ∧ call serde mid (calls p.other) = .ok s.layers) ∧
      ((calls .first).place ≠ (calls .second).place → ∀ p, (calls p).op.Shows serde
        (s.layers.entry serde (calls p).layer (calls p).op.target.1 (calls p).op.target.2))

/-! ## One call after the other -/

variable {serde} {calls}

/-- What a call writes depends on its layer only. -/
theorem compute_congr {fs fs' : Layers} {c : Call} (h : fs'.dir c.layer = fs.dir c.layer) :
    compute serde fs' c = compute serde fs c := by
  rw [compute, compute, layerDir, layerDir, h]

theorem call_of_compute {fs : Layers} {c : Call} {text : Text}
    (h : compute serde fs c = .ok text) : call serde fs c = .ok (fs.write text c.layer) := by
  rw [call, h]
  rfl

/-- A later call about another entry keeps the change of an earlier one. -/
theorem shows_of_calls (hserde : serde.Lawful) {fs mid fs' : Layers} {c c' : Call}
    (hfirst : call serde fs c = .ok mid) (hsecond : call serde mid c' = .ok fs')
    (hne : c.place ≠ c'.place) :
    c.op.Shows serde (fs'.entry serde c.layer c.op.target.1 c.op.target.2) := by
  obtain ⟨raw, raw', hw⟩ := call_wrote hserde hfirst
  obtain ⟨raw₁, raw₁', hw'⟩ := call_wrote hserde hsecond
  have hshows := hw.changes.shows
  rw [← hw.after] at hshows
  have hkeep : fs'.entry serde c.layer c.op.target.1 c.op.target.2 =
      mid.entry serde c.layer c.op.target.1 c.op.target.2 := by
    by_cases hlayer : c.layer = c'.layer
    · refine hw'.entry_of_ne ?_
      intro htarget
      exact hne (Prod.ext hlayer htarget)
    · exact Layers.entry_congr (hw'.other c.layer hlayer) _ _
  rw [hkeep]
  exact hshows

theorem bothPresent_of_calls (hserde : serde.Lawful) {fs mid : Layers} {s : State} {p : Process}
    (hfirst : call serde fs (calls p) = .ok mid)
    (hsecond : call serde mid (calls p.other) = .ok s.layers) : BothPresent serde calls fs s := by
  intro _
  refine ⟨⟨p, mid, hfirst, hsecond⟩, ?_⟩
  intro hplace q
  by_cases hq : q = p
  · subst hq
    refine shows_of_calls hserde hfirst hsecond ?_
    cases q
    · exact hplace
    · exact hplace.symm
  · rw [Process.eq_other hq]
    obtain ⟨raw, raw', hw⟩ := call_wrote hserde hsecond
    rw [hw.after]
    exact hw.changes.shows

/-! ## Layers that are written -/

theorem Layers.ext_dir {fs fs' : Layers} (h : ∀ layer, fs'.dir layer = fs.dir layer) :
    fs' = fs := by
  have hglobal : some fs'.globalDir = some fs.globalDir := h .global
  have hworkspace : fs'.workspaceDir = fs.workspaceDir := h .workspace
  cases fs
  cases fs'
  cases hglobal
  cases hworkspace
  rfl

theorem Dir.write_write (dir : Dir) (text text' : Text) :
    (dir.write text).write text' = dir.write text' := by
  rw [Dir.write, Dir.write, Dir.write]
  dsimp only
  rw [Function.update_idem]

/-- Written to a file that the same call has truncated, the text is what the file has. -/
theorem dir_overlay_truncated {fs committed : Layers} {text : Text} {layer : Layer}
    (h : fs.dir layer = (committed.dir layer).map (·.write [])) :
    (fs.overlay text layer).dir layer = (committed.write text layer).dir layer := by
  have hempty : fs.text layer = [] := by
    rw [Layers.text, h]
    cases committed.dir layer with
    | none => rfl
    | some dir =>
      show (Function.update dir.files configYaml (some []) configYaml).getD [] = []
      rw [Function.update_self]
      rfl
  rw [Layers.overlay, hempty, List.drop_nil, List.append_nil, Layers.dir_write_self,
    Layers.dir_write_self, h, Option.map_map]
  congr 1
  funext dir
  exact dir.write_write [] text

/-! ## The invariant -/

variable (serde) (calls)

/-- The calls that have succeeded were made one after the other and led to `committed`.  That
is what the layers are, but for the files that are truncated. -/
structure Good (fs : Layers) (s : State) (committed : Layers) : Prop where
  nodup : s.log.Nodup
  log : ∀ p, p ∈ s.log ↔ s.phase p = .done (.ok ())
  called : (s.log.map calls).foldlM (call serde) fs = .ok committed
  text : ∀ p text, s.Writing p text → compute serde committed (calls p) = .ok text
  alone : ∀ p text text', s.Writing p text → s.Writing p.other text' →
    (calls p).layer ≠ (calls p.other).layer
  truncated : ∀ p text, s.phase p = .truncated text →
    s.layers.dir (calls p).layer = (committed.dir (calls p).layer).map (·.write [])
  settled : ∀ layer, (∀ p text, s.phase p = .truncated text → (calls p).layer ≠ layer) →
    s.layers.dir layer = committed.dir layer

/-- A call has failed, or the calls are one after the other. -/
def Inv (fs : Layers) (s : State) : Prop :=
  (∃ p e, s.phase p = .done (.error e)) ∨ ∃ committed, Good serde calls fs s committed

variable {serde} {calls} {fs : Layers} {s : State} {committed : Layers}

theorem good_init : Good serde calls fs (.init fs) fs where
  nodup := .nil
  log := by
    intro p
    constructor
    · intro h
      cases h
    · intro h
      cases h
  called := rfl
  text := by
    rintro p text (h | h) <;> cases h
  alone := by
    rintro p text text' (h | h) <;> cases h
  truncated := by
    intro p text h
    cases h
  settled := fun _ _ => rfl

theorem Process.other_ne (p : Process) : p.other ≠ p := by
  cases p <;> decide

@[simp] theorem Process.other_other (p : Process) : p.other.other = p := by
  cases p <;> rfl

theorem State.phase_setPhase_self {p : Process} {phase : Phase} :
    (s.setPhase p phase).phase p = phase := Function.update_self _ _ _

theorem State.phase_setPhase_of_ne {p q : Process} {phase : Phase} (h : q ≠ p) :
    (s.setPhase p phase).phase q = s.phase q := Function.update_of_ne h _ _

/-- A step moves one process, which has not ended. -/
theorem step_phase {a : Step} {t : State} (h : step serde calls s a = some t) :
    ∃ p phase, (∀ r, s.phase p ≠ .done r) ∧ t.phase = Function.update s.phase p phase := by
  cases a with
  | load p =>
    simp only [step] at h
    split at h
    · next hp =>
      split at h
      · cases h
        exact ⟨p, _, by rw [hp]; nofun, rfl⟩
      · cases h
        exact ⟨p, _, by rw [hp]; nofun, rfl⟩
    · cases h
  | truncate p =>
    simp only [step] at h
    split at h
    · next hp =>
      cases h
      exact ⟨p, _, by rw [hp]; nofun, rfl⟩
    · cases h
  | write p =>
    simp only [step] at h
    split at h
    · next hp =>
      cases h
      exact ⟨p, _, by rw [hp]; nofun, rfl⟩
    · cases h
  | fail p written =>
    simp only [step] at h
    split at h
    · next hp =>
      cases h
      exact ⟨p, _, by rw [hp]; nofun, rfl⟩
    · next hp =>
      cases h
      exact ⟨p, _, by rw [hp]; nofun, rfl⟩
    · next hp =>
      cases h
      exact ⟨p, _, by rw [hp]; nofun, rfl⟩
    · cases h

/-- A call that has failed stays so. -/
theorem failed_step {a : Step} {t : State} (h : ∃ p e, s.phase p = .done (.error e))
    (hstep : step serde calls s a = some t) : ∃ p e, t.phase p = .done (.error e) := by
  obtain ⟨q, e, hq⟩ := h
  obtain ⟨p, phase, hp, ht⟩ := step_phase hstep
  refine ⟨q, e, ?_⟩
  rw [ht, Function.update_of_ne, hq]
  intro heq
  exact hp _ (heq ▸ hq)

namespace Good

/-- No file of the layer is truncated when nobody else writes it. -/
theorem dir_eq (h : Good serde calls fs s committed) {p : Process}
    (hp : ∀ text, s.phase p ≠ .truncated text)
    (hother : ∀ text, s.phase p.other = .truncated text →
      (calls p).layer ≠ (calls p.other).layer) :
    s.layers.dir (calls p).layer = committed.dir (calls p).layer := by
  refine h.settled _ ?_
  intro q text hq hlayer
  by_cases hqp : q = p
  · subst hqp
    exact hp text hq
  · cases Process.eq_other hqp
    exact hother text hq hlayer.symm

/-- A process that has not succeeded is not in the log. -/
theorem notMem_log (h : Good serde calls fs s committed) {p : Process}
    (hp : s.phase p ≠ .done (.ok ())) : p ∉ s.log := fun hmem => hp ((h.log p).1 hmem)

theorem load (h : Good serde calls fs s committed) {p : Process} {text : Text}
    (hok : Alone calls s (.load p)) (hp : s.phase p = .idle)
    (hcompute : compute serde s.layers (calls p) = .ok text) :
    Good serde calls fs (s.setPhase p (.loaded text)) committed := by
  have hself : (s.setPhase p (.loaded text)).phase p = .loaded text := State.phase_setPhase_self
  have hne : ∀ q, q ≠ p → (s.setPhase p (.loaded text)).phase q = s.phase q := fun q hq =>
    State.phase_setPhase_of_ne hq
  have hwriting : ∀ q t, q ≠ p → (s.setPhase p (.loaded text)).Writing q t → s.Writing q t := by
    intro q t hq hw
    rw [State.Writing, hne q hq] at hw
    exact hw
  have hdir : s.layers.dir (calls p).layer = committed.dir (calls p).layer := by
    refine h.dir_eq ?_ ?_
    · intro t ht
      rw [hp] at ht
      cases ht
    · intro t ht hlayer
      exact hok hlayer t (.inr ht)
  constructor
  · exact h.nodup
  · intro q
    by_cases hq : q = p
    · subst hq
      rw [hself]
      refine iff_of_false (h.notMem_log ?_) nofun
      rw [hp]
      nofun
    · rw [hne q hq]
      exact h.log q
  · exact h.called
  · intro q t hw
    by_cases hq : q = p
    · subst hq
      rw [State.Writing, hself] at hw
      rcases hw with hw | hw
      · cases hw
        rw [← compute_congr hdir]
        exact hcompute
      · cases hw
    · exact h.text q t (hwriting q t hq hw)
  · intro q t t' hw hw'
    by_cases hq : q = p
    · subst hq
      intro hlayer
      exact hok hlayer t' (hwriting _ t' q.other_ne hw')
    · cases Process.eq_other hq
      intro hlayer
      rw [Process.other_other] at hlayer
      exact hok hlayer.symm t (hwriting _ t p.other_ne hw)
  · intro q t ht
    by_cases hq : q = p
    · subst hq
      rw [hself] at ht
      cases ht
    · rw [hne q hq] at ht
      exact h.truncated q t ht
  · intro layer hlayer
    refine h.settled layer ?_
    intro q t ht
    refine hlayer q t ?_
    rw [hne q, ht]
    intro hq
    rw [hq, hp] at ht
    cases ht

theorem truncate (h : Good serde calls fs s committed) {p : Process} {text : Text}
    (hp : s.phase p = .loaded text) :
    Good serde calls fs { s.setPhase p (.truncated text) with
      layers := s.layers.write [] (calls p).layer } committed := by
  have hself : (s.setPhase p (.truncated text)).phase p = .truncated text :=
    State.phase_setPhase_self
  have hne : ∀ q, q ≠ p → (s.setPhase p (.truncated text)).phase q = s.phase q := fun q hq =>
    State.phase_setPhase_of_ne hq
  have hwriting : ∀ q t, (s.setPhase p (.truncated text)).Writing q t → s.Writing q t := by
    intro q t hw
    by_cases hq : q = p
    · subst hq
      rw [State.Writing, hself] at hw
      rcases hw with hw | hw
      · cases hw
      · cases hw
        exact .inl hp
    · rw [State.Writing, hne q hq] at hw
      exact hw
  have hdir : s.layers.dir (calls p).layer = committed.dir (calls p).layer := by
    refine h.dir_eq ?_ ?_
    · intro t ht
      rw [hp] at ht
      cases ht
    · intro t ht
      exact h.alone p text t (.inl hp) (.inr ht)
  constructor
  · exact h.nodup
  · intro q
    show q ∈ s.log ↔ (s.setPhase p (.truncated text)).phase q = _
    by_cases hq : q = p
    · subst hq
      rw [hself]
      refine iff_of_false (h.notMem_log ?_) nofun
      rw [hp]
      nofun
    · rw [hne q hq]
      exact h.log q
  · exact h.called
  · intro q t hw
    exact h.text q t (hwriting q t hw)
  · intro q t t' hw hw'
    exact h.alone q t t' (hwriting q t hw) (hwriting _ t' hw')
  · intro q t ht
    show (s.layers.write [] (calls p).layer).dir (calls q).layer = _
    replace ht : (s.setPhase p (.truncated text)).phase q = .truncated t := ht
    by_cases hq : q = p
    · subst hq
      rw [Layers.dir_write_self, hdir]
    · rw [hne q hq] at ht
      rw [Layers.dir_write_of_ne]
      · exact h.truncated q t ht
      · cases Process.eq_other hq
        exact (h.alone p text t (.inl hp) (.inr ht)).symm
  · intro layer hlayer
    show (s.layers.write [] (calls p).layer).dir layer = _
    have hlayerp : (calls p).layer ≠ layer := hlayer p text hself
    rw [Layers.dir_write_of_ne hlayerp.symm]
    refine h.settled layer ?_
    intro q t ht
    refine hlayer q t ?_
    show (s.setPhase p (.truncated text)).phase q = _
    rw [hne q, ht]
    intro hq
    rw [hq, hp] at ht
    cases ht

theorem write (h : Good serde calls fs s committed) {p : Process} {text : Text}
    (hp : s.phase p = .truncated text) :
    Good serde calls fs { s.setPhase p (.done (.ok ())) with
      layers := s.layers.overlay text (calls p).layer, log := s.log ++ [p] }
      (committed.write text (calls p).layer) := by
  have hself : (s.setPhase p (.done (.ok ()))).phase p = .done (.ok ()) :=
    State.phase_setPhase_self
  have hne : ∀ q, q ≠ p → (s.setPhase p (.done (.ok ()))).phase q = s.phase q := fun q hq =>
    State.phase_setPhase_of_ne hq
  have hwriting : ∀ q t, (s.setPhase p (.done (.ok ()))).Writing q t → q ≠ p ∧ s.Writing q t := by
    intro q t hw
    by_cases hq : q = p
    · subst hq
      rw [State.Writing, hself] at hw
      rcases hw with hw | hw <;> cases hw
    · rw [State.Writing, hne q hq] at hw
      exact ⟨hq, hw⟩
  have hnot : p ∉ s.log := by
    refine h.notMem_log ?_
    rw [hp]
    nofun
  have happart : ∀ q t, q ≠ p → s.Writing q t → (calls q).layer ≠ (calls p).layer := by
    intro q t hq hw
    cases Process.eq_other hq
    exact (h.alone p text t (.inr hp) hw).symm
  constructor
  · show (s.log ++ [p]).Nodup
    rw [List.nodup_append]
    refine ⟨h.nodup, List.nodup_singleton p, ?_⟩
    intro q hq r hr heq
    rw [List.mem_singleton] at hr
    exact hnot (hr ▸ heq ▸ hq)
  · intro q
    show q ∈ s.log ++ [p] ↔ (s.setPhase p (.done (.ok ()))).phase q = _
    rw [List.mem_append, List.mem_singleton]
    by_cases hq : q = p
    · subst hq
      rw [hself]
      exact iff_of_true (.inr rfl) rfl
    · rw [hne q hq, ← h.log q]
      exact or_iff_left hq
  · show ((s.log ++ [p]).map calls).foldlM (call serde) fs = _
    rw [List.map_append, List.foldlM_append, h.called]
    show (List.foldlM (call serde) committed [calls p]) = _
    rw [List.foldlM_cons, call_of_compute (h.text p text (.inr hp))]
    rfl
  · intro q t hw
    obtain ⟨hq, hw⟩ := hwriting q t hw
    rw [compute_congr (Layers.dir_write_of_ne (happart q t hq hw))]
    exact h.text q t hw
  · intro q t t' hw hw'
    exact h.alone q t t' (hwriting q t hw).2 (hwriting _ t' hw').2
  · intro q t ht
    obtain ⟨hq, -⟩ := hwriting q t (.inr ht)
    replace ht : (s.setPhase p (.done (.ok ()))).phase q = .truncated t := ht
    rw [hne q hq] at ht
    have hlayer := happart q t hq (.inr ht)
    show (s.layers.overlay text (calls p).layer).dir (calls q).layer = _
    rw [Layers.overlay, Layers.dir_write_of_ne hlayer, Layers.dir_write_of_ne hlayer]
    exact h.truncated q t ht
  · intro layer hlayer
    show (s.layers.overlay text (calls p).layer).dir layer = _
    by_cases hl : layer = (calls p).layer
    · subst hl
      exact dir_overlay_truncated (h.truncated p text hp)
    · rw [Layers.overlay, Layers.dir_write_of_ne hl, Layers.dir_write_of_ne hl]
      refine h.settled layer ?_
      intro q t ht
      by_cases hq : q = p
      · subst hq
        exact fun heq => hl heq.symm
      · refine hlayer q t ?_
        show (s.setPhase p (.done (.ok ()))).phase q = _
        rw [hne q hq, ht]

end Good

theorem inv_step {a : Step} {t : State} (h : Inv serde calls fs s) (hok : Alone calls s a)
    (hstep : step serde calls s a = some t) : Inv serde calls fs t := by
  rcases h with hfailed | ⟨committed, h⟩
  · exact .inl (failed_step hfailed hstep)
  cases a with
  | load p =>
    simp only [step] at hstep
    split at hstep
    · next hp =>
      split at hstep
      · next text hcompute =>
        cases hstep
        exact .inr ⟨committed, h.load hok hp hcompute⟩
      · next e _ =>
        cases hstep
        exact .inl ⟨p, e, State.phase_setPhase_self⟩
    · cases hstep
  | truncate p =>
    simp only [step] at hstep
    split at hstep
    · next text hp =>
      cases hstep
      exact .inr ⟨committed, h.truncate hp⟩
    · cases hstep
  | write p =>
    simp only [step] at hstep
    split at hstep
    · next text hp =>
      cases hstep
      exact .inr ⟨_, h.write hp⟩
    · cases hstep
  | fail p written =>
    left
    refine ⟨p, .io, ?_⟩
    simp only [step] at hstep
    split at hstep
    · cases hstep
      exact State.phase_setPhase_self
    · cases hstep
      exact State.phase_setPhase_self
    · cases hstep
      exact State.phase_setPhase_self
    · cases hstep

/-! ## Two calls that succeed -/

/-- Both processes in some order. -/
theorem Process.eq_pair {log : List Process} (hnodup : log.Nodup) (hall : ∀ p, p ∈ log) :
    ∃ p, log = [p, p.other] := by
  match log with
  | [] => cases hall .first
  | [p] => exact absurd (List.mem_singleton.1 (hall p.other)) p.other_ne
  | p :: q :: rest =>
    obtain ⟨hp, hrest⟩ := List.nodup_cons.1 hnodup
    obtain ⟨hq, -⟩ := List.nodup_cons.1 hrest
    have hqp : q = p.other := by
      refine Process.eq_other ?_
      intro heq
      exact hp (heq ▸ List.mem_cons_self)
    subst hqp
    refine ⟨p, ?_⟩
    cases rest with
    | nil => rfl
    | cons r rest =>
      have hrp : r ≠ p := by
        intro heq
        exact hp (heq ▸ List.mem_cons_of_mem _ List.mem_cons_self)
      exact absurd (Process.eq_other hrp ▸ List.mem_cons_self) hq

theorem bothPresent_of_inv (hserde : serde.Lawful) (h : Inv serde calls fs s) :
    BothPresent serde calls fs s := by
  intro hdone
  rcases h with ⟨p, e, hp⟩ | ⟨committed, h⟩
  · have hsame := (hdone p).symm.trans hp
    cases hsame
  obtain ⟨p, hlog⟩ := Process.eq_pair h.nodup fun p => (h.log p).2 (hdone p)
  have hlayers : s.layers = committed := by
    refine Layers.ext_dir fun layer => h.settled layer ?_
    intro q text ht
    rw [hdone q] at ht
    cases ht
  have hcalled := h.called
  rw [hlog, ← hlayers] at hcalled
  obtain ⟨mid, hfirst, hcalled⟩ := bind_eq_ok.1 hcalled
  obtain ⟨final, hsecond, hcalled⟩ := bind_eq_ok.1 hcalled
  cases hcalled
  exact bothPresent_of_calls hserde hfirst hsecond hdone

/-- Writing one entry touches nothing else: exactly in the safe calls, and for two processes in
every run in which no call reads between the other's read and the end of its write. -/
theorem writes_one_entry (hserde : serde.Lawful) :
    (∀ (fs fs' : Layers) (c : Call), call serde fs c = .ok fs' →
      (Frame serde fs c fs' ↔ Safe serde fs c)) ∧
    ∀ (fs : Layers) (calls : Process → Call) (as : List Step) (t : State),
      Run (step serde calls) (Alone calls) (.init fs) as t → BothPresent serde calls fs t := by
  refine ⟨fun fs fs' c h => frame_iff hserde h, ?_⟩
  intro fs calls as t hrun
  exact bothPresent_of_inv hserde
    (hrun.invariant (.inr ⟨fs, good_init⟩) fun s a u hs hok hstep => inv_step hs hok hstep)

/-! ## Runs -/

/-- The process is between its read and the end of its write. -/
def State.isWriting (s : State) (p : Process) : Bool :=
  match s.phase p with
  | .loaded _ | .truncated _ => true
  | _ => false

theorem State.isWriting_eq_false {p : Process} :
    s.isWriting p = false ↔ ∀ text, ¬ s.Writing p text := by
  simp only [State.isWriting, State.Writing]
  cases s.phase p <;> simp

instance (a : Step) : Decidable (Alone calls s a) :=
  match a with
  | .load p =>
    decidable_of_iff ((calls p).layer = (calls p.other).layer → s.isWriting p.other = false) (by simp only [Alone, State.isWriting_eq_false])
  | .truncate _ | .write _ | .fail _ _ => isTrue trivial

/-- Both calls have succeeded. -/
def State.bothDone (s : State) : Bool :=
  [Process.first, .second].all fun p => match s.phase p with
    | .done (.ok ()) => true
    | _ => false

theorem State.bothDone_phase (h : s.bothDone = true) (p : Process) :
    s.phase p = .done (.ok ()) := by
  have hp := List.all_eq_true.1 h p (by cases p <;> decide)
  cases hphase : s.phase p with
  | done r =>
    rw [hphase] at hp
    cases r with
    | ok => rfl
    | error e => cases hp
  | _ =>
    rw [hphase] at hp
    cases hp

/-! ## A configuration -/

inductive Scalar
  | null
  | text (s : Text)
  | number (n : Nat)
  | nan
  deriving DecidableEq

def Scalar.toJson : Scalar → Json
  | .null | .nan => .null
  | .text s => .str s
  | .number n => .num n

def Scalar.ofJson : Json → Scalar
  | .str s => .text s
  | .num n => .number n
  | _ => .null

def sampleProvider (fields : List (String × Scalar)) : Entry Scalar :=
  .mapping (fields.foldr (fun field entry => entry.insert (.text field.1.toList) field.2) ∅)

def oneProvider (entry : Entry Scalar) : RawConfigFile Scalar :=
  { RawConfigFile.empty with providers := Finmap.insert "local".toList entry ∅ }

def localGpu : Entry Scalar :=
  sampleProvider [("type", .text "ollama".toList), ("endpoint", .text "http://gpu".toList)]

def withAgent (raw : RawConfigFile Scalar) : RawConfigFile Scalar :=
  { raw with defaults := Finmap.insert "agent".toList (.other (.text "build".toList)) ∅ }

/-- The text of a file with these lines. -/
def yaml (lines : List String) : Text := lines.flatMap fun line => line.toList ++ ['\n']

def themeFile : Text := yaml ["theme: dark"]

def agentFile : Text :=
  yaml ["providers: \x7b\x7d", "models: \x7b\x7d", "mcp: \x7b\x7d", "defaults:", "  agent: build"]

def localFile : Text := yaml ["providers:", "  local:", "    endpoint: http://gpu",
  "    type: ollama", "models: \x7b\x7d", "mcp: \x7b\x7d", "defaults: \x7b\x7d"]

def bothFile : Text := yaml ["providers:", "  local:", "    endpoint: http://gpu",
  "    type: ollama", "models: \x7b\x7d", "mcp: \x7b\x7d", "defaults:", "  agent: build"]

def nanFile : Text := yaml ["providers:", "  local:", "    type: ollama",
  "    endpoint: http://old", "    weight: .nan"]

def nullFile : Text := yaml ["providers:", "  local:", "    endpoint: http://gpu",
  "    type: ollama", "    weight: null", "models: \x7b\x7d", "mcp: \x7b\x7d", "defaults: \x7b\x7d"]

/-- Some files and what they say. -/
def sampleFiles : List (Text × Document Scalar) :=
  [(themeFile, ⟨.empty, Finmap.insert (.text "theme".toList) (.text "dark".toList) ∅⟩),
    (agentFile, ⟨withAgent .empty, ∅⟩),
    (localFile, ⟨oneProvider localGpu, ∅⟩),
    (bothFile, ⟨withAgent (oneProvider localGpu), ∅⟩),
    (nanFile, ⟨oneProvider (sampleProvider [("type", .text "ollama".toList),
      ("endpoint", .text "http://old".toList), ("weight", .nan)]), ∅⟩),
    (nullFile, ⟨oneProvider (sampleProvider [("endpoint", .text "http://gpu".toList),
      ("weight", .null), ("type", .text "ollama".toList)]), ∅⟩)]

/-- The serialisers on these files. -/
def sampleSerde : Serde Scalar (Entry Scalar) where
  string := .text
  toJson v := .ok v.toJson
  key
    | .number n => .ok (toString n).toList
    | .text s => .ok s
    | _ => .error "key must be a string".toList
  toValue := Scalar.ofJson
  fromValue _ entry := .ok entry
  fromStr text := (sampleFiles.lookup text).elim (.error "invalid YAML".toList) .ok
  toStr raw := (sampleFiles.find? fun file => decide (file.2 = ⟨raw, ∅⟩)).elim
    (.error "not a sample".toList) fun file => .ok file.1

theorem sampleSerde_lawful : sampleSerde.Lawful where
  fromStr_toStr := by
    intro raw text h
    cases hfind : sampleFiles.find? fun file => decide (file.2 = ⟨raw, ∅⟩) with
    | none =>
      simp only [sampleSerde, hfind, Option.elim_none] at h
      cases h
    | some file =>
      simp only [sampleSerde, hfind, Option.elim_some, Except.ok.injEq] at h
      subst h
      have hmem := List.mem_of_find?_eq_some hfind
      have hdoc : decide (file.2 = ⟨raw, ∅⟩) = true := by simpa only using List.find?_some hfind
      replace hdoc := of_decide_eq_true hdoc
      have hlookup : ∀ file ∈ sampleFiles, sampleFiles.lookup file.1 = some file.2 := by
        decide +kernel
      simp only [sampleSerde, hlookup file hmem, Option.elim_some, hdoc]
  fromValue_item item := ⟨_, rfl⟩

def sampleLayers (text : Option Text) : Layers where
  globalDir := ⟨"/root/.config".toList, fun path => if path = configYaml then text else none⟩
  workspaceDir := none

def setBuild : Call := ⟨.global, .setDefaultAgent "build".toList⟩

def createLocal : Call where
  layer := .global
  op := .create (.provider ⟨"local".toList, .ollama, "http://gpu".toList, none⟩)

def updateLocal : Call where
  layer := .global
  op := .update .provider "local".toList
    (.object [("endpoint", .str "http://gpu".toList)])

def bothCalls : Process → Call
  | .first => setBuild
  | .second => createLocal


/-- Both calls have succeeded, and there is no default agent. -/
def agentLost (s : State) : Bool :=
  s.bothDone && (s.layers.entry sampleSerde .global .defaults "agent".toList).isNone

theorem not_bothPresent_of_agentLost {s : State} (h : agentLost s = true) :
    ¬ BothPresent sampleSerde bothCalls (sampleLayers none) s := by
  intro hboth
  rw [agentLost, Bool.and_eq_true, Option.isNone_iff_eq_none] at h
  have hshows := (hboth (State.bothDone_phase h.1)).2 (by decide) .first
  have hagent : s.layers.entry sampleSerde .global .defaults "agent".toList =
      some (.other (.text "build".toList)) := hshows
  rw [h.2] at hagent
  cases hagent

/-- A call drops a further top-level key, another one changes a field that the patch does not
name, and of two calls that both succeed one is lost. -/
theorem writes_one_entry_fails : sampleSerde.Lawful ∧
    (∃ fs fs', call sampleSerde fs setBuild = .ok fs' ∧
      fs'.rest sampleSerde .global ≠ fs.rest sampleSerde .global ∧
        ¬ Frame sampleSerde fs setBuild fs') ∧
    (∃ fs fs', call sampleSerde fs updateLocal = .ok fs' ∧
      ¬ Frame sampleSerde fs updateLocal fs') ∧
    ∃ t, Run (step sampleSerde bothCalls) free (.init (sampleLayers none))
        [.load .first, .load .second, .truncate .first, .write .first, .truncate .second,
          .write .second] t ∧
      agentLost t = true ∧ ¬ BothPresent sampleSerde bothCalls (sampleLayers none) t := by
  refine ⟨sampleSerde_lawful, ?_, ?_, ?_⟩
  · have hcompute : compute sampleSerde (sampleLayers (some themeFile)) setBuild =
        .ok agentFile := by
      decide +kernel
    have hrest : ((sampleLayers (some themeFile)).write agentFile .global).rest sampleSerde
        .global ≠ (sampleLayers (some themeFile)).rest sampleSerde .global := by
      decide +kernel
    exact ⟨_, _, call_of_compute hcompute, hrest, fun hframe => hrest hframe.rest⟩
  · have hcompute : compute sampleSerde (sampleLayers (some nanFile)) updateLocal =
        .ok nullFile := by
      decide +kernel
    refine ⟨_, _, call_of_compute hcompute, ?_⟩
    intro hframe
    have hfield := hframe.fields .provider "local".toList _ rfl (.text "weight".toList)
      (by decide +kernel)
    have hdiffers : (((sampleLayers (some nanFile)).write nullFile .global).entry sampleSerde
        .global .providers "local".toList).bind (·.field (.text "weight".toList)) ≠
      ((sampleLayers (some nanFile)).entry sampleSerde .global .providers "local".toList).bind
        (·.field (.text "weight".toList)) := by
      decide +kernel
    exact hdiffers hfield
  · obtain ⟨t, hrun, ht⟩ := Run.exists_of_exec agentLost
      (show (exec (step sampleSerde bothCalls) free (.init (sampleLayers none))
        [.load .first, .load .second, .truncate .first, .write .first, .truncate .second,
          .write .second]).any _ = true by decide +kernel)
    exact ⟨t, hrun, ht, not_bothPresent_of_agentLost ht⟩

/-- One call after the other, neither in the way of the other. -/
theorem writes_one_entry_holds :
    (∃ fs', call sampleSerde (sampleLayers none) createLocal = .ok fs' ∧
      (Frame sampleSerde (sampleLayers none) createLocal fs' ↔
        Safe sampleSerde (sampleLayers none) createLocal)) ∧
    ∃ t, Run (step sampleSerde bothCalls) (Alone bothCalls) (.init (sampleLayers none))
        [.load .first, .truncate .first, .write .first, .load .second, .truncate .second,
          .write .second] t ∧
      t.bothDone = true ∧ BothPresent sampleSerde bothCalls (sampleLayers none) t := by
  have hcompute : compute sampleSerde (sampleLayers none) createLocal = .ok localFile := by
    decide +kernel
  obtain ⟨t, hrun, ht⟩ := Run.exists_of_exec State.bothDone
    (show (exec (step sampleSerde bothCalls) (Alone bothCalls) (.init (sampleLayers none))
      [.load .first, .truncate .first, .write .first, .load .second, .truncate .second,
        .write .second]).any _ = true by decide +kernel)
  exact ⟨⟨_, call_of_compute hcompute,
    (writes_one_entry sampleSerde_lawful).1 _ _ _ (call_of_compute hcompute)⟩,
    t, hrun, ht, (writes_one_entry sampleSerde_lawful).2 _ _ _ t hrun⟩

end Vanyline.Cfgstore
