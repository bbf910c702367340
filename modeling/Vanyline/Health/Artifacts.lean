import Vanyline.Health.Expansion
import Vanyline.Lib.Pathname

/-!
# The files of the commands of a run

The standard output and error of a command go to files named after its slot, and the coverage of a
slot is read from a file that its declaration names.  Both are below `out_dir`.

* `sanitizeId` makes a file name of the id of a slot, and `sanitizeId_eq_iff` says which ids get the
  same.
* `apart_iff_separable`: the files of any two slots differ exactly if no two slots are named alike,
  and no two coverage declarations lead to the same place.
-/

namespace Vanyline.Health.Expansion

open Vanyline.Lib TextLines

/-! ## Files -/

def isSafe (c : Char) : Bool := c.isAlphanum || c == '-' || c == '_' || c == '.'

def sanitizeChar (c : Char) : Char := if isSafe c then c else '-'

/-- The beginning of the file names of a slot. -/
def sanitizeId (id : Text) : Text := id.map sanitizeChar

def stdoutName (id : Text) : Text := sanitizeId id ++ ".stdout".toList

def stderrName (id : Text) : Text := sanitizeId id ++ ".stderr".toList

/-- Where the coverage is read; an absolute path is not below `outDir`. -/
def lcovFile (outDir : Path) (path : Text) : Path :=
  let relative := Path.parse path
  if relative.absolute then relative else outDir.join relative

/-! ## Names that are alike -/

/-- The character is written as `-`. -/
def Flat (c : Char) : Prop := c = '-' ∨ isSafe c = false

/-- The ids differ at most where both have a character that is written as `-`. -/
def Alike : Text → Text → Prop := List.Forall₂ fun c d => c = d ∨ Flat c ∧ Flat d

theorem sanitizeChar_eq_dash {c : Char} : sanitizeChar c = '-' ↔ Flat c := by
  unfold sanitizeChar Flat
  by_cases hsafe : isSafe c = true
  · rw [if_pos hsafe, hsafe]
    simp
  · rw [if_neg hsafe, Bool.not_eq_true] at *
    exact iff_of_true rfl (.inr hsafe)

theorem sanitizeChar_of_not_flat {c : Char} (h : ¬Flat c) : sanitizeChar c = c := by
  unfold Flat at h
  rw [not_or, Bool.not_eq_false] at h
  exact if_pos h.2

theorem sanitizeChar_eq_iff {c d : Char} :
    sanitizeChar c = sanitizeChar d ↔ c = d ∨ Flat c ∧ Flat d := by
  constructor
  · intro heq
    by_cases hc : Flat c
    · right
      refine ⟨hc, ?_⟩
      rw [← sanitizeChar_eq_dash, ← heq, sanitizeChar_eq_dash]
      exact hc
    · left
      by_cases hd : Flat d
      · rw [sanitizeChar_eq_dash.2 hd, sanitizeChar_eq_dash] at heq
        exact absurd heq hc
      · rw [sanitizeChar_of_not_flat hc, sanitizeChar_of_not_flat hd] at heq
        exact heq
  · intro h
    rcases h with heq | ⟨hc, hd⟩
    · rw [heq]
    · rw [sanitizeChar_eq_dash.2 hc, sanitizeChar_eq_dash.2 hd]

/-- Two ids give one file name exactly if they are alike. -/
theorem sanitizeId_eq_iff {id id' : Text} : sanitizeId id = sanitizeId id' ↔ Alike id id' := by
  unfold sanitizeId Alike
  rw [← List.forall₂_eq_eq_eq, List.forall₂_map_left_iff, List.forall₂_map_right_iff]
  simp only [sanitizeChar_eq_iff]

/-! ## The files of two slots -/

def artifactNames (slot : Prepared) : List Text := [stdoutName slot.id, stderrName slot.id]

/-- A coverage check whose path has the token. -/
def Carries (check : Check) : Prop :=
  ∃ path, check.output = .lcov path ∧ "\x7bworkspace_slug\x7d".toList <:+: path

/-- The slots of two declarations have no file in common. -/
structure Apart (outDir : Path) (check check' : Check) (slot slot' : Prepared) : Prop where
  outputs : (artifactNames slot).Disjoint (artifactNames slot')
  lcov : Carries check → Carries check' → ∀ path path', slot.output = .lcov path →
    slot'.output = .lcov path' → (lcovFile outDir path).sameAs (lcovFile outDir path') = false

/-- Two declarations lead to one place, each with its workspace filled in if it has been read from
`package.json`. -/
def Meet (outDir : Path) (world : World) (origin origin' : Check × Option Text) : Prop :=
  ∃ path path', placedOutput world origin.1 origin.2 = .lcov path ∧
    placedOutput world origin'.1 origin'.2 = .lcov path' ∧
      (lcovFile outDir path).sameAs (lcovFile outDir path') = true

/-- The names of two slots are not alike, and their declarations do not lead to one place. -/
structure Separable (outDir : Path) (world : World) (origin origin' : Check × Option Text) :
    Prop where
  ids : ¬Alike (slotId origin.1 origin.2) (slotId origin'.1 origin'.2)
  lcov : Carries origin.1 → Carries origin'.1 → ¬Meet outDir world origin origin'

theorem stdoutName_eq_iff {id id' : Text} : stdoutName id = stdoutName id' ↔ Alike id id' := by
  unfold stdoutName
  rw [List.append_left_inj, sanitizeId_eq_iff]

theorem stderrName_eq_iff {id id' : Text} : stderrName id = stderrName id' ↔ Alike id id' := by
  unfold stderrName
  rw [List.append_left_inj, sanitizeId_eq_iff]

theorem stdoutName_ne_stderrName (id id' : Text) : stdoutName id ≠ stderrName id' := by
  unfold stdoutName stderrName
  intro heq
  have hend : ".stdout".toList = ".stderr".toList := List.append_inj_right' heq (by decide)
  exact absurd hend (by decide)

theorem disjoint_artifactNames {slot slot' : Prepared} :
    (artifactNames slot).Disjoint (artifactNames slot') ↔ ¬Alike slot.id slot'.id := by
  constructor
  · intro hdisjoint halike
    refine hdisjoint (List.mem_cons_self ..) ?_
    rw [stdoutName_eq_iff.2 halike]
    exact List.mem_cons_self ..
  · intro hnot name hname hname'
    rcases List.mem_pair.1 hname with rfl | rfl
    · rcases List.mem_pair.1 hname' with heq | heq
      · exact hnot (stdoutName_eq_iff.1 heq)
      · exact stdoutName_ne_stderrName _ _ heq
    · rcases List.mem_pair.1 hname' with heq | heq
      · exact stdoutName_ne_stderrName _ _ heq.symm
      · exact hnot (stderrName_eq_iff.1 heq)

/-- The slot of a command, with where it comes from. -/
structure Slotted (world : World) (tailBytes : Nat) (checks : List Check) (i : Nat)
    (origin : Check × Option Text) (slot : Prepared) : Prop where
  origin : (origins world checks)[i]? = some origin
  slot : (expandAll world tailBytes checks)[i]? = some (.ready slot)

theorem Slotted.stems {world : World} {tailBytes : Nat} {checks : List Check} {i : Nat}
    {origin : Check × Option Text} {slot : Prepared}
    (h : Slotted world tailBytes checks i origin slot) : Stems world origin (.ready slot) := by
  have hall := Stems.expandAll world tailBytes checks
  obtain ⟨hi, horigin⟩ := List.getElem?_eq_some_iff.1 h.origin
  obtain ⟨hi', hslot⟩ := List.getElem?_eq_some_iff.1 h.slot
  rw [← horigin, ← hslot]
  exact hall.get hi hi'

theorem apart_iff {world : World} {outDir : Path} {origin origin' : Check × Option Text}
    {slot slot' : Prepared} (h : Stems world origin (.ready slot))
    (h' : Stems world origin' (.ready slot')) :
    Apart outDir origin.1 origin'.1 slot slot' ↔ Separable outDir world origin origin' := by
  have hid : slot.id = slotId origin.1 origin.2 := h.id
  have hid' : slot'.id = slotId origin'.1 origin'.2 := h'.id
  have houtput := h.output slot rfl
  have houtput' := h'.output slot' rfl
  constructor
  · intro hapart
    refine ⟨?_, ?_⟩
    · rw [← hid, ← hid']
      exact disjoint_artifactNames.1 hapart.outputs
    · intro hcarries hcarries' hmeet
      rcases hmeet with ⟨path, path', hpath, hpath', hsame⟩
      rw [← houtput] at hpath
      rw [← houtput'] at hpath'
      rw [hapart.lcov hcarries hcarries' path path' hpath hpath'] at hsame
      cases hsame
  · intro hseparable
    refine ⟨?_, ?_⟩
    · rw [disjoint_artifactNames, hid, hid']
      exact hseparable.ids
    · intro hcarries hcarries' path path' hpath hpath'
      rw [houtput] at hpath
      rw [houtput'] at hpath'
      refine Bool.eq_false_iff.2 fun hsame => ?_
      exact hseparable.lcov hcarries hcarries' ⟨path, path', hpath, hpath', hsame⟩

/-- A coverage check with a slot for each workspace. -/
def coverageChecks : List Check :=
  [⟨['c'], .coverage, [['x']], [], .lcov "\x7bworkspace_slug\x7d".toList, some .npmWorkspaces,
    none, none⟩]

/-- A project in which a directory has the name of a path with a hyphen for the slash. -/
def hyphenWorld : World where
  manifest := fun _ => .ok (.obj [("workspaces".toList, .arr [.str "a/b".toList,
    .str "a-b".toList])])
  subdirs := fun _ _ => none
  lsFiles := .ok []

end Vanyline.Health.Expansion
