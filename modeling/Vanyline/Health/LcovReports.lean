import Mathlib.Data.Set.Card
import Mathlib.Order.Interval.Finset.Nat
import Vanyline.Health.Lcov

/-!
# What a coverage report means

The lines of a text are read as `Line`s, and these as records with the hits of lines.  `lineMap`
gives each line of each file the sum of its hits, and a report that `Reports` such a map is
determined by it (`Reports.ext`).

* `reports_of_parse` says that the report of a text is that of its map.
* `parse_congr` says that texts with the same hits have the same report, in whatever order they
  come.  `Rearranged` lists what may be done with the records of a text.
* `merge_accepted` says what the texts of several runs become.

A text that is cut inside a record is not always refused.  `contract_iff` says which cuts are not
seen: those in the letters `SF`, and those that make an `end_of_record` of a longer line.
-/

namespace Vanyline.Health.Lcov

open Vanyline.Lib TextLines
open Diff (u32Max parseU32 LineRange)

/-! ## Lines and records -/

inductive Line
  | close
  | source (path : Option Text)
  | data (number hits : Nat)
  | invalid (reason : Text)
  | other

def lineOf (root : Path) (pathPrefix raw : Text) : Line :=
  if trim raw = "end_of_record".toList then .close
  else
    match stripPrefix "SF:".toList (trim raw) with
    | some rawPath => .source (relativize (trim rawPath) root pathPrefix)
    | none =>
      match stripPrefix "DA:".toList (trim raw) with
      | some rest =>
        match readData rest with
        | .error reason => .invalid reason
        | .ok (number, hits) => .data number hits
      | none => .other

/-- A file below the root or not, with the hits of its lines. -/
structure Record where
  path : Option Text
  hits : List (Nat × Nat)

/-- The hits up to the end of the record. -/
def dataOf : List Line → List (Nat × Nat)
  | .data number hits :: ls => (number, hits) :: dataOf ls
  | .close :: _ => []
  | _ :: ls => dataOf ls
  | [] => []

def records : List Line → List Record
  | .source path :: ls => ⟨path, dataOf ls⟩ :: records ls
  | _ :: ls => records ls
  | [] => []

/-- A file, a line of it, and hits. -/
abbrev Sample := Text × Nat × Nat

def Record.samples (record : Record) : List Sample :=
  match record.path with
  | none => []
  | some path => record.hits.map fun hit => (path, hit)

def hitsOf (samples : List Sample) (path : Text) (n : Nat) : List Nat :=
  samples.filterMap fun sample =>
    if sample.1 = path ∧ sample.2.1 = n then some sample.2.2 else none

/-- The saturating sum of hits, where there are any. -/
def total (hits : List Nat) : Option Nat := if hits = [] then none else some (min hits.sum u64Max)

abbrev LineMap := Text → Nat → Option Nat

def mapOf (samples : List Sample) : LineMap := fun path n => total (hitsOf samples path n)

def tags (root : Path) (pathPrefix text : Text) : List Line :=
  (lines text).map (lineOf root pathPrefix)

/-- The hits of each line of each file that is below the root. -/
def lineMap (root : Path) (pathPrefix text : Text) : LineMap :=
  mapOf ((records (tags root pathPrefix text)).flatMap Record.samples)

/-- The sum of several maps. -/
def sumMaps (maps : List LineMap) : LineMap := fun path n => total (maps.filterMap (· path n))

/-! ## The report of a map -/

/-- `hits` are the hits of the lines of the file. -/
structure Describes (file : FileCoverage) (hits : Nat → Option Nat) : Prop where
  found : file.linesFound = {n | (hits n).isSome = true}.ncard
  hit : file.linesHit = {n | ∃ count, hits n = some count ∧ count ≠ 0}.ncard
  normal : Range.Normal file.uncovered
  covers : ∀ n, Range.CoversAll file.uncovered n ↔ hits n = some 0
  complement : file.linesHit + {n | Range.CoversAll file.uncovered n}.ncard = file.linesFound

structure Reports (report : CoverageReport) (map : LineMap) : Prop where
  sorted : report.files.Pairwise fun before after => before.path < after.path
  listed : ∀ path, (∃ file ∈ report.files, file.path = path) ↔ ∃ n, (map path n).isSome = true
  describes : ∀ file ∈ report.files, Describes file (map file.path)

theorem Describes.ext {file other : FileCoverage} {hits : Nat → Option Nat}
    (h : Describes file hits) (h' : Describes other hits) (hpath : file.path = other.path) :
    file = other := by
  obtain ⟨path, found, hit, uncovered⟩ := file
  obtain ⟨path', found', hit', uncovered'⟩ := other
  have hranges : uncovered = uncovered' :=
    Range.Normal.ext h.normal h'.normal fun n => (h.covers n).trans (h'.covers n).symm
  have hfound : found = found' := h.found.trans h'.found.symm
  have hhit : hit = hit' := h.hit.trans h'.hit.symm
  rw [hranges, hfound, hhit, show path = path' from hpath]

/-- A report is determined by its map. -/
theorem Reports.ext {report other : CoverageReport} {map : LineMap} (h : Reports report map)
    (h' : Reports other map) : report = other := by
  have hmem : ∀ {report other : CoverageReport}, Reports report map → Reports other map →
      ∀ file ∈ report.files, file ∈ other.files := by
    intro report other h h' file hfile
    obtain ⟨file', hfile', hpath⟩ := (h'.listed file.path).2 ((h.listed _).1 ⟨file, hfile, rfl⟩)
    have hsame : Describes file' (map file.path) := hpath ▸ h'.describes file' hfile'
    rw [(h.describes file hfile).ext hsame hpath.symm]
    exact hfile'
  have hfiles : report.files = other.files := by
    let before : FileCoverage → FileCoverage → Prop := fun a b => a.path < b.path
    have hasymm : Std.Asymm before := ⟨fun a b hab hba => lt_asymm hab hba⟩
    have hirrefl : Std.Irrefl before := ⟨fun a haa => lt_irrefl _ haa⟩
    exact List.Pairwise.eq_of_mem_iff (r := before) h.sorted h'.sorted
      fun file => ⟨hmem h h' file, hmem h' h file⟩
  obtain ⟨files⟩ := report
  obtain ⟨files'⟩ := other
  rw [show files = files' from hfiles]

/-! ## Reading lines -/

/-- Is a record open behind the line? -/
def Line.next (opened : Bool) : Line → Option Bool
  | .close => some false
  | .source _ => if opened then none else some true
  | .data .. => if opened then some true else none
  | .invalid _ => none
  | .other => some opened

/-- The samples of lines, with the record that is open before them. -/
def samplesFrom : Option (Option Text) → List Line → List Sample
  | _, [] => []
  | _, .close :: ls => samplesFrom none ls
  | _, .source path :: ls => samplesFrom (some path) ls
  | some (some path), .data number hits :: ls =>
    (path, number, hits) :: samplesFrom (some (some path)) ls
  | record, .data .. :: ls => samplesFrom record ls
  | record, .invalid _ :: ls => samplesFrom record ls
  | record, .other :: ls => samplesFrom record ls

/-- The record that is open behind a line. -/
def Line.recordAfter (record : Option (Option Text)) : Line → Option (Option Text)
  | .close => none
  | .source path => some path
  | _ => record

theorem samplesFrom_append (record : Option (Option Text)) (ls ls' : List Line) :
    samplesFrom record (ls ++ ls') =
      samplesFrom record ls ++ samplesFrom (ls.foldl Line.recordAfter record) ls' := by
  induction ls generalizing record with
  | nil => rfl
  | cons line ls ih =>
      cases line with
      | close => exact ih none
      | source path => exact ih (some path)
      | data number hits =>
          rcases record with _ | _ | path
          · exact ih none
          · exact ih (some none)
          · exact congrArg (_ :: ·) (ih (some (some path)))
      | invalid reason =>
          rcases record with _ | _ | path <;> exact ih _
      | other =>
          rcases record with _ | _ | path <;> exact ih _

/-- Whether a record is open, and which one. -/
theorem recordAfter_of_next {record : Option (Option Text)} {ls : List Line} {opened : Bool}
    (h : ls.foldlM Line.next record.isSome = some opened) :
    (ls.foldl Line.recordAfter record).isSome = opened := by
  induction ls generalizing record with
  | nil => exact Option.some.inj h
  | cons line ls ih =>
      rw [List.foldlM_cons] at h
      rw [List.foldl_cons]
      apply ih
      cases line with
      | close => exact h
      | source path =>
          cases record with
          | none => exact h
          | some current => cases h
      | data number hits =>
          cases record with
          | none => cases h
          | some current => exact h
      | invalid reason => cases h
      | other => exact h

/-- Where every record is closed before the next one, the samples are those of the records. -/
theorem samplesFrom_records {record : Option (Option Text)} {ls : List Line} {opened : Bool}
    (h : ls.foldlM Line.next record.isSome = some opened) :
    samplesFrom record ls =
      (match record with
        | none => []
        | some path => Record.samples ⟨path, dataOf ls⟩) ++
        (records ls).flatMap Record.samples := by
  induction ls generalizing record with
  | nil => rcases record with _ | _ | path <;> rfl
  | cons line ls ih =>
      rw [List.foldlM_cons] at h
      cases line with
      | close =>
          have hrest : samplesFrom none ls = _ := @ih none h
          rcases record with _ | _ | path <;> exact hrest
      | source path =>
          rcases record with _ | current
          · exact @ih (some path) h
          · cases h
      | data number hits =>
          rcases record with _ | _ | path
          · cases h
          · exact @ih (some none) h
          · exact congrArg (_ :: ·) (@ih (some (some path)) h)
      | invalid reason => cases h
      | other => rcases record with _ | _ | path <;> exact ih h

/-! ## The hits that are kept -/

theorem hitsOf_append (samples samples' : List Sample) (path : Text) (n : Nat) :
    hitsOf (samples ++ samples') path n = hitsOf samples path n ++ hitsOf samples' path n :=
  List.filterMap_append

theorem total_concat (hits : List Nat) (count : Nat) :
    total (hits ++ [count]) = some (satAdd ((total hits).getD 0) count) := by
  unfold total satAdd
  rw [if_neg (by simp), List.sum_append, List.sum_singleton]
  split_ifs with hnil
  · rw [hnil]
    rfl
  · simp only [Option.getD_some]
    congr 1
    omega

/-- The hits of a line, in the maps of the code. -/
def kept (files : SortedMap Text Hits) (path : Text) (n : Nat) : Option Nat :=
  (files.lookup path).bind fun hits => hits.lookup n

/-- The maps have the sums of the samples, and no file is empty. -/
structure Collected (files : SortedMap Text Hits) (samples : List Sample) : Prop where
  sums : ∀ path n, kept files path n = mapOf samples path n
  nonempty : ∀ path hits, files.lookup path = some hits → hits.entries ≠ []

theorem collected_empty : Collected .empty [] :=
  ⟨fun _ _ => rfl, fun _ _ h => (nomatch h)⟩

theorem Collected.add {files : SortedMap Text Hits} {samples : List Sample}
    (h : Collected files samples) (path : Text) (number count : Nat) :
    Collected (files.update path fun hits => addHits hits number count)
      (samples ++ [(path, number, count)]) := by
  constructor
  · intro other n
    have hbefore := h.sums other n
    unfold kept mapOf at hbefore ⊢
    rw [SortedMap.lookup_update, hitsOf_append]
    by_cases hother : other = path
    · subst hother
      rw [if_pos rfl]
      show (addHits (files.lookup other) number count).lookup n = _
      unfold addHits
      rw [SortedMap.lookup_update]
      have hlookup : ((files.lookup other).getD .empty).lookup n =
          total (hitsOf samples other n) := by
        rw [← hbefore]
        cases files.lookup other <;> rfl
      by_cases hn : n = number
      · subst hn
        have hone : hitsOf [(other, n, count)] other n = [count] := by simp [hitsOf]
        rw [if_pos rfl, hone, total_concat, hlookup]
      · have hnone : hitsOf [(other, number, count)] other n = [] := by
          simp [hitsOf, Ne.symm hn]
        rw [if_neg hn, hnone, List.append_nil, hlookup]
    · have hnone : hitsOf [(path, number, count)] other n = [] := by
        simp [hitsOf, Ne.symm hother]
      rw [if_neg hother, hnone, List.append_nil]
      exact hbefore
  · intro other hits hlookup
    rw [SortedMap.lookup_update] at hlookup
    split_ifs at hlookup with hother
    · cases hlookup
      intro hnil
      have hkey : ((addHits (files.lookup path) number count).lookup number).isSome = true := by
        rw [addHits, SortedMap.lookup_update, if_pos rfl]
        rfl
      rw [← SortedMap.mem_keys_iff, hnil] at hkey
      cases hkey
    · exact h.nonempty other hits hlookup

/-! ## The run over the lines -/

/-- What comes of a line. -/
theorem readLine_eq (root : Path) (pathPrefix : Text) (scan : Scan) (numbered : Text × Nat) :
    match (lineOf root pathPrefix numbered.1).next scan.record.isSome with
    | none => ∃ error, readLine root pathPrefix scan numbered = .error error
    | some _ => ∃ files, readLine root pathPrefix scan numbered =
          .ok ⟨files, (lineOf root pathPrefix numbered.1).recordAfter scan.record⟩ ∧
        ∀ samples, Collected scan.files samples →
          Collected files
            (samples ++ samplesFrom scan.record [lineOf root pathPrefix numbered.1]) := by
  obtain ⟨files, record⟩ := scan
  have hsame : ∀ samples, Collected files samples → Collected files (samples ++ []) := by
    intro samples h
    rw [List.append_nil]
    exact h
  unfold readLine lineOf
  dsimp only
  by_cases hend : trim numbered.1 = "end_of_record".toList
  · rw [if_pos hend, if_pos hend]
    exact ⟨files, rfl, hsame⟩
  rw [if_neg hend, if_neg hend]
  cases hsource : stripPrefix "SF:".toList (trim numbered.1) with
  | some rawPath =>
      cases record with
      | none => exact ⟨files, rfl, hsame⟩
      | some current => exact ⟨_, rfl⟩
  | none =>
      cases hdata : stripPrefix "DA:".toList (trim numbered.1) with
      | none =>
          refine ⟨files, rfl, ?_⟩
          rcases record with _ | _ | path <;> exact hsame
      | some rest =>
          dsimp only
          cases hread : readData rest with
          | error reason =>
              cases record with
              | none => exact ⟨_, rfl⟩
              | some current => exact ⟨_, rfl⟩
          | ok hit =>
              obtain ⟨number, count⟩ := hit
              rcases record with _ | _ | path
              · exact ⟨_, rfl⟩
              · exact ⟨files, rfl, hsame⟩
              · exact ⟨_, rfl, fun samples h => h.add path number count⟩

/-- What comes of all lines. -/
theorem readLines_eq (root : Path) (pathPrefix : Text) (scan : Scan) (ls : List Text) (k : Nat) :
    match (ls.map (lineOf root pathPrefix)).foldlM Line.next scan.record.isSome with
    | none => ∃ error, (ls.zipIdx k).foldlM (readLine root pathPrefix) scan = .error error
    | some opened => ∃ scan', (ls.zipIdx k).foldlM (readLine root pathPrefix) scan = .ok scan' ∧
        scan'.record.isSome = opened ∧ ∀ samples, Collected scan.files samples →
          Collected scan'.files
            (samples ++ samplesFrom scan.record (ls.map (lineOf root pathPrefix))) := by
  induction ls generalizing scan k with
  | nil =>
      refine ⟨scan, rfl, rfl, fun samples h => ?_⟩
      rw [List.map_nil, samplesFrom, List.append_nil]
      exact h
  | cons line ls ih =>
      have hfirst := readLine_eq root pathPrefix scan (line, k)
      rw [List.map_cons, List.foldlM_cons, List.zipIdx_cons, List.foldlM_cons]
      cases hnext : (lineOf root pathPrefix line).next scan.record.isSome with
      | none =>
          rw [hnext] at hfirst
          obtain ⟨error, herror⟩ := hfirst
          rw [herror]
          exact ⟨error, rfl⟩
      | some middle =>
          rw [hnext] at hfirst
          obtain ⟨files, hok, hcollected⟩ := hfirst
          have hopened : ((lineOf root pathPrefix line).recordAfter scan.record).isSome = middle :=
            @recordAfter_of_next scan.record [lineOf root pathPrefix line] middle
              (by rw [List.foldlM_cons, hnext]; rfl)
          have hrest := ih ⟨files, (lineOf root pathPrefix line).recordAfter scan.record⟩ (k + 1)
          rw [hopened] at hrest
          rw [hok]
          show match (ls.map (lineOf root pathPrefix)).foldlM Line.next middle with
            | none => _
            | some opened => _
          cases hlast : (ls.map (lineOf root pathPrefix)).foldlM Line.next middle with
          | none =>
              rw [hlast] at hrest
              exact hrest
          | some opened =>
              rw [hlast] at hrest
              obtain ⟨scan', hscan', hopened', hcollected'⟩ := hrest
              refine ⟨scan', hscan', hopened', fun samples h => ?_⟩
              have happend := samplesFrom_append scan.record [lineOf root pathPrefix line]
                (ls.map (lineOf root pathPrefix))
              rw [List.singleton_append] at happend
              rw [happend, ← List.append_assoc]
              exact hcollected' _ (hcollected samples h)

/-! ## The report of a text -/

theorem number_of_readData {rest : Text} {number count : Nat}
    (h : readData rest = .ok (number, count)) : 1 ≤ number ∧ number ≤ u32Max := by
  unfold readData at h
  dsimp only at h
  split_ifs at h with hmissing
  split at h
  · cases h
  · split_ifs at h with hhits
    split at h
    · cases h
    · rename_i parsed hparsed
      split_ifs at h with hzero
      split at h
      · cases h
      · cases h
        have := parseNat_lt hparsed
        omega

theorem number_of_lineOf {root : Path} {pathPrefix raw : Text} {number count : Nat}
    (h : lineOf root pathPrefix raw = .data number count) : 1 ≤ number ∧ number ≤ u32Max := by
  unfold lineOf at h
  split_ifs at h with hend
  split at h
  · cases h
  · split at h
    · split at h
      · cases h
      · rename_i hread
        cases h
        exact number_of_readData hread
    · cases h

/-- Lines are numbered from one, below `2 ^ 32`. -/
theorem number_of_samplesFrom {root : Path} {pathPrefix : Text} {record : Option (Option Text)}
    {ls : List Text} : ∀ sample ∈ samplesFrom record (ls.map (lineOf root pathPrefix)),
      1 ≤ sample.2.1 ∧ sample.2.1 ≤ u32Max := by
  induction ls generalizing record with
  | nil => exact fun _ h => (nomatch h)
  | cons line ls ih =>
      rw [List.map_cons]
      cases hline : lineOf root pathPrefix line with
      | data number count =>
          rcases record with _ | _ | path
          · exact ih
          · exact ih
          · intro sample hsample
            rcases List.mem_cons.1 hsample with rfl | hsample
            · exact number_of_lineOf hline
            · exact ih sample hsample
      | close => exact ih
      | source path => exact ih
      | invalid reason => rcases record with _ | _ | path <;> exact ih
      | other => rcases record with _ | _ | path <;> exact ih

theorem length_le_of_bounded {hits : Hits}
    (h : ∀ n, (hits.lookup n).isSome = true → 1 ≤ n ∧ n ≤ u32Max) :
    hits.entries.length ≤ u32Max := by
  have hsubset : (hits.entries.map Prod.fst).toFinset ⊆ Finset.Icc 1 u32Max := by
    intro n hn
    rw [Finset.mem_Icc]
    exact h n (SortedMap.mem_keys_iff.1 (List.mem_toFinset.1 hn))
  have hcard := Finset.card_le_card hsubset
  rwa [List.toFinset_card_of_nodup hits.nodup_keys, List.length_map, Nat.card_Icc,
    Nat.add_sub_cancel] at hcard

theorem describes_coverageOf (path : Text) {hits : Hits}
    (h : ∀ n, (hits.lookup n).isSome = true → 1 ≤ n ∧ n ≤ u32Max) :
    Describes (coverageOf path hits) hits.lookup := by
  have hlength := length_le_of_bounded h
  have hfilter : ∀ p : Nat × Nat → Bool, min (hits.entries.filter p).length u32Max =
      (hits.entries.filter p).length :=
    fun p => Nat.min_eq_left (Nat.le_trans (List.length_filter_le ..) hlength)
  have hfound := hits.ncard_lookup fun _ => true
  have hhit := hits.ncard_lookup fun count => decide (count ≠ 0)
  have hmissed := hits.ncard_lookup fun count => decide (count = 0)
  have huncovered : (coverageOf path hits).uncovered =
      ((hits.entries.filter fun entry => decide (entry.2 = 0)).map Prod.fst).foldl
        Range.extend [] := List.foldl_map.symm
  have hsorted : ((hits.entries.filter fun entry => decide (entry.2 = 0)).map
      Prod.fst).Pairwise (· < ·) := hits.sorted.sublist (List.filter_sublist.map Prod.fst)
  obtain ⟨hnormal, hcovers⟩ := Range.foldl_extend .nil hsorted
    fun m hm => absurd hm (Range.coversAll_nil m)
  rw [← huncovered] at hnormal hcovers
  have hzero : ∀ n, Range.CoversAll (coverageOf path hits).uncovered n ↔
      hits.lookup n = some 0 := by
    intro n
    rw [hcovers n, or_iff_right (Range.coversAll_nil n), List.mem_map]
    constructor
    · rintro ⟨⟨n, count⟩, hentry, rfl⟩
      obtain ⟨hmem, hcount⟩ := List.mem_filter.1 hentry
      rw [SortedMap.mem_entries_iff] at hmem
      exact hmem.trans (congrArg some (of_decide_eq_true hcount))
    · intro hlookup
      exact ⟨(n, 0), List.mem_filter.2 ⟨SortedMap.mem_entries_iff.2 hlookup, rfl⟩, rfl⟩
  have hallSet : {n | (hits.lookup n).isSome = true} =
      {n | ∃ count, hits.lookup n = some count ∧ true = true} := by
    ext n
    simp [Option.isSome_iff_exists]
  have hhitSet : {n | ∃ count, hits.lookup n = some count ∧ count ≠ 0} =
      {n | ∃ count, hits.lookup n = some count ∧ decide (count ≠ 0) = true} := by
    simp
  have hmissedSet : {n | Range.CoversAll (coverageOf path hits).uncovered n} =
      {n | ∃ count, hits.lookup n = some count ∧ decide (count = 0) = true} := by
    ext n
    simp [hzero n]
  have hsplit : (hits.entries.filter fun entry => decide (entry.2 ≠ 0)).length +
      (hits.entries.filter fun entry => decide (entry.2 = 0)).length = hits.entries.length := by
    have hcount := List.length_eq_length_filter_add (l := hits.entries)
      fun entry => decide (entry.2 = 0)
    simp only [ne_eq, decide_not]
    omega
  refine ⟨?_, ?_, hnormal, hzero, ?_⟩
  · rw [hallSet, hfound, List.filter_true]
    exact Nat.min_eq_left hlength
  · rw [hhitSet, hhit]
    exact hfilter _
  · rw [hmissedSet, hmissed]
    show min (hits.entries.filter fun entry => decide (entry.2 ≠ 0)).length u32Max + _ =
      min hits.entries.length u32Max
    rw [hfilter, hsplit, Nat.min_eq_left hlength]

theorem number_of_mapOf {samples : List Sample} {path : Text} {n : Nat}
    (hbound : ∀ sample ∈ samples, 1 ≤ sample.2.1 ∧ sample.2.1 ≤ u32Max)
    (hn : (mapOf samples path n).isSome = true) : 1 ≤ n ∧ n ≤ u32Max := by
  unfold mapOf total at hn
  split_ifs at hn with hnil
  · cases hn
  · obtain ⟨count, hcount⟩ := List.exists_mem_of_ne_nil _ hnil
    obtain ⟨sample, hsample, hsome⟩ := List.mem_filterMap.1 hcount
    split_ifs at hsome with hsame
    rw [← hsame.2]
    exact hbound sample hsample

/-- The report of maps that have the sums of samples. -/
theorem reports_of_collected {files : SortedMap Text Hits} {samples : List Sample}
    (h : Collected files samples)
    (hbound : ∀ sample ∈ samples, 1 ≤ sample.2.1 ∧ sample.2.1 ≤ u32Max) :
    Reports ⟨files.entries.map fun entry => coverageOf entry.1 entry.2⟩ (mapOf samples) := by
  have hnumber : ∀ path hits, files.lookup path = some hits → ∀ n,
      (hits.lookup n).isSome = true → 1 ≤ n ∧ n ≤ u32Max := by
    intro path hits hlookup n hn
    have hsum := h.sums path n
    rw [kept, hlookup, Option.bind_some] at hsum
    rw [hsum] at hn
    exact number_of_mapOf hbound hn
  constructor
  · exact List.pairwise_map.2 ((List.pairwise_map.1 files.sorted).imp fun hlt => hlt)
  · intro path
    constructor
    · rintro ⟨file, hfile, rfl⟩
      obtain ⟨⟨path, hits⟩, hentry, rfl⟩ := List.mem_map.1 hfile
      have hlookup := SortedMap.mem_entries_iff.1 hentry
      obtain ⟨⟨n, count⟩, hn⟩ := List.exists_mem_of_ne_nil _ (h.nonempty path hits hlookup)
      refine ⟨n, ?_⟩
      show (mapOf samples path n).isSome = true
      rw [← h.sums, kept, hlookup, Option.bind_some, SortedMap.mem_entries_iff.1 hn]
      rfl
    · rintro ⟨n, hn⟩
      rw [← h.sums, kept] at hn
      cases hlookup : files.lookup path with
      | none =>
          rw [hlookup] at hn
          cases hn
      | some hits =>
          exact ⟨_, List.mem_map.2 ⟨(path, hits), SortedMap.mem_entries_iff.2 hlookup, rfl⟩, rfl⟩
  · intro file hfile
    obtain ⟨⟨path, hits⟩, hentry, rfl⟩ := List.mem_map.1 hfile
    have hlookup := SortedMap.mem_entries_iff.1 hentry
    have hmap : mapOf samples path = hits.lookup := by
      funext n
      rw [← h.sums, kept, hlookup, Option.bind_some]
    show Describes (coverageOf path hits) (mapOf samples path)
    rw [hmap]
    exact describes_coverageOf path (hnumber path hits hlookup)

theorem parse_eq (root : Path) (pathPrefix text : Text) :
    match (tags root pathPrefix text).foldlM Line.next false with
    | some false => ∃ report, parseLcov text root pathPrefix = .ok report ∧
        Reports report (lineMap root pathPrefix text)
    | _ => ∃ error, parseLcov text root pathPrefix = .error error := by
  have hrun := readLines_eq root pathPrefix ⟨.empty, none⟩ (lines text) 1
  unfold parseLcov
  show match (tags root pathPrefix text).foldlM Line.next false with
    | some false => _
    | _ => _
  have htags : (tags root pathPrefix text).foldlM Line.next false =
    ((lines text).map (lineOf root pathPrefix)).foldlM Line.next
      (Scan.mk .empty none).record.isSome := rfl
  cases hopened : (tags root pathPrefix text).foldlM Line.next false with
  | none =>
      rw [← htags, hopened] at hrun
      obtain ⟨error, herror⟩ := hrun
      rw [herror]
      exact ⟨error, rfl⟩
  | some opened =>
      rw [← htags, hopened] at hrun
      obtain ⟨scan, hscan, hrecord, hcollected⟩ := hrun
      rw [hscan]
      cases opened with
      | true =>
          dsimp only
          rw [hrecord]
          exact ⟨_, rfl⟩
      | false =>
          dsimp only
          rw [hrecord]
          refine ⟨_, rfl, ?_⟩
          have hsamples : samplesFrom none (tags root pathPrefix text) =
              (records (tags root pathPrefix text)).flatMap Record.samples :=
            @samplesFrom_records none _ false hopened
          unfold lineMap
          rw [← hsamples]
          exact reports_of_collected (hcollected [] collected_empty) number_of_samplesFrom

/-! ## Texts with the same hits -/

variable {root : Path} {pathPrefix : Text}

theorem parse_ok_iff {text : Text} :
    (∃ report, parseLcov text root pathPrefix = .ok report) ↔
      (tags root pathPrefix text).foldlM Line.next false = some false := by
  have hparse := parse_eq root pathPrefix text
  constructor
  · rintro ⟨report, hreport⟩
    split at hparse
    · assumption
    · obtain ⟨error, herror⟩ := hparse
      rw [herror] at hreport
      cases hreport
  · intro h
    rw [h] at hparse
    obtain ⟨report, hreport, -⟩ := hparse
    exact ⟨report, hreport⟩

theorem reports_of_parse {text : Text} {report : CoverageReport}
    (h : parseLcov text root pathPrefix = .ok report) :
    Reports report (lineMap root pathPrefix text) := by
  have hparse := parse_eq root pathPrefix text
  rw [parse_ok_iff.1 ⟨report, h⟩] at hparse
  obtain ⟨report', hreport', hreports⟩ := hparse
  rw [h] at hreport'
  cases hreport'
  exact hreports

theorem lineMap_eq {text : Text}
    (h : (tags root pathPrefix text).foldlM Line.next false = some false) :
    lineMap root pathPrefix text = mapOf (samplesFrom none (tags root pathPrefix text)) := by
  have hsamples : samplesFrom none (tags root pathPrefix text) =
      (records (tags root pathPrefix text)).flatMap Record.samples :=
    @samplesFrom_records none _ false h
  rw [hsamples]
  rfl

theorem total_perm {hits hits' : List Nat} (h : hits.Perm hits') : total hits = total hits' := by
  have hnil : hits = [] ↔ hits' = [] := by
    rw [← List.length_eq_zero_iff, ← List.length_eq_zero_iff, h.length_eq]
  simp only [total, hnil, h.sum_nat]

theorem mapOf_perm {samples samples' : List Sample} (h : samples.Perm samples') :
    mapOf samples = mapOf samples' := by
  funext path n
  exact total_perm (h.filterMap _)

/-- The order of the hits does not matter. -/
theorem parse_congr {text text' : Text}
    (hopened : (tags root pathPrefix text).foldlM Line.next false =
      (tags root pathPrefix text').foldlM Line.next false)
    (hsamples : (samplesFrom none (tags root pathPrefix text)).Perm
      (samplesFrom none (tags root pathPrefix text'))) (report : CoverageReport) :
    parseLcov text root pathPrefix = .ok report ↔
      parseLcov text' root pathPrefix = .ok report := by
  have hone : ∀ {text text' : Text}, (tags root pathPrefix text).foldlM Line.next false =
      (tags root pathPrefix text').foldlM Line.next false →
      (samplesFrom none (tags root pathPrefix text)).Perm
        (samplesFrom none (tags root pathPrefix text')) →
      parseLcov text root pathPrefix = .ok report →
      parseLcov text' root pathPrefix = .ok report := by
    intro text text' hopened hsamples h
    have hclosed := parse_ok_iff.1 ⟨report, h⟩
    have hclosed' := hopened ▸ hclosed
    obtain ⟨report', hreport'⟩ := parse_ok_iff.2 hclosed'
    have hmap : lineMap root pathPrefix text = lineMap root pathPrefix text' := by
      rw [lineMap_eq hclosed, lineMap_eq hclosed', mapOf_perm hsamples]
    have hreports := reports_of_parse h
    rw [hmap] at hreports
    rw [hreport', (reports_of_parse hreport').ext hreports]
  exact ⟨hone hopened hsamples, hone hopened.symm hsamples.symm⟩

/-! ## Records in another order -/

/-- A line that neither opens a record nor closes one, and is not malformed. -/
def Inner (root : Path) (pathPrefix line : Text) : Prop :=
  (∃ number hits, lineOf root pathPrefix line = .data number hits) ∨
    lineOf root pathPrefix line = .other

/-- A record, or a line outside of the records. -/
inductive IsBlock (root : Path) (pathPrefix : Text) : List Text → Prop
  | record {source close : Text} {body : List Text} {path : Option Text}
      (hsource : lineOf root pathPrefix source = .source path)
      (hbody : ∀ line ∈ body, Inner root pathPrefix line)
      (hclose : lineOf root pathPrefix close = .close) :
      IsBlock root pathPrefix (source :: body ++ [close])
  | outside {line : Text} (hline : lineOf root pathPrefix line = .other ∨
      lineOf root pathPrefix line = .close) : IsBlock root pathPrefix [line]

/-- What may be done with the lines of a report. -/
inductive Rearranged (root : Path) (pathPrefix : Text) : List Text → List Text → Prop
  | permuted {blocks blocks' : List (List Text)}
      (hblocks : ∀ block ∈ blocks, IsBlock root pathPrefix block)
      (hperm : blocks.Perm blocks') : Rearranged root pathPrefix blocks.flatten blocks'.flatten
  | split {before body body' after : List Text} {source source' close close' : Text}
      {path : Option Text} (hsource : lineOf root pathPrefix source = .source path)
      (hbody : ∀ line ∈ body, Inner root pathPrefix line)
      (hclose : lineOf root pathPrefix close = .close)
      (hsource' : lineOf root pathPrefix source' = .source path)
      (hclose' : lineOf root pathPrefix close' = .close) :
      Rearranged root pathPrefix (before ++ (source :: (body ++ body') ++ [close] ++ after))
        (before ++ (source :: body ++ [close'] ++ (source' :: body' ++ [close]) ++ after))
  | tag {before after : List Text} {line : Text}
      (hline : lineOf root pathPrefix line = .other) :
      Rearranged root pathPrefix (before ++ after) (before ++ line :: after)

theorem next_body {body : List Text} (h : ∀ line ∈ body, Inner root pathPrefix line) :
    (body.map (lineOf root pathPrefix)).foldlM Line.next true = some true ∧
    ∀ record, (body.map (lineOf root pathPrefix)).foldl Line.recordAfter record = record := by
  induction body with
  | nil => exact ⟨rfl, fun _ => rfl⟩
  | cons line body ih =>
      have hrest := ih fun other hother => h other (List.mem_cons_of_mem _ hother)
      rw [List.map_cons, List.foldlM_cons]
      rcases h line (List.mem_cons_self ..) with ⟨number, hits, hline⟩ | hline
      · rw [hline]
        exact hrest
      · rw [hline]
        exact hrest

/-- No record is open behind a block. -/
theorem next_block {block : List Text} (h : IsBlock root pathPrefix block) :
    (block.map (lineOf root pathPrefix)).foldlM Line.next false = some false := by
  cases h with
  | record hsource hbody hclose =>
      rw [List.cons_append, List.map_cons, List.map_append, List.foldlM_cons, hsource]
      show List.foldlM Line.next true _ = _
      rw [List.foldlM_append, (next_body hbody).1, List.map_singleton, hclose]
      rfl
  | outside hline =>
      rcases hline with hline | hline
      · rw [List.map_singleton, hline]
        rfl
      · rw [List.map_singleton, hline]
        rfl

/-- Blocks after one another, of which none leaves a record open. -/
theorem flatten_closed (blocks : List (List Line))
    (h : ∀ block ∈ blocks, block.foldlM Line.next false = some false) :
    blocks.flatten.foldlM Line.next false = some false ∧
      samplesFrom none blocks.flatten = blocks.flatMap (samplesFrom none) := by
  induction blocks with
  | nil => exact ⟨rfl, rfl⟩
  | cons block blocks ih =>
      have hfirst := h block (List.mem_cons_self ..)
      obtain ⟨hrest, hsamples⟩ := ih fun other hother => h other (List.mem_cons_of_mem _ hother)
      have hnone : block.foldl Line.recordAfter none = none := by
        have := @recordAfter_of_next none block false hfirst
        rwa [Option.isSome_eq_false_iff, Option.isNone_iff_eq_none] at this
      constructor
      · rw [List.flatten_cons, List.foldlM_append, hfirst]
        exact hrest
      · rw [List.flatten_cons, samplesFrom_append, hnone, hsamples, List.flatMap_cons]

theorem closed_of_blocks {blocks : List (List Text)}
    (h : ∀ block ∈ blocks, IsBlock root pathPrefix block) :
    (blocks.flatten.map (lineOf root pathPrefix)).foldlM Line.next false = some false ∧
      samplesFrom none (blocks.flatten.map (lineOf root pathPrefix)) =
        (blocks.map fun block => block.map (lineOf root pathPrefix)).flatMap
          (samplesFrom none) := by
  rw [List.map_flatten]
  apply flatten_closed
  intro ls hls
  obtain ⟨block, hblock, rfl⟩ := List.mem_map.1 hls
  exact next_block (h block hblock)

/-- Lines that do the same, whatever record is open. -/
structure Same (ls ls' : List Line) : Prop where
  opened : ∀ opened, ls.foldlM Line.next opened = ls'.foldlM Line.next opened
  samples : ∀ record, samplesFrom record ls = samplesFrom record ls'
  after : ∀ record, ls.foldl Line.recordAfter record = ls'.foldl Line.recordAfter record

theorem Same.context {ls ls' : List Line} (h : Same ls ls') (before after : List Line) :
    Same (before ++ (ls ++ after)) (before ++ (ls' ++ after)) := by
  constructor
  · intro opened
    simp only [List.foldlM_append, h.opened]
  · intro record
    simp only [samplesFrom_append, h.samples, h.after]
  · intro record
    simp only [List.foldl_append, h.after]

theorem same_other : Same [] [.other] := by
  constructor
  · exact fun _ => rfl
  · intro record
    rcases record with _ | _ | path <;> rfl
  · exact fun _ => rfl

/-- A record may be closed and opened again. -/
theorem same_split (path : Option Text) {body : List Line} (body' : List Line)
    (hopen : body.foldlM Line.next true = some true)
    (hrecord : ∀ record, body.foldl Line.recordAfter record = record) :
    Same (.source path :: (body ++ body') ++ [.close])
      (.source path :: body ++ [.close] ++ (.source path :: body' ++ [.close])) := by
  constructor
  · intro opened
    cases opened with
    | true => rfl
    | false =>
        show List.foldlM Line.next true (body ++ body' ++ [.close]) =
          List.foldlM Line.next true (body ++ [.close] ++ (.source path :: body' ++ [.close]))
        simp only [List.foldlM_append, hopen]
        rfl
  · intro record
    show samplesFrom (some path) (body ++ body' ++ [.close]) =
      samplesFrom (some path) (body ++ [.close] ++ (.source path :: body' ++ [.close]))
    have hsplit := samplesFrom_append (some path) body
      ([Line.close] ++ (.source path :: body' ++ [.close]))
    rw [List.append_assoc, List.append_assoc, samplesFrom_append, hsplit, hrecord]
    rfl
  · intro record
    simp only [List.foldl_append, List.foldl_cons, List.cons_append]
    rfl

/-- Rearranged lines have the same samples, and leave the same open. -/
theorem same_of_rearranged {ls ls' : List Text} (h : Rearranged root pathPrefix ls ls') :
    (ls.map (lineOf root pathPrefix)).foldlM Line.next false =
      (ls'.map (lineOf root pathPrefix)).foldlM Line.next false ∧
    (samplesFrom none (ls.map (lineOf root pathPrefix))).Perm
      (samplesFrom none (ls'.map (lineOf root pathPrefix))) := by
  cases h with
  | permuted hblocks hperm =>
      obtain ⟨hclosed, hsamples⟩ := closed_of_blocks hblocks
      obtain ⟨hclosed', hsamples'⟩ := closed_of_blocks fun block hblock =>
        hblocks block (hperm.mem_iff.2 hblock)
      rw [hclosed, hclosed', hsamples, hsamples']
      exact ⟨rfl, (hperm.map _).flatMap_right _⟩
  | @split before body body' after source source' close close' path hsource hbody hclose hsource'
      hclose' =>
      obtain ⟨hopen, hrecord⟩ := next_body hbody
      have hsame := (same_split path (body'.map (lineOf root pathPrefix)) hopen hrecord).context
        (before.map (lineOf root pathPrefix)) (after.map (lineOf root pathPrefix))
      simp only [List.map_append, List.map_cons, List.map_nil, hsource, hclose, hsource', hclose']
      exact ⟨hsame.opened false, .of_eq (hsame.samples none)⟩
  | @tag before after line hline =>
      have hsame := same_other.context (before.map (lineOf root pathPrefix))
        (after.map (lineOf root pathPrefix))
      rw [List.map_append, List.map_append, List.map_cons, hline]
      exact ⟨hsame.opened false, .of_eq (hsame.samples none)⟩

/-- An open record ends with the first line that closes it. -/
theorem exists_close {ls : List Text}
    (h : (ls.map (lineOf root pathPrefix)).foldlM Line.next true = some false) :
    ∃ body close rest, ls = body ++ [close] ++ rest ∧
      (∀ line ∈ body, Inner root pathPrefix line) ∧ lineOf root pathPrefix close = .close ∧
      (rest.map (lineOf root pathPrefix)).foldlM Line.next false = some false := by
  induction ls with
  | nil => cases h
  | cons line ls ih =>
      rw [List.map_cons, List.foldlM_cons] at h
      have hinner : Inner root pathPrefix line →
          (ls.map (lineOf root pathPrefix)).foldlM Line.next true = some false →
          ∃ body close rest, line :: ls = body ++ [close] ++ rest ∧
            (∀ line ∈ body, Inner root pathPrefix line) ∧ lineOf root pathPrefix close = .close ∧
            (rest.map (lineOf root pathPrefix)).foldlM Line.next false = some false := by
        intro hline hrest
        obtain ⟨body, close, rest, hls, hbody, hclose, hclosed⟩ := ih hrest
        refine ⟨line :: body, close, rest, by rw [hls]; rfl, ?_, hclose, hclosed⟩
        intro other hother
        rcases List.mem_cons.1 hother with rfl | hother
        · exact hline
        · exact hbody other hother
      cases hline : lineOf root pathPrefix line with
      | close =>
          rw [hline] at h
          exact ⟨[], line, ls, rfl, fun _ h => (nomatch h), hline, h⟩
      | source path =>
          rw [hline] at h
          cases h
      | data number hits =>
          rw [hline] at h
          exact hinner (.inl ⟨number, hits, hline⟩) h
      | invalid reason =>
          rw [hline] at h
          cases h
      | other =>
          rw [hline] at h
          exact hinner (.inr hline) h

/-- Every text that is taken consists of blocks. -/
theorem exists_blocks (ls : List Text)
    (h : (ls.map (lineOf root pathPrefix)).foldlM Line.next false = some false) :
    ∃ blocks : List (List Text), blocks.flatten = ls ∧
      ∀ block ∈ blocks, IsBlock root pathPrefix block := by
  match ls with
  | [] => exact ⟨[], rfl, fun _ h => (nomatch h)⟩
  | line :: ls =>
      rw [List.map_cons, List.foldlM_cons] at h
      have hcons : ∀ block rest, block ++ rest = line :: ls → IsBlock root pathPrefix block →
          (∃ blocks : List (List Text), blocks.flatten = rest ∧
            ∀ block ∈ blocks, IsBlock root pathPrefix block) →
          ∃ blocks : List (List Text), blocks.flatten = line :: ls ∧
            ∀ block ∈ blocks, IsBlock root pathPrefix block := by
        rintro block rest hls hblock ⟨blocks, hflatten, hblocks⟩
        refine ⟨block :: blocks, by rw [List.flatten_cons, hflatten, hls], ?_⟩
        intro other hother
        rcases List.mem_cons.1 hother with rfl | hother
        · exact hblock
        · exact hblocks other hother
      cases hline : lineOf root pathPrefix line with
      | close =>
          rw [hline] at h
          exact hcons [line] ls rfl (.outside (.inr hline)) (exists_blocks ls h)
      | source path =>
          rw [hline] at h
          obtain ⟨body, close, rest, hls, hbody, hclose, hclosed⟩ := exists_close h
          exact hcons (line :: body ++ [close]) rest (by rw [hls]; rfl)
            (.record hline hbody hclose) (exists_blocks rest hclosed)
      | data number hits =>
          rw [hline] at h
          cases h
      | invalid reason =>
          rw [hline] at h
          cases h
      | other =>
          rw [hline] at h
          exact hcons [line] ls rfl (.outside (.inl hline)) (exists_blocks ls h)
termination_by ls.length
decreasing_by
  · simp
  · rw [hls]
    simp
    omega
  · simp

/-! ## Several texts -/

theorem lineOf_stripCr (line : Text) :
    lineOf root pathPrefix (stripCr line) = lineOf root pathPrefix line := by
  unfold lineOf
  rw [trim_stripCr]

/-- The tags of all lines, with the one that is not ended. -/
def allTags (root : Path) (pathPrefix text : Text) : List Line :=
  ((cut text).1 ++ [(cut text).2]).map (lineOf root pathPrefix)

theorem same_allTags (text : Text) :
    Same (tags root pathPrefix text) (allTags root pathPrefix text) := by
  have hmap : ∀ ls : List Text, (ls.map stripCr).map (lineOf root pathPrefix) =
      ls.map (lineOf root pathPrefix) := by
    intro ls
    rw [List.map_map]
    exact List.map_congr_left fun line _ => lineOf_stripCr line
  unfold tags allTags lines
  rw [List.map_append, List.map_append, hmap]
  split_ifs with hnil
  · rw [hnil]
    have hsame := same_other.context ((cut text).1.map (lineOf root pathPrefix)) []
    exact hsame
  · exact ⟨fun _ => rfl, fun _ => rfl, fun _ => rfl⟩

theorem allTags_join (text more : Text) :
    allTags root pathPrefix (text ++ '\n' :: more) =
      allTags root pathPrefix text ++ allTags root pathPrefix more := by
  have hcut : cut ('\n' :: more) = ([] :: (cut more).1, (cut more).2) := if_pos rfl
  unfold allTags
  rw [cut_append, hcut]
  dsimp only
  rw [List.append_nil, ← List.map_append]
  simp

theorem total_append {hits hits' : List Nat} {counts : List Nat}
    (h : total counts = total hits') (hne : hits ≠ []) :
    total (min hits.sum u64Max :: counts) = total (hits ++ hits') := by
  have hcounts : min counts.sum u64Max = min hits'.sum u64Max := by
    unfold total at h
    split_ifs at h with hnil hnil' hnil'
    · rw [hnil, hnil']
    · exact Option.some.inj h
  unfold total
  rw [if_neg (by simp), if_neg (by simp [hne]), List.sum_cons, List.sum_append]
  congr 1
  omega

/-- The sum of saturating sums. -/
theorem total_flatten (lists : List (List Nat)) :
    total (lists.filterMap total) = total lists.flatten := by
  induction lists with
  | nil => rfl
  | cons hits lists ih =>
      by_cases hnil : hits = []
      · subst hnil
        exact ih
      · have hsome : total hits = some (min hits.sum u64Max) := if_neg hnil
        rw [List.filterMap_cons_some hsome, List.flatten_cons]
        exact total_append ih hnil

theorem sumMaps_mapOf (samples : List (List Sample)) :
    sumMaps (samples.map mapOf) = mapOf samples.flatten := by
  funext path n
  have hhits : hitsOf samples.flatten path n =
      (samples.map fun samples => hitsOf samples path n).flatten := by
    induction samples with
    | nil => rfl
    | cons first samples ih =>
        rw [List.flatten_cons, hitsOf_append, ih, List.map_cons, List.flatten_cons]
  unfold sumMaps mapOf
  rw [hhits, ← total_flatten, List.filterMap_map, List.filterMap_map]
  rfl

/-- Texts that are taken one by one are taken together. -/
theorem allTags_joinTexts {texts : List Text} (hne : texts ≠ [])
    (h : ∀ text ∈ texts, (tags root pathPrefix text).foldlM Line.next false = some false) :
    (allTags root pathPrefix (joinTexts texts)).foldlM Line.next false = some false ∧
      samplesFrom none (allTags root pathPrefix (joinTexts texts)) =
        texts.flatMap fun text => samplesFrom none (tags root pathPrefix text) := by
  have hflat : allTags root pathPrefix (joinTexts texts) =
      (texts.map (allTags root pathPrefix)).flatten := by
    unfold joinTexts
    induction texts with
    | nil => exact absurd rfl hne
    | cons text texts ih =>
        cases texts with
        | nil => rw [List.intercalate_singleton, List.map_singleton, List.flatten_singleton]
        | cons other texts =>
            rw [List.intercalate_cons_cons, List.map_cons, List.flatten_cons,
              ← ih (by simp) fun text htext => h text (List.mem_cons_of_mem _ htext)]
            rw [List.append_assoc]
            exact allTags_join text _
  have hclosed := flatten_closed (texts.map (allTags root pathPrefix)) (by
    intro ls hls
    obtain ⟨text, htext, rfl⟩ := List.mem_map.1 hls
    rw [← (same_allTags text).opened]
    exact h text htext)
  rw [hflat]
  refine ⟨hclosed.1, hclosed.2.trans ?_⟩
  rw [List.flatMap_map]
  exact List.flatMap_congr fun text _ => ((same_allTags text).samples none).symm

/-- What several texts become. -/
theorem merge_accepted {texts : List Text}
    (h : ∀ text ∈ texts, ∃ report, parseLcov text root [] = .ok report) :
    ∃ report, parseLcov (joinTexts texts) root [] = .ok report ∧
      Reports report (sumMaps (texts.map (lineMap root []))) ∧
      mergeLcov texts root = if report.files = [] then none else some report := by
  have hclosed := fun text htext => parse_ok_iff.1 (h text htext)
  have hmaps : texts.map (lineMap root []) =
      (texts.map fun text => samplesFrom none (tags root [] text)).map mapOf := by
    rw [List.map_map]
    exact List.map_congr_left fun text htext => lineMap_eq (hclosed text htext)
  rw [hmaps, sumMaps_mapOf, ← List.flatMap_def]
  by_cases hne : texts = []
  · subst hne
    have hempty : parseLcov (joinTexts []) root [] = .ok ⟨[]⟩ := rfl
    exact ⟨⟨[]⟩, hempty, reports_of_parse hempty, rfl⟩
  · obtain ⟨hjoined, hsamples⟩ := allTags_joinTexts hne hclosed
    rw [← (same_allTags _).opened] at hjoined
    rw [← (same_allTags _).samples] at hsamples
    obtain ⟨report, hreport⟩ := parse_ok_iff.2 hjoined
    refine ⟨report, hreport, ?_, ?_⟩
    · rw [← hsamples, ← lineMap_eq hjoined]
      exact reports_of_parse hreport
    · unfold mergeLcov
      rw [if_neg hne, hreport]

/-! ## Texts that are cut off -/

/-- The line that is divided when a text is cut off. -/
def dividedLine (kept cutOff : Text) : Text :=
  (cut kept).2 ++ (cut cutOff).1.head?.getD (cut cutOff).2

/-- A record is open behind the whole lines that are kept. -/
def OpenAt (root : Path) (pathPrefix kept : Text) : Prop :=
  ((cut kept).1.map (lineOf root pathPrefix)).foldlM Line.next false = some true

/-- Some of a record is kept, and some is cut off. -/
def Inside (root : Path) (pathPrefix kept cutOff : Text) : Prop :=
  (OpenAt root pathPrefix kept ∧
    ¬(lineOf root pathPrefix (dividedLine kept cutOff) = .close ∧
      trim (cut kept).2 = "end_of_record".toList)) ∨
  (¬OpenAt root pathPrefix kept ∧
    (∃ path, lineOf root pathPrefix (dividedLine kept cutOff) = .source path) ∧
      trim (cut kept).2 ≠ [])

/-- What is kept of the last line does not read `end_of_record`, and has the mark of a record that
it begins. -/
def Noticed (root : Path) (pathPrefix kept : Text) : Prop :=
  (OpenAt root pathPrefix kept → trim (cut kept).2 ≠ "end_of_record".toList) ∧
  (¬OpenAt root pathPrefix kept → stripPrefix "SF:".toList (trim (cut kept).2) ≠ none)

theorem trim_of_close {raw : Text} : lineOf root pathPrefix raw = .close ↔
    trim raw = "end_of_record".toList := by
  constructor
  · intro h
    unfold lineOf at h
    split_ifs at h with hend
    · exact hend
    · split at h
      · cases h
      · split at h
        · split at h <;> cases h
        · cases h
  · intro h
    exact if_pos h

theorem source_of_stripPrefix {raw rest : Text}
    (h : stripPrefix "SF:".toList (trim raw) = some rest) :
    lineOf root pathPrefix raw = .source (relativize (trim rest) root pathPrefix) := by
  unfold lineOf
  rw [if_neg, h]
  intro hend
  rw [hend] at h
  cases h

theorem trim_of_source {raw : Text} {path : Option Text}
    (h : lineOf root pathPrefix raw = .source path) : (trim raw).head? = some 'S' := by
  unfold lineOf at h
  split_ifs at h
  split at h
  · rename_i rest hrest
    rw [stripPrefix_eq_some hrest]
    rfl
  · split at h
    · split at h <;> cases h
    · cases h

/-- A line that begins with `S` is no hit of a line. -/
theorem passed_of_head {raw : Text} (hhead : (trim raw).head? = some 'S')
    (h : stripPrefix "SF:".toList (trim raw) = none) :
    (lineOf root pathPrefix raw).next false = some false := by
  have hdata : stripPrefix "DA:".toList (trim raw) = none := by
    cases htext : trim raw with
    | nil => rfl
    | cons c text =>
        rw [htext] at hhead
        cases hhead
        exact stripPrefix_cons_ne (by decide) _ _
  unfold lineOf
  split_ifs
  · rfl
  · rw [h]
    dsimp only
    rw [hdata]
    rfl

theorem next_allTags (text : Text) : (allTags root pathPrefix text).foldlM Line.next false =
    (((cut text).1.map (lineOf root pathPrefix)).foldlM Line.next false).bind
      (lineOf root pathPrefix (cut text).2).next := by
  unfold allTags
  rw [List.map_append, List.foldlM_append]
  cases ((cut text).1.map (lineOf root pathPrefix)).foldlM Line.next false with
  | none => rfl
  | some opened =>
      show List.foldlM Line.next opened [lineOf root pathPrefix (cut text).2] =
        (lineOf root pathPrefix (cut text).2).next opened
      rw [List.foldlM_cons]
      cases (lineOf root pathPrefix (cut text).2).next opened <;> rfl

/-- The whole lines of a text that goes on with lines in order are in order. -/
theorem exists_opened {kept cutOff : Text}
    (h : (allTags root pathPrefix (kept ++ cutOff)).foldlM Line.next false = some false) :
    ∃ opened,
      ((cut kept).1.map (lineOf root pathPrefix)).foldlM Line.next false = some opened := by
  obtain ⟨rest, hrest⟩ : ∃ rest, allTags root pathPrefix (kept ++ cutOff) =
      (cut kept).1.map (lineOf root pathPrefix) ++ rest := by
    unfold allTags
    rw [cut_append]
    cases (cut cutOff).1 with
    | nil => exact ⟨_, List.map_append⟩
    | cons line ls =>
        dsimp only
        rw [List.append_assoc, List.map_append]
        exact ⟨_, rfl⟩
  rw [hrest, List.foldlM_append] at h
  cases hopened : ((cut kept).1.map (lineOf root pathPrefix)).foldlM Line.next false with
  | none =>
      rw [hopened] at h
      cases h
  | some opened => exact ⟨opened, rfl⟩

theorem truncated_iff {kept cutOff : Text}
    (h : ∃ report, parseLcov (kept ++ cutOff) root pathPrefix = .ok report)
    (hinside : Inside root pathPrefix kept cutOff) :
    (¬∃ report, parseLcov kept root pathPrefix = .ok report) ↔ Noticed root pathPrefix kept := by
  rw [parse_ok_iff, (same_allTags _).opened] at h ⊢
  obtain ⟨opened, hopened⟩ := exists_opened h
  rw [next_allTags, hopened, Option.bind_some]
  cases opened with
  | true =>
      have hopen : OpenAt root pathPrefix kept := hopened
      have hnext : (lineOf root pathPrefix (cut kept).2).next true = some false ↔
          trim (cut kept).2 = "end_of_record".toList := by
        rw [← @trim_of_close root pathPrefix]
        cases lineOf root pathPrefix (cut kept).2 <;> simp [Line.next]
      rw [hnext]
      exact ⟨fun hne => ⟨fun _ => hne, fun hnot => absurd hopen hnot⟩,
        fun hnoticed => hnoticed.1 hopen⟩
  | false =>
      have hnotOpen : ¬OpenAt root pathPrefix kept := by
        intro hopen
        rw [OpenAt, hopened] at hopen
        cases hopen
      obtain ⟨⟨path, hsource⟩, hne⟩ : (∃ path,
          lineOf root pathPrefix (dividedLine kept cutOff) = .source path) ∧
          trim (cut kept).2 ≠ [] := by
        rcases hinside with hinside | hinside
        · exact absurd hinside.1 hnotOpen
        · exact hinside.2
      have hhead : (trim (cut kept).2).head? = some 'S' := by
        rw [← head_trim_append hne]
        exact trim_of_source hsource
      constructor
      · intro hrejected
        refine ⟨fun hopen => absurd hopen hnotOpen, fun _ hnone => ?_⟩
        exact hrejected (passed_of_head hhead hnone)
      · intro hnoticed haccepted
        obtain ⟨rest, hrest⟩ := Option.ne_none_iff_exists'.1 (hnoticed.2 hnotOpen)
        rw [source_of_stripPrefix hrest] at haccepted
        cases haccepted

/-! ## The contract of the parser -/

/-- What is claimed, of a text that is cut into two. -/
structure Contract (root : Path) (pathPrefix kept cutOff : Text) : Prop where
  reports : ∀ report, parseLcov (kept ++ cutOff) root pathPrefix = .ok report →
    Reports report (lineMap root pathPrefix (kept ++ cutOff))
  rearranged : ∀ other, Rearranged root pathPrefix (lines (kept ++ cutOff)) (lines other) →
    ∀ report, parseLcov (kept ++ cutOff) root pathPrefix = .ok report ↔
      parseLcov other root pathPrefix = .ok report
  merged : ∀ texts : List Text,
    (∀ text ∈ texts, ∃ report, parseLcov text root [] = .ok report) →
      ∃ report, parseLcov (joinTexts texts) root [] = .ok report ∧
        Reports report (sumMaps (texts.map (lineMap root []))) ∧
        mergeLcov texts root = if report.files = [] then none else some report
  truncated : (∃ report, parseLcov (kept ++ cutOff) root pathPrefix = .ok report) →
    Inside root pathPrefix kept cutOff → ¬∃ report, parseLcov kept root pathPrefix = .ok report

/-- The contract holds, but for the cuts that are not noticed. -/
theorem contract_iff (root : Path) (pathPrefix kept cutOff : Text) :
    Contract root pathPrefix kept cutOff ↔
      ((∃ report, parseLcov (kept ++ cutOff) root pathPrefix = .ok report) →
        Inside root pathPrefix kept cutOff → Noticed root pathPrefix kept) := by
  constructor
  · intro h haccepted hinside
    exact (truncated_iff haccepted hinside).1 (h.truncated haccepted hinside)
  · intro h
    refine ⟨fun report => reports_of_parse, ?_, fun texts => merge_accepted, ?_⟩
    · intro other hother
      obtain ⟨hopened, hsamples⟩ := same_of_rearranged hother
      exact parse_congr hopened hsamples
    · intro haccepted hinside
      exact (truncated_iff haccepted hinside).2 (h haccepted hinside)

def accepts (root : Path) (pathPrefix text : Text) : Bool :=
  match parseLcov text root pathPrefix with
  | .ok _ => true
  | .error _ => false

theorem parse_of_accepts {text : Text} (h : accepts root pathPrefix text = true) :
    ∃ report, parseLcov text root pathPrefix = .ok report := by
  unfold accepts at h
  split at h
  · rename_i report hreport
    exact ⟨report, hreport⟩
  · cases h

/-- The second record is cut off but for the letter `S`; the end of a longer line is cut off. -/
theorem contract_fails :
    ¬Contract (.ofLoc []) [] "SF:a\nDA:1,1\nend_of_record\nS".toList
      "F:b\nDA:1,0\nend_of_record".toList ∧
    ¬Contract (.ofLoc []) [] "SF:a\nDA:1,1\nend_of_record".toList
      "X\nDA:2,0\nend_of_record".toList := by
  constructor
  · intro h
    apply h.truncated (parse_of_accepts (by decide +kernel)) _
      (parse_of_accepts (by decide +kernel))
    refine .inr ⟨?_, ⟨_, @source_of_stripPrefix _ _ _ ['b'] ?_⟩, ?_⟩
    · unfold OpenAt
      decide +kernel
    · decide +kernel
    · decide +kernel
  · intro h
    apply h.truncated (parse_of_accepts (by decide +kernel)) _
      (parse_of_accepts (by decide +kernel))
    refine .inl ⟨?_, fun hboth => ?_⟩
    · unfold OpenAt
      decide +kernel
    · have hend := trim_of_close.1 hboth.1
      revert hend
      decide +kernel

end Vanyline.Health.Lcov
