import Mathlib.Data.Char
import Mathlib.Data.List.Lex
import Vanyline.Health.LcovReports

/-!
# Two routes for relative paths of a coverage report

A relative path of `SF:` is relative to the directory in which the tool ran.  `parseLcov` takes
that directory as a prefix.  The runner does without: `absolutizeSf` makes the paths absolute
before the texts of several tools are put together, and these are read with no prefix.

The two are not the same.  `parseLcov` looks for `SF:` in a line without the white space around it,
and has no file for an empty path.  `absolutizeSf` passes over a line that does not begin with
`SF:`, and makes the directory itself of an empty path.

`agree_iff` says when the two routes give the same result.  It compares what a file gains from the
records that come to it by mistake with what it loses.
-/

namespace Vanyline.Health.AbsoluteSources

open Vanyline.Lib TextLines Lcov

/-! ## Absolute paths -/

/-- `Path::join` of texts. -/
def joinText (base path : Text) : Text :=
  if path.head? = some '/' then path
  else if base = [] ∨ base.getLast? = some '/' then base ++ path
  else base ++ '/' :: path

/-- A line of the loop. -/
def absolutizeLine (execDir line : Text) : Text :=
  match stripPrefix "SF:".toList line with
  | some raw =>
    if (trim raw).head? = some '/' then line
    else "SF:".toList ++ joinText execDir (trim raw)
  | none => line

def absolutizeSf (text execDir : Text) : Text := unlines ((lines text).map (absolutizeLine execDir))

/-! ## What is claimed -/

/-- The same report, or an error on the same line. -/
def SameResult : Except InvalidLcov CoverageReport → Except InvalidLcov CoverageReport → Prop
  | .ok report, .ok report' => report = report'
  | .error error, .error error' => error.line = error'.line
  | _, _ => False

/-- Both routes give the same result. -/
def Agree (root pathPrefix text : Text) : Prop :=
  SameResult (parseLcov (absolutizeSf text (joinText root pathPrefix)) (.parse root) [])
    (parseLcov text (.parse root) pathPrefix)

/-! ## How a source is read -/

/-- The value of an `SF:` line, and whether the line begins with `SF:`. -/
structure Source where
  flush : Bool
  value : Text

def sourceOf (line : Text) : Option Source :=
  (stripPrefix "SF:".toList (trim line)).map fun raw =>
    ⟨(stripPrefix "SF:".toList line).isSome, trim raw⟩

namespace Source

/-- The file that a source is read as. -/
def meant (root : Path) (pathPrefix : Text) (source : Source) : Option Text :=
  relativize source.value root pathPrefix

/-- The file that it is read as when it was made absolute before: an empty value is the directory
of the prefix, and a value that is indented is left as it is. -/
def taken (root : Path) (pathPrefix : Text) (source : Source) : Option Text :=
  if source.flush then
    if source.value = [] then Lcov.normalize pathPrefix else relativize source.value root pathPrefix
  else relativize source.value root []

end Source

/-- A record, with the file that it is meant for and the one that it is taken for. -/
structure Entry where
  meant : Option Text
  taken : Option Text
  hits : List (Nat × Nat)

def entries (root : Path) (pathPrefix : Text) : List Text → List Entry
  | line :: ls =>
    match sourceOf line with
    | some source =>
      ⟨source.meant root pathPrefix, source.taken root pathPrefix,
        dataOf (ls.map (lineOf root pathPrefix))⟩ :: entries root pathPrefix ls
    | none => entries root pathPrefix ls
  | [] => []

/-! ## When the routes agree -/

/-- The sums of the hits of the lines. -/
def coverage (entries : List Entry) (n : Nat) : Option Nat :=
  total ((entries.flatMap Entry.hits).filterMap fun hit => if hit.1 = n then some hit.2 else none)

/-- The same lines without hits, and as many lines with hits. -/
def Alike (hits hits' : Nat → Option Nat) : Prop :=
  (∀ n, hits n = some 0 ↔ hits' n = some 0) ∧
    {n | ∃ count, hits n = some count ∧ count ≠ 0}.ncard =
      {n | ∃ count, hits' n = some count ∧ count ≠ 0}.ncard

/-- The records that are meant for the file and taken for it. -/
def kept (entries : List Entry) (path : Text) : List Entry :=
  entries.filter fun entry => entry.meant = some path ∧ entry.taken = some path

/-- Those that are taken for the file by mistake. -/
def gained (entries : List Entry) (path : Text) : List Entry :=
  entries.filter fun entry => entry.meant ≠ some path ∧ entry.taken = some path

/-- Those that are taken for another one, or for none. -/
def lost (entries : List Entry) (path : Text) : List Entry :=
  entries.filter fun entry => entry.meant = some path ∧ entry.taken ≠ some path

/-- What the files gain makes up for what they lose. -/
def Balanced (entries : List Entry) : Prop :=
  ∀ path, Alike (coverage (kept entries path ++ gained entries path))
    (coverage (kept entries path ++ lost entries path))

/-- No path that is made absolute is divided into lines: neither the root nor the prefix has a
newline, or there is no path to be made absolute. -/
def Unbroken (root pathPrefix text : Text) : Prop :=
  ('\n' ∉ root ∧ '\n' ∉ pathPrefix) ∨
    ∀ line ∈ lines text, ∀ source ∈ sourceOf line, source.flush = true →
      source.value.head? = some '/'

/-- Every record is ended before the next one, all hits are in records, and none is malformed. -/
def InOrder (root : Path) (pathPrefix text : Text) : Prop :=
  (tags root pathPrefix text).foldlM Line.next false = some false

/-! ## Paths -/

/-- Empty components and `.` are passed over. -/
theorem resolve_filter {p : Name → Bool} (hp : ∀ c, p c = false → c = [] ∨ c = dot)
    (parts components : List Name) :
    resolve parts (components.filter p) = resolve parts components := by
  induction components generalizing parts with
  | nil => rfl
  | cons c components ih =>
      rw [resolve]
      by_cases hc : p c = true
      · rw [List.filter_cons_of_pos hc, resolve]
        split_ifs
        · exact ih parts
        · rfl
        · exact ih _
        · exact ih _
      · rw [List.filter_cons_of_neg hc, if_pos (hp c (Bool.eq_false_iff.2 hc))]
        exact ih parts

theorem normalize_eq (text : Text) :
    Lcov.normalize text = normalizeComponents (Path.names text) := by
  have hfilter := resolve_filter (p := fun c => decide (c ≠ [])) (by simp) [] (text.splitOn '/')
  unfold Lcov.normalize normalizeComponents Path.names
  rw [hfilter]

theorem map_componentText (names : List Name) :
    (names.filterMap Path.component?).map componentText = names.filter fun c => c ≠ dot := by
  induction names with
  | nil => rfl
  | cons c names ih =>
      by_cases hdot : c = dot
      · have hnone : Path.component? c = none := if_pos hdot
        rw [List.filterMap_cons_none hnone, List.filter_cons_of_neg (by simp [hdot])]
        exact ih
      rw [List.filter_cons_of_pos (by simp [hdot])]
      by_cases hdotdot : c = dotdot
      · have hparent : Path.component? c = some .parentDir := by
          rw [Path.component?, if_neg hdot, if_pos hdotdot]
        rw [List.filterMap_cons_some hparent, List.map_cons, hdotdot, ih]
        rfl
      · have hnormal : Path.component? c = some (.normal c) :=
          Path.component?_eq_normal ⟨hdot, hdotdot⟩
        rw [List.filterMap_cons_some hnormal, List.map_cons, ih]
        rfl

theorem names_joinText {base path : Text} (hbase : base ≠ []) (hpath : path.head? ≠ some '/') :
    Path.names (joinText base path) = Path.names base ++ Path.names path := by
  unfold joinText
  rw [if_neg hpath]
  split_ifs with hlast
  · rcases hlast with hnil | hlast
    · exact absurd hnil hbase
    · rw [← List.dropLast_append_getLast? _ hlast, List.append_assoc, List.singleton_append,
        Path.names_append_slash, Path.names_concat_slash]
  · exact Path.names_append_slash base path

theorem ne_nil_of_head {text : Text} {c : Char} (h : text.head? = some c) : text ≠ [] := by
  intro hnil
  rw [hnil] at h
  cases h

theorem head_joinText {base path : Text} (hbase : base.head? = some '/') :
    (joinText base path).head? = some '/' := by
  unfold joinText
  split_ifs with hpath
  · exact hpath
  · rw [List.head?_append_of_ne_nil _ (ne_nil_of_head hbase), hbase]
  · rw [List.head?_append_of_ne_nil _ (ne_nil_of_head hbase), hbase]

theorem normalizeComponents_names (text : Text) :
    normalizeComponents (((Path.names text).filterMap Path.component?).map componentText) =
      normalizeComponents (Path.names text) := by
  rw [map_componentText]
  unfold normalizeComponents
  rw [resolve_filter (by simp)]

variable {root pathPrefix : Text}

/-- The path below the directory of the prefix. -/
theorem relativize_relative {raw : Text} (hne : raw ≠ []) (hraw : raw.head? ≠ some '/')
    (base : Path) (pathPrefix : Text) : relativize raw base pathPrefix =
      normalizeComponents (Path.names pathPrefix ++ Path.names raw) := by
  unfold relativize
  rw [if_neg hne, if_neg hraw]
  split_ifs with hnil
  · rw [hnil, normalize_eq]
    rfl
  · rw [normalize_eq, Path.names_append_slash]

/-- The path that is made absolute, below the root. -/
theorem relativize_joinText {raw : Text} (hroot : root.head? = some '/')
    (hrelative : pathPrefix.head? ≠ some '/') (hraw : raw.head? ≠ some '/') :
    relativize (joinText (joinText root pathPrefix) raw) (.parse root) [] =
      normalizeComponents (Path.names pathPrefix ++ Path.names raw) := by
  have hdir := @head_joinText root pathPrefix hroot
  have hjoined := @head_joinText _ raw hdir
  have hnames : Path.names (joinText (joinText root pathPrefix) raw) =
      Path.names root ++ (Path.names pathPrefix ++ Path.names raw) := by
    rw [names_joinText (ne_nil_of_head hdir) hraw, names_joinText (ne_nil_of_head hroot) hrelative,
      List.append_assoc]
  unfold relativize
  rw [if_neg (ne_nil_of_head hjoined), if_pos hjoined, Path.stripPrefix_parse hroot hjoined hnames,
    Option.bind_some, ← Path.names_append_slash, normalizeComponents_names]

/-! ## Lines -/

theorem isWhite_mark : ∀ c ∈ "SF:".toList, isWhite c = false := by
  intro c hc
  have hall : ("SF:".toList.all fun c => !isWhite c) = true := rfl
  simpa using List.all_eq_true.1 hall c hc

/-- A line that begins with `SF:`. -/
theorem sourceOf_flush {line raw : Text} (h : stripPrefix "SF:".toList line = some raw) :
    sourceOf line = some ⟨true, trim raw⟩ := by
  have hline := stripPrefix_eq_some h
  unfold sourceOf
  rw [h, hline, trim_append (by decide) isWhite_mark, stripPrefix_append, Option.map_some,
    trim_rdropWhile]
  rfl

theorem lineOf_source {root : Path} {pathPrefix line : Text} {source : Source}
    (h : sourceOf line = some source) :
    lineOf root pathPrefix line = .source (source.meant root pathPrefix) := by
  unfold sourceOf at h
  obtain ⟨raw, hraw, heq⟩ := Option.map_eq_some_iff.1 h
  rw [source_of_stripPrefix hraw, ← heq]
  rfl

/-- The directory matters to the lines of `SF:` only. -/
theorem lineOf_of_none {line : Text} (h : sourceOf line = none) (root : Path)
    (pathPrefix other : Text) : lineOf root pathPrefix line = lineOf root other line := by
  have hnone := Option.map_eq_none_iff.1 h
  unfold lineOf
  rw [hnone]

/-- How a line is read when its path was made absolute before. -/
def takenLine (root : Path) (pathPrefix line : Text) : Line :=
  match sourceOf line with
  | some source => .source (source.taken root pathPrefix)
  | none => lineOf root pathPrefix line

theorem getLast_joinText {base path : Text} (hbase : base ≠ []) (hpath : path.head? ≠ some '/') :
    (joinText base path).getLast? = if path = [] then some '/' else path.getLast? := by
  unfold joinText
  rw [if_neg hpath]
  by_cases hnil : path = []
  · rw [if_pos hnil, hnil]
    split_ifs with hlast
    · rw [List.append_nil]
      exact hlast.resolve_left hbase
    · exact List.getLast?_concat
  · rw [if_neg hnil]
    split_ifs with hlast
    · exact List.getLast?_append_of_ne_nil _ hnil
    · rw [List.getLast?_append_of_ne_nil _ (List.cons_ne_nil _ _), List.getLast?_cons,
        List.getLast?_eq_some_getLast hnil]
      rfl

/-- A line whose path is made absolute. -/
theorem lineOf_joined {path : Text} (hpath : path.head? = some '/')
    (hlast : ∀ c ∈ path.getLast?, isWhite c = false) (root : Path) (pathPrefix : Text) :
    lineOf root pathPrefix ("SF:".toList ++ path) =
      .source (relativize path root pathPrefix) := by
  have hslash : isWhite '/' = false := by decide
  have htrim : trim path = path := by
    apply trim_eq_self _ hlast
    intro c hc
    rw [hpath] at hc
    cases hc
    exact hslash
  have hself : path.rdropWhile isWhite = path := by
    rw [List.rdropWhile_eq_self_iff]
    intro hne
    rw [hlast _ (List.getLast_mem_getLast? hne)]
    exact Bool.false_ne_true
  have hline : stripPrefix "SF:".toList (trim ("SF:".toList ++ path)) = some path := by
    rw [trim_append (by decide) isWhite_mark, hself, stripPrefix_append]
  rw [source_of_stripPrefix hline, htrim]

/-- What is read of a line that is made absolute. -/
theorem lineOf_absolutizeLine (hroot : root.head? = some '/')
    (hrelative : pathPrefix.head? ≠ some '/') (line : Text) :
    lineOf (.parse root) [] (absolutizeLine (joinText root pathPrefix) line) =
      takenLine (.parse root) pathPrefix line := by
  unfold absolutizeLine takenLine
  cases hflush : stripPrefix "SF:".toList line with
  | none =>
      dsimp only
      cases hsource : sourceOf line with
      | none => exact lineOf_of_none hsource ..
      | some source =>
          have hindented : source.flush = false := by
            obtain ⟨raw, -, heq⟩ := Option.map_eq_some_iff.1 hsource
            rw [← heq, hflush]
            rfl
          rw [lineOf_source hsource]
          show Line.source (source.meant (.parse root) []) =
            .source (source.taken (.parse root) pathPrefix)
          unfold Source.taken
          rw [hindented]
          rfl
  | some raw =>
      have hdir : (joinText root pathPrefix).head? = some '/' := head_joinText hroot
      have hhead : (joinText (joinText root pathPrefix) (trim raw)).head? = some '/' :=
        head_joinText hdir
      have hsolid : (trim raw).head? ≠ some '/' →
          ∀ c ∈ (joinText (joinText root pathPrefix) (trim raw)).getLast?, isWhite c = false := by
        intro hraw c hc
        rw [getLast_joinText (ne_nil_of_head hdir) hraw] at hc
        split_ifs at hc
        · cases hc
          exact (by decide : isWhite '/' = false)
        · exact getLast?_trim raw c hc
      rw [sourceOf_flush hflush]
      dsimp only
      unfold Source.taken
      dsimp only
      rw [if_pos rfl]
      split_ifs with habsolute hnil hnil
      · rw [hnil] at habsolute
        cases habsolute
      · rw [lineOf_source (sourceOf_flush hflush)]
        unfold Source.meant relativize
        dsimp only
        rw [if_neg hnil, if_neg hnil, if_pos habsolute, if_pos habsolute]
      · rw [lineOf_joined hhead (hsolid habsolute),
          relativize_joinText hroot hrelative habsolute, hnil, normalize_eq]
        congr 2
        exact List.append_nil _
      · rw [lineOf_joined hhead (hsolid habsolute), relativize_joinText hroot hrelative habsolute,
          relativize_relative hnil habsolute]

theorem mem_joinText {base path : Text} {c : Char} (hc : c ≠ '/') (h : c ∈ joinText base path) :
    c ∈ base ∨ c ∈ path := by
  unfold joinText at h
  split_ifs at h
  · exact .inr h
  · exact List.mem_append.1 h
  · rcases List.mem_append.1 h with h | h
    · exact .inl h
    · exact .inr ((List.mem_cons.1 h).resolve_left hc)

/-- A line of a text stays one line. -/
theorem newline_notMem_absolutizeLine {text line : Text} (h : Unbroken root pathPrefix text)
    (hline : line ∈ lines text) :
    '\n' ∉ absolutizeLine (joinText root pathPrefix) line := by
  have hself := newline_notMem_lines text line hline
  unfold absolutizeLine
  cases hflush : stripPrefix "SF:".toList line with
  | none => exact hself
  | some raw =>
      dsimp only
      split_ifs with hraw
      · exact hself
      · rcases h with hdir | habsolute
        · intro hmem
          rcases List.mem_append.1 hmem with hmem | hmem
          · exact absurd hmem (by decide)
          rcases mem_joinText (by decide) hmem with hmem | hmem
          · rcases mem_joinText (by decide) hmem with hmem | hmem
            · exact hdir.1 hmem
            · exact hdir.2 hmem
          · apply hself
            rw [stripPrefix_eq_some hflush]
            exact List.mem_append_right _ (mem_trim hmem)
        · exact absurd (habsolute line hline ⟨true, trim raw⟩ (sourceOf_flush hflush) rfl) hraw

theorem tags_absolutizeSf (hroot : root.head? = some '/') (hrelative : pathPrefix.head? ≠ some '/')
    {text : Text} (hlines : Unbroken root pathPrefix text) :
    tags (.parse root) [] (absolutizeSf text (joinText root pathPrefix)) =
      (lines text).map (takenLine (.parse root) pathPrefix) := by
  unfold tags absolutizeSf
  rw [lines_unlines, List.map_map, List.map_map]
  · apply List.map_congr_left
    intro line hline
    show lineOf (.parse root) [] (stripCr (absolutizeLine (joinText root pathPrefix) line)) = _
    rw [lineOf_stripCr]
    exact lineOf_absolutizeLine hroot hrelative line
  · intro line hline
    obtain ⟨whole, hwhole, heq⟩ := List.mem_map.1 hline
    rw [← heq]
    exact newline_notMem_absolutizeLine hlines hwhole

/-! ## The line of an error -/

/-- The first line that is refused, where lines are numbered from `k`. -/
def refusedAt : Bool → Nat → List Line → Option Nat
  | _, _, [] => none
  | opened, k, line :: ls =>
    match line.next opened with
    | none => some k
    | some opened => refusedAt opened (k + 1) ls

theorem line_of_readLine {root : Path} {pathPrefix : Text} {scan : Scan} {numbered : Text × Nat}
    {error : InvalidLcov} (h : readLine root pathPrefix scan numbered = .error error) :
    error.line = numbered.2 := by
  unfold readLine at h
  dsimp only at h
  split at h
  · cases h
  · split at h
    · split at h
      · cases h
        rfl
      · cases h
    · split at h
      · split at h
        · cases h
          rfl
        · split at h
          · cases h
            rfl
          · split at h <;> cases h
      · cases h

theorem refusedAt_of_error {root : Path} {pathPrefix : Text} {scan : Scan} {ls : List Text}
    {k : Nat} {error : InvalidLcov}
    (h : (ls.zipIdx k).foldlM (readLine root pathPrefix) scan = .error error) :
    refusedAt scan.record.isSome k (ls.map (lineOf root pathPrefix)) = some error.line := by
  induction ls generalizing scan k with
  | nil => cases h
  | cons line ls ih =>
      have hline := readLine_eq root pathPrefix scan (line, k)
      rw [List.zipIdx_cons, List.foldlM_cons] at h
      rw [List.map_cons, refusedAt]
      dsimp only at hline
      cases hnext : (lineOf root pathPrefix line).next scan.record.isSome with
      | none =>
          rw [hnext] at hline
          obtain ⟨error', herror⟩ := hline
          rw [herror] at h
          cases h
          exact congrArg some (line_of_readLine herror).symm
      | some opened =>
          rw [hnext] at hline
          obtain ⟨files, hok, -⟩ := hline
          have hopened : ((lineOf root pathPrefix line).recordAfter scan.record).isSome = opened :=
            @recordAfter_of_next scan.record [lineOf root pathPrefix line] opened
              (by rw [List.foldlM_cons, hnext]; rfl)
          rw [hok] at h
          have hrest := ih h
          rw [hopened] at hrest
          exact hrest

theorem refusedAt_eq_none {ls : List Line} {opened final : Bool}
    (h : ls.foldlM Line.next opened = some final) (k : Nat) : refusedAt opened k ls = none := by
  induction ls generalizing opened k with
  | nil => rfl
  | cons line ls ih =>
      rw [List.foldlM_cons] at h
      rw [refusedAt]
      cases hnext : line.next opened with
      | none =>
          rw [hnext] at h
          cases h
      | some middle =>
          rw [hnext] at h
          exact ih h (k + 1)

/-- The line of the error of a text that is not accepted. -/
def errorLine (ls : List Line) : Nat := (refusedAt false 1 ls).getD (max ls.length 1)

theorem line_of_parse {root : Path} {pathPrefix text : Text} {error : InvalidLcov}
    (h : parseLcov text root pathPrefix = .error error) :
    error.line = errorLine (tags root pathPrefix text) := by
  have hrun := readLines_eq root pathPrefix ⟨.empty, none⟩ (lines text) 1
  unfold parseLcov at h
  unfold errorLine
  cases hfold : ((lines text).zipIdx 1).foldlM (readLine root pathPrefix) ⟨.empty, none⟩ with
  | error error' =>
      rw [hfold] at h
      cases h
      have hrefused : refusedAt false 1 (tags root pathPrefix text) = some error.line :=
        refusedAt_of_error hfold
      rw [hrefused]
      rfl
  | ok scan =>
      rw [hfold] at h hrun
      dsimp only at h
      split_ifs at h
      cases h
      cases hnext : (tags root pathPrefix text).foldlM Line.next false with
      | none =>
          have hnone : ((lines text).map (lineOf root pathPrefix)).foldlM Line.next
              (Scan.mk .empty none).record.isSome = none := hnext
          rw [hnone] at hrun
          obtain ⟨error, herror⟩ := hrun
          cases herror
      | some final =>
          rw [refusedAt_eq_none hnext, tags, List.length_map]
          rfl

/-- The error is on the same line where the lines go on in the same way. -/
theorem refusedAt_congr {f g : Text → Line}
    (h : ∀ line opened, (f line).next opened = (g line).next opened) (ls : List Text)
    (opened : Bool) (k : Nat) :
    refusedAt opened k (ls.map f) = refusedAt opened k (ls.map g) := by
  induction ls generalizing opened k with
  | nil => rfl
  | cons line ls ih =>
      rw [List.map_cons, List.map_cons, refusedAt, refusedAt, h line opened]
      split
      · rfl
      · exact ih _ _

theorem foldlM_next_congr {f g : Text → Line}
    (h : ∀ line opened, (f line).next opened = (g line).next opened) (ls : List Text)
    (opened : Bool) :
    (ls.map f).foldlM Line.next opened = (ls.map g).foldlM Line.next opened := by
  induction ls generalizing opened with
  | nil => rfl
  | cons line ls ih =>
      rw [List.map_cons, List.map_cons, List.foldlM_cons, List.foldlM_cons, h line opened]
      exact congrArg (((g line).next opened).bind ·) (funext ih)

theorem next_takenLine (root : Path) (pathPrefix line : Text) (opened : Bool) :
    (takenLine root pathPrefix line).next opened =
      (lineOf root pathPrefix line).next opened := by
  unfold takenLine
  cases hsource : sourceOf line with
  | none => rfl
  | some source =>
      rw [lineOf_source hsource]
      rfl

/-! ## Records -/

theorem isSome_sourceOf {root : Path} {pathPrefix line : Text} {path : Option Text}
    (h : lineOf root pathPrefix line = .source path) : (sourceOf line).isSome = true := by
  unfold lineOf at h
  unfold sourceOf
  split_ifs at h
  split at h
  · rename_i raw hraw
    rw [hraw]
    rfl
  · split at h
    · split at h <;> cases h
    · cases h

theorem dataOf_takenLine (root : Path) (pathPrefix : Text) (ls : List Text) :
    dataOf (ls.map (takenLine root pathPrefix)) = dataOf (ls.map (lineOf root pathPrefix)) := by
  induction ls with
  | nil => rfl
  | cons line ls ih =>
      rw [List.map_cons, List.map_cons]
      unfold takenLine
      cases hsource : sourceOf line with
      | some source =>
          rw [lineOf_source hsource]
          exact ih
      | none =>
          dsimp only
          cases hline : lineOf root pathPrefix line with
          | data number hits => exact congrArg ((number, hits) :: ·) ih
          | close => rfl
          | source path => exact ih
          | invalid reason => exact ih
          | other => exact ih

/-- Both readings have the records of the entries. -/
theorem records_entries (root : Path) (pathPrefix : Text) (ls : List Text) :
    records (ls.map (lineOf root pathPrefix)) =
        (entries root pathPrefix ls).map (fun entry => ⟨entry.meant, entry.hits⟩) ∧
      records (ls.map (takenLine root pathPrefix)) =
        (entries root pathPrefix ls).map fun entry => ⟨entry.taken, entry.hits⟩ := by
  induction ls with
  | nil => exact ⟨rfl, rfl⟩
  | cons line ls ih =>
      rw [List.map_cons, List.map_cons, entries]
      have htaken : takenLine root pathPrefix line =
          match sourceOf line with
          | some source => .source (source.taken root pathPrefix)
          | none => lineOf root pathPrefix line := rfl
      cases hsource : sourceOf line with
      | some source =>
          rw [hsource] at htaken
          rw [htaken, lineOf_source hsource]
          show _ :: records _ = _ :: List.map _ _ ∧ _ :: records _ = _ :: List.map _ _
          rw [ih.1, ih.2, dataOf_takenLine]
          exact ⟨rfl, rfl⟩
      | none =>
          rw [hsource] at htaken
          rw [htaken]
          dsimp only
          cases hline : lineOf root pathPrefix line with
          | source path =>
              have hsome := isSome_sourceOf hline
              rw [hsource] at hsome
              cases hsome
          | data number hits => exact ih
          | close => exact ih
          | invalid reason => exact ih
          | other => exact ih

theorem mapOf_entries (read : Entry → Option Text) (entries : List Entry) (path : Text) :
    mapOf ((entries.map fun entry => Record.mk (read entry) entry.hits).flatMap Record.samples)
      path = coverage (entries.filter fun entry => read entry = some path) := by
  funext n
  unfold mapOf coverage
  congr 1
  induction entries with
  | nil => rfl
  | cons entry entries ih =>
      rw [List.map_cons, List.flatMap_cons, hitsOf_append, ih]
      by_cases hpath : read entry = some path
      · rw [List.filter_cons_of_pos (by simpa using hpath), List.flatMap_cons,
          List.filterMap_append]
        congr 1
        unfold Record.samples hitsOf
        dsimp only
        rw [hpath]
        dsimp only
        rw [List.filterMap_map]
        apply List.filterMap_congr
        intro hit hhit
        simp
      · rw [List.filter_cons_of_neg (by simpa using hpath)]
        have hnone : hitsOf (Record.samples ⟨read entry, entry.hits⟩) path n = [] := by
          unfold Record.samples hitsOf
          dsimp only
          cases hread : read entry with
          | none => rfl
          | some other =>
              have hne : other ≠ path := fun heq => hpath (by rw [hread, heq])
              rw [List.filterMap_eq_nil_iff]
              intro sample hsample
              obtain ⟨hit, -, heq⟩ := List.mem_map.1 hsample
              rw [← heq, if_neg fun hboth => hne hboth.1]
        rw [hnone]
        rfl

theorem coverage_perm {entries others : List Entry} (h : entries.Perm others) :
    coverage entries = coverage others := by
  funext n
  have hhits := (h.flatMap_right Entry.hits).filterMap
    fun hit => if hit.1 = n then some hit.2 else none
  unfold coverage total
  rw [hhits.sum_eq]
  split_ifs with hleft hright hright
  · rfl
  · rw [hleft] at hhits
    exact absurd (List.nil_perm.1 hhits) hright
  · rw [hright] at hhits
    exact absurd (List.perm_nil.1 hhits) hleft
  · rfl

/-- The records that are meant for a file: those that are kept, and those that are lost. -/
theorem coverage_meant (entries : List Entry) (path : Text) :
    coverage (entries.filter fun entry => entry.meant = some path) =
      coverage (kept entries path ++ lost entries path) := by
  apply coverage_perm
  have hperm := List.filter_append_perm (fun entry : Entry => decide (entry.taken = some path))
    (entries.filter fun entry => entry.meant = some path)
  rw [List.filter_filter, List.filter_filter] at hperm
  apply hperm.symm.trans
  apply List.Perm.of_eq
  unfold kept lost
  congr 2 <;> funext entry <;> simp [Bool.and_comm]

/-- The records that are taken for a file: those that are kept, and those that are gained. -/
theorem coverage_taken (entries : List Entry) (path : Text) :
    coverage (entries.filter fun entry => entry.taken = some path) =
      coverage (kept entries path ++ gained entries path) := by
  apply coverage_perm
  have hperm := List.filter_append_perm (fun entry : Entry => decide (entry.meant = some path))
    (entries.filter fun entry => entry.taken = some path)
  rw [List.filter_filter, List.filter_filter] at hperm
  apply hperm.symm.trans
  apply List.Perm.of_eq
  unfold kept gained
  congr 2 <;> funext entry <;> simp

/-! ## Reports of two maps -/

/-- Lines are numbered from one, below `2 ^ 32`. -/
def Numbered (map : LineMap) : Prop :=
  ∀ path n, (map path n).isSome = true → 1 ≤ n ∧ n ≤ Diff.u32Max

theorem ncard_isSome {hits : Nat → Option Nat} (hfinite : {n | (hits n).isSome = true}.Finite) :
    {n | (hits n).isSome = true}.ncard = {n | ∃ count, hits n = some count ∧ count ≠ 0}.ncard +
      {n | hits n = some 0}.ncard := by
  have hsplit : {n | (hits n).isSome = true} =
      {n | ∃ count, hits n = some count ∧ count ≠ 0} ∪ {n | hits n = some 0} := by
    ext n
    constructor
    · intro hn
      obtain ⟨count, hcount⟩ := Option.isSome_iff_exists.1 hn
      by_cases hzero : count = 0
      · rw [hzero] at hcount
        exact .inr hcount
      · exact .inl ⟨count, hcount, hzero⟩
    · intro hn
      rcases hn with ⟨count, hcount, -⟩ | hzero
      · exact Option.isSome_iff_exists.2 ⟨count, hcount⟩
      · exact Option.isSome_iff_exists.2 ⟨0, hzero⟩
  have hdisjoint : Disjoint {n | ∃ count, hits n = some count ∧ count ≠ 0}
      {n | hits n = some 0} := by
    rw [Set.disjoint_left]
    intro n hn hzero
    obtain ⟨count, hcount, hne⟩ := hn
    have hboth : some count = some 0 := hcount.symm.trans hzero
    exact hne (Option.some.inj hboth)
  rw [hsplit] at hfinite ⊢
  exact Set.ncard_union_eq hdisjoint (hfinite.subset Set.subset_union_left)
    (hfinite.subset Set.subset_union_right)

/-- As many lines are known of a file. -/
theorem Alike.found {map map' : LineMap} (h : Numbered map) (h' : Numbered map') {path : Text}
    (halike : Alike (map path) (map' path)) :
    {n | (map path n).isSome = true}.ncard = {n | (map' path n).isSome = true}.ncard := by
  have hfinite : ∀ {map : LineMap}, Numbered map → {n | (map path n).isSome = true}.Finite :=
    fun h => (Set.finite_Icc 1 Diff.u32Max).subset fun n hn => h path n hn
  have hzero : {n | map path n = some 0} = {n | map' path n = some 0} := Set.ext halike.1
  rw [ncard_isSome (hfinite h), ncard_isSome (hfinite h'), halike.2, hzero]

/-- A report of one map is a report of the other. -/
theorem Reports.of_alike {report : CoverageReport} {map map' : LineMap}
    (hreport : Reports report map') (h : Numbered map) (h' : Numbered map')
    (halike : ∀ path, Alike (map path) (map' path)) : Reports report map := by
  have hfinite : ∀ {map : LineMap}, Numbered map → ∀ path,
      {n | (map path n).isSome = true}.Finite :=
    fun h path => (Set.finite_Icc 1 Diff.u32Max).subset fun n hn => h path n hn
  refine ⟨hreport.sorted, ?_, ?_⟩
  · intro path
    rw [hreport.listed path]
    have hpos := Set.ncard_pos (hfinite h path)
    rw [(halike path).found h h', Set.ncard_pos (hfinite h' path)] at hpos
    exact hpos
  · intro file hfile
    have hdescribes := hreport.describes file hfile
    have hpath := halike file.path
    exact ⟨hdescribes.found.trans (hpath.found h h').symm, hdescribes.hit.trans hpath.2.symm,
      hdescribes.normal, fun n => (hdescribes.covers n).trans (hpath.1 n).symm,
      hdescribes.complement⟩

theorem report_eq_iff {report report' : CoverageReport} {map map' : LineMap}
    (hreport : Reports report map) (hreport' : Reports report' map') (h : Numbered map)
    (h' : Numbered map') : report = report' ↔ ∀ path, Alike (map path) (map' path) := by
  constructor
  · intro heq path
    subst heq
    by_cases hlisted : ∃ file ∈ report.files, file.path = path
    · obtain ⟨file, hfile, hpath⟩ := hlisted
      have hone := hreport.describes file hfile
      have hother := hreport'.describes file hfile
      rw [hpath] at hone hother
      exact ⟨fun n => (hone.covers n).symm.trans (hother.covers n), hone.hit.symm.trans hother.hit⟩
    · have hnone : ∀ {map : LineMap}, Reports report map → map path = fun _ => none := by
        intro map hreport
        funext n
        apply Option.not_isSome_iff_eq_none.1
        intro hsome
        exact hlisted ((hreport.listed path).2 ⟨n, hsome⟩)
      rw [hnone hreport, hnone hreport']
      exact ⟨fun _ => Iff.rfl, rfl⟩
  · intro halike
    exact hreport.ext (Reports.of_alike hreport' h h' halike)

theorem numbered_lineMap {root : Path} {pathPrefix text : Text}
    (h : (tags root pathPrefix text).foldlM Line.next false = some false) :
    Numbered (lineMap root pathPrefix text) := by
  intro path n hn
  rw [lineMap_eq h] at hn
  exact number_of_mapOf number_of_samplesFrom hn

/-! ## The two routes -/

theorem lineMap_meant (root : Path) (pathPrefix text : Text) (path : Text) :
    lineMap root pathPrefix text path =
      coverage (kept (entries root pathPrefix (lines text)) path ++
        lost (entries root pathPrefix (lines text)) path) := by
  unfold lineMap tags
  rw [(records_entries root pathPrefix (lines text)).1,
    mapOf_entries Entry.meant, coverage_meant]

theorem lineMap_taken (hroot : root.head? = some '/') (hrelative : pathPrefix.head? ≠ some '/')
    {text : Text} (hlines : Unbroken root pathPrefix text) (path : Text) :
    lineMap (.parse root) [] (absolutizeSf text (joinText root pathPrefix)) path =
      coverage (kept (entries (.parse root) pathPrefix (lines text)) path ++
        gained (entries (.parse root) pathPrefix (lines text)) path) := by
  unfold lineMap
  rw [tags_absolutizeSf hroot hrelative hlines,
    (records_entries (.parse root) pathPrefix (lines text)).2, mapOf_entries Entry.taken,
    coverage_taken]

theorem agree_iff (hroot : root.head? = some '/') (hrelative : pathPrefix.head? ≠ some '/')
    {text : Text} (hlines : Unbroken root pathPrefix text) :
    Agree root pathPrefix text ↔
      (InOrder (.parse root) pathPrefix text →
        Balanced (entries (.parse root) pathPrefix (lines text))) := by
  have htags := tags_absolutizeSf hroot hrelative hlines
  have hnext : (tags (.parse root) [] (absolutizeSf text
      (joinText root pathPrefix))).foldlM Line.next false =
      (tags (.parse root) pathPrefix text).foldlM Line.next false := by
    rw [htags]
    exact foldlM_next_congr (next_takenLine _ _) _ _
  have herror : errorLine (tags (.parse root) [] (absolutizeSf text
      (joinText root pathPrefix))) = errorLine (tags (.parse root) pathPrefix text) := by
    rw [htags]
    unfold errorLine tags
    rw [refusedAt_congr (next_takenLine _ _), List.length_map, List.length_map]
  unfold Agree
  by_cases horder : InOrder (.parse root) pathPrefix text
  · have horder' := hnext.trans horder
    obtain ⟨report, hreport⟩ := parse_ok_iff.2 horder'
    obtain ⟨report', hreport'⟩ := parse_ok_iff.2 horder
    rw [hreport, hreport']
    show report = report' ↔ _
    rw [report_eq_iff (reports_of_parse hreport) (reports_of_parse hreport')
      (numbered_lineMap horder') (numbered_lineMap horder)]
    constructor
    · intro halike _ path
      have hpath := halike path
      rw [lineMap_taken hroot hrelative hlines, lineMap_meant] at hpath
      exact hpath
    · intro hbalanced path
      rw [lineMap_taken hroot hrelative hlines, lineMap_meant]
      exact hbalanced horder path
  · have hrefused : ∀ {root : Path} {pathPrefix text : Text},
        ¬(tags root pathPrefix text).foldlM Line.next false = some false →
          ∃ error, parseLcov text root pathPrefix = .error error ∧
            error.line = errorLine (tags root pathPrefix text) := by
      intro root pathPrefix text hnot
      cases hparse : parseLcov text root pathPrefix with
      | ok report => exact absurd (parse_ok_iff.1 ⟨report, hparse⟩) hnot
      | error error => exact ⟨error, rfl, line_of_parse hparse⟩
    have horder' : ¬(tags (.parse root) [] (absolutizeSf text
        (joinText root pathPrefix))).foldlM Line.next false = some false := by
      rw [hnext]
      exact horder
    obtain ⟨error, hparse, hline⟩ := hrefused horder'
    obtain ⟨error', hparse', hline'⟩ := hrefused horder
    rw [hparse, hparse']
    show error.line = error'.line ↔ _
    rw [hline, hline', herror]
    exact ⟨fun _ h => absurd h horder, fun _ => rfl⟩

/-! ## Usual reports -/

theorem mem_entries {root : Path} {pathPrefix : Text} {ls : List Text} {entry : Entry}
    (h : entry ∈ entries root pathPrefix ls) : ∃ line ∈ ls, ∃ source ∈ sourceOf line,
      entry.meant = source.meant root pathPrefix ∧ entry.taken = source.taken root pathPrefix := by
  induction ls with
  | nil => cases h
  | cons line ls ih =>
      have hrest : entry ∈ entries root pathPrefix ls → ∃ line' ∈ line :: ls,
          ∃ source ∈ sourceOf line', entry.meant = source.meant root pathPrefix ∧
            entry.taken = source.taken root pathPrefix := by
        intro hmem
        obtain ⟨line', hline', hsource⟩ := ih hmem
        exact ⟨line', List.mem_cons_of_mem _ hline', hsource⟩
      rw [entries] at h
      cases hsource : sourceOf line with
      | none =>
          rw [hsource] at h
          exact hrest h
      | some source =>
          rw [hsource] at h
          rcases List.mem_cons.1 h with hfirst | hmem
          · rw [hfirst]
            exact ⟨line, List.mem_cons_self .., source, hsource, rfl, rfl⟩
          · exact hrest hmem

theorem balanced_of_unmoved {entries : List Entry}
    (h : ∀ entry ∈ entries, entry.taken = entry.meant) : Balanced entries := by
  intro path
  have hgained : gained entries path = [] := by
    apply List.filter_eq_nil_iff.2
    intro entry hentry
    simp [h entry hentry]
  have hlost : lost entries path = [] := by
    apply List.filter_eq_nil_iff.2
    intro entry hentry
    simp [h entry hentry]
  rw [hgained, hlost]
  exact ⟨fun _ => Iff.rfl, rfl⟩

/-- Nothing moves where every `SF:` begins its line and has a path. -/
theorem balanced_of_flush {root : Path} {ls : List Text}
    (h : ∀ line ∈ ls, ∀ source ∈ sourceOf line, source.flush = true ∧ source.value ≠ []) :
    Balanced (entries root pathPrefix ls) := by
  apply balanced_of_unmoved
  intro entry hentry
  obtain ⟨line, hline, source, hsource, hmeant, htaken⟩ := mem_entries hentry
  obtain ⟨hflush, hvalue⟩ := h line hline source hsource
  rw [hmeant, htaken, Source.taken, if_pos hflush, if_neg hvalue]
  rfl

theorem agree_iff_flush : Agree "/r".toList "p".toList "SF:a\nDA:1,1\nend_of_record".toList :=
  (agree_iff (by decide) (by decide) (.inl (by decide))).2 fun _ => balanced_of_flush (by decide)

theorem not_agree {text : Text} {report report' : CoverageReport}
    (h : parseLcov (absolutizeSf text (joinText root pathPrefix)) (.parse root) [] = .ok report)
    (h' : parseLcov text (.parse root) pathPrefix = .ok report') (hne : report ≠ report') :
    ¬Agree root pathPrefix text := by
  unfold Agree
  rw [h, h']
  exact hne

/-- An indented source is moved to the root, and an empty one to the directory of the tool; a root
with a newline has no path in the text. -/
theorem agree_fails :
    ¬Agree "/r".toList "p".toList " SF:a\nDA:1,1\nend_of_record".toList ∧
    ¬Agree "/r".toList "p".toList "SF:\nDA:1,1\nend_of_record".toList ∧
    ¬Agree "/r\nq".toList "p".toList "SF:a\nDA:1,1\nend_of_record".toList := by
  refine ⟨?_, ?_, ?_⟩
  · exact @not_agree _ _ _ ⟨[⟨"a".toList, 1, 1, []⟩]⟩ ⟨[⟨"p/a".toList, 1, 1, []⟩]⟩
      (by decide +kernel) (by decide +kernel) (by decide)
  · exact @not_agree _ _ _ ⟨[⟨"p".toList, 1, 1, []⟩]⟩ ⟨[]⟩
      (by decide +kernel) (by decide +kernel) (by decide)
  · exact @not_agree _ _ _ ⟨[]⟩ ⟨[⟨"p/a".toList, 1, 1, []⟩]⟩
      (by decide +kernel) (by decide +kernel) (by decide)

end Vanyline.Health.AbsoluteSources
