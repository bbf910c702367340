import Vanyline.Health.Scheduler
import Vanyline.Lib.Fields
import Vanyline.Lib.JsonValue

/-!
# From declared checks to slots

A declared check gives one slot, or one for each workspace of a `package.json`.  A check that is
refused, or cannot be expanded, gives a slot with its result.

* `validate` is the check of a declaration, and `expandOne` its expansion.
* `tags` are the workspaces of the slots of a declaration, which the slots themselves do not keep,
  and `origins` are the declarations and workspaces of all slots.

The files of the repository (`World`) are a parameter: the `package.json` of a directory, the names
of the directories below it, and what `git ls-files` prints.
-/

namespace Vanyline.Health.Expansion

open Vanyline.Lib TextLines Fields
open Scheduler (CheckStatus CheckResult plainResult)

/-! ## Declarations -/

inductive CheckKind
  | format
  | lint
  | tests
  | coverage
  | newCode
deriving DecidableEq

inductive OutputKind
  | none
  /-- The path may have tokens. -/
  | lcov (path : Text)
  | cargoMessages
  | tscText
  | ruffJson
  | hadolintJson
deriving DecidableEq

inductive Expand
  | npmWorkspaces
  | files (globs : List Text)
deriving DecidableEq

structure Check where
  id : Text
  kind : CheckKind
  argv : List Text
  cwd : Text
  output : OutputKind
  expand : Option Expand
  serialGroup : Option Text
  after : Option Text
deriving DecidableEq

/-- The text of `HealthError::InvalidCheck`. -/
def invalidCheck (id reason : Text) : Text :=
  "VNL-HLT-003: invalid check '".toList ++ id ++ "': ".toList ++ reason

def validate (check : Check) : Except Text Unit :=
  if check.id = [] then .error (invalidCheck check.id "empty id".toList)
  else match check.argv with
    | [] => .error (invalidCheck check.id "empty argv".toList)
    | first :: _ =>
      if first = [] then .error (invalidCheck check.id "empty argv[0]".toList)
      else if ['/'].isPrefixOf check.cwd || (check.cwd.splitOn '/').any (· == ['.', '.']) then
        .error (invalidCheck check.id ("cwd escapes the repository: ".toList ++ check.cwd))
      else .ok ()

/-! ## The repository -/

structure World where
  /-- The value of the `package.json` of a directory, or why there is none. -/
  manifest : Text → Except Text Json
  /-- The directories in a directory below that of a `package.json`. -/
  subdirs : Text → Text → Option (List Text)
  /-- What `git ls-files` prints, or the text of the error. -/
  lsFiles : Except Text Text

/-! ## Globs -/

/-- `seg_match_chars`: a glob on one segment. -/
def segmentMatch : Text → Text → Bool
  | [], text => text.isEmpty
  | first :: rest, [] => first == '*' && segmentMatch rest []
  | first :: rest, c :: text =>
    if first = '*' then segmentMatch rest (c :: text) || segmentMatch (first :: rest) text
    else if first = '?' then segmentMatch rest text
    else c == first && segmentMatch rest text
termination_by pattern text => pattern.length + text.length

def globSegments : List Text → List Text → Bool
  | [], text => text.isEmpty
  | first :: rest, [] => first == "**".toList && globSegments rest []
  | first :: rest, segment :: text =>
    if first = "**".toList then
      globSegments rest (segment :: text) || globSegments (first :: rest) text
    else segmentMatch first segment && globSegments rest text
termination_by pattern text => pattern.length + text.length

def globMatch (pattern text : Text) : Bool :=
  globSegments (pattern.splitOn '/') (text.splitOn '/')

/-! ## Workspaces -/

def joinPrefix (pre name : Text) : Text := if pre = [] then name else pre ++ '/' :: name

/-- One segment of the glob, for each of the directories that have been found. -/
def expandSegment (world : World) (base segment : Text) (current : List Text) : List Text :=
  current.flatMap fun pre =>
    match world.subdirs base pre with
    | none => []
    | some names =>
      ((names.insertionSort (· ≤ ·)).filter (segmentMatch segment)).map (joinPrefix pre)

def expandGlobDirs (world : World) (base pattern : Text) : List Text :=
  (((pattern.splitOn '/').filter (· ≠ [])).foldl
    (fun current segment => expandSegment world base segment current) [[]]).filter (· ≠ [])

/-- The field `workspaces` of a `package.json`, if it has some. -/
def workspaceEntries (value : Json) : Except Text (Option (List Json)) :=
  match value.get "workspaces" with
  | none | some .null => .ok none
  | some (.arr items) => .ok (some items)
  | some (.obj fields) =>
    match Json.get "packages" (.obj fields) with
    | some (.arr items) => .ok (some items)
    | _ => .ok none
  | some _ => .error "champ workspaces ni tableau ni \x7bpackages\x7d".toList

def candidates (world : World) (base pattern : Text) : List Text :=
  if pattern.any (fun c => c == '*' || c == '?') then expandGlobDirs world base pattern
  else [pattern]

/-- The workspaces so far, and those of a list that are not among them. -/
def addNew (seen : List Text) : List Text → List Text
  | [] => seen
  | candidate :: rest =>
    addNew (if seen.contains candidate then seen else seen ++ [candidate]) rest

def readEntries (world : World) (base : Text) : List Text → List Json → Except Text (List Text)
  | seen, [] => .ok seen
  | seen, .str pattern :: rest =>
    readEntries world base (addNew seen (candidates world base pattern)) rest
  | _, _ :: _ => .error "entrée de workspaces non textuelle".toList

def readNpmWorkspaces (world : World) (cwd : Text) : Except Text (Option (List Text)) := do
  match ← workspaceEntries (← world.manifest cwd) with
  | none => return none
  | some entries => return some (← readEntries world cwd [] entries)

/-! ## Expansion -/

/-- A check that is ready, with all that its execution reads. -/
structure Prepared extends Scheduler.Ready CheckKind where
  slot : Nat
  argv : List Text
  cwd : Text
  /-- Where the command runs, as the parsers see it. -/
  pathPrefix : Text
  output : OutputKind

inductive Entry
  | ready (check : Prepared)
  | done (result : CheckResult CheckKind)

/-- What the scheduler sees of a slot. -/
def Entry.slot : Entry → Scheduler.Slot CheckKind
  | .ready check => .ready check.toReady
  | .done result => .done result

def slugOf (workspace : Text) : Text := workspace.map fun c => if c = '/' then '-' else c

def substitute (workspace slug arg : Text) : Text :=
  replaceText "\x7bworkspace\x7d".toList workspace
    (replaceText "\x7bworkspace_slug\x7d".toList slug arg)

def substituteTokens (argv : List Text) (workspace slug : Text) : List Text :=
  argv.map (substitute workspace slug)

def substituteOutput (output : OutputKind) (workspace slug : Text) : OutputKind :=
  match output with
  | .lcov path => .lcov (substitute workspace slug path)
  | other => other

def trimSlashes (part : Text) : Text := (part.dropWhile (· == '/')).rdropWhile (· == '/')

def joinRel (cwd workspace : Text) : Text :=
  List.intercalate ['/'] (([cwd, workspace].filter fun part =>
    decide (part ≠ [] ∧ part ≠ ['.'])).map trimSlashes)

def defaultGroup (check : Check) : Text := check.argv.head?.getD [] ++ '\x01' :: check.cwd

def readySingle (check : Check) (id : Text) (argv : List Text) (pathPrefix : Text) (slot : Nat) :
    Prepared where
  slot := slot
  id := id
  kind := check.kind
  argv := argv
  cwd := check.cwd
  pathPrefix := pathPrefix
  output := check.output
  group := check.serialGroup.getD (defaultGroup check)
  after := check.after

/-- A slot with a result that no command has given. -/
def rendered (check : Check) (status : CheckStatus) (reason : Text) (tailBytes : Nat) : Entry :=
  .done (plainResult check.id check.kind status reason tailBytes)

/-- The slot of a workspace. -/
def workspaceSlot (check : Check) (slot : Nat) (workspace : Text) : Prepared :=
  let slug := slugOf workspace
  { readySingle check (check.id ++ ':' :: workspace) (substituteTokens check.argv workspace slug)
      (joinRel check.cwd workspace) slot with
    output := substituteOutput check.output workspace slug }

/-- The slot of a project without workspaces. -/
def rootSlot (check : Check) (slot : Nat) : Prepared :=
  readySingle check (check.id ++ [':', '.'])
    ((substituteTokens check.argv ['.'] ['.']).filter (· ≠ "--workspace=.".toList))
    (joinRel check.cwd ['.']) slot

def expandNpmWorkspaces (world : World) (tailBytes : Nat) (check : Check) (slot : Nat) :
    List Entry :=
  match readNpmWorkspaces world check.cwd with
  | .error reason => [rendered check .errored reason tailBytes]
  | .ok none => [.ready (rootSlot check slot)]
  | .ok (some workspaces) =>
    workspaces.zipIdx.map fun entry => .ready (workspaceSlot check (slot + entry.2) entry.1)

def expandFiles (world : World) (tailBytes : Nat) (check : Check) (globs : List Text)
    (slot : Nat) : Entry :=
  match world.lsFiles with
  | .error reason => rendered check .errored reason tailBytes
  | .ok listing =>
    let matched := (lines listing).filter fun file => globs.any fun glob => globMatch glob file
    if matched = [] then rendered check .skipped "aucun fichier suivi à vérifier".toList tailBytes
    else .ready (readySingle check check.id (check.argv.flatMap fun arg =>
      if arg = "\x7bfiles\x7d".toList then matched else [arg]) check.cwd slot)

def expandOne (world : World) (tailBytes : Nat) (check : Check) (slot : Nat) : List Entry :=
  match validate check with
  | .error reason => [rendered check .errored reason tailBytes]
  | .ok _ =>
    match check.expand with
    | none => [.ready (readySingle check check.id check.argv check.cwd slot)]
    | some .npmWorkspaces => expandNpmWorkspaces world tailBytes check slot
    | some (.files globs) => [expandFiles world tailBytes check globs slot]

/-- The slots of the declarations, in their order. -/
def expandAll (world : World) (tailBytes : Nat) (checks : List Check) : List Entry :=
  checks.foldl (fun slots check => slots ++ expandOne world tailBytes check slots.length) []

/-! ## Where a slot comes from -/

/-- The workspaces of the slots of a declaration that is expanded into some. -/
def workspaceTags (world : World) (check : Check) : List (Option Text) :=
  match readNpmWorkspaces world check.cwd with
  | .error _ => [none]
  | .ok none => [some ['.']]
  | .ok (some workspaces) => workspaces.map some

/-- The workspace of each slot of a declaration, if it is the slot of one. -/
def tags (world : World) (check : Check) : List (Option Text) :=
  match validate check, check.expand with
  | .ok _, some .npmWorkspaces => workspaceTags world check
  | _, _ => [none]

/-- The declaration and the workspace of each slot. -/
def origins (world : World) (checks : List Check) : List (Check × Option Text) :=
  checks.flatMap fun check => (tags world check).map fun tag => (check, tag)

/-- The name of a slot. -/
def slotId (check : Check) : Option Text → Text
  | none => check.id
  | some workspace => check.id ++ ':' :: workspace

/-- Where the output of a slot goes, with the workspace filled in if `package.json` has some. -/
def placedOutput (world : World) (check : Check) (tag : Option Text) : OutputKind :=
  match readNpmWorkspaces world check.cwd, tag with
  | .ok (some _), some workspace => substituteOutput check.output workspace (slugOf workspace)
  | _, _ => check.output

/-- A slot is named after its declaration, and takes over what it must come after and where its
output goes. -/
structure Stems (world : World) (origin : Check × Option Text) (entry : Entry) : Prop where
  id : entry.slot.id = slotId origin.1 origin.2
  after : ∀ check, entry = .ready check → check.after = origin.1.after
  output : ∀ check, entry = .ready check → check.output = placedOutput world origin.1 origin.2

namespace Stems

variable {world : World} {tailBytes : Nat} {check : Check} {slot : Nat}

theorem rendered (status : CheckStatus) (reason : Text) :
    Stems world (check, none) (rendered check status reason tailBytes) :=
  ⟨rfl, nofun, nofun⟩

theorem of_ready {tag : Option Text} {prepared : Prepared}
    (hid : prepared.id = slotId check tag) (hafter : prepared.after = check.after)
    (houtput : prepared.output = placedOutput world check tag) :
    Stems world (check, tag) (.ready prepared) := by
  refine ⟨hid, ?_, ?_⟩
  · intro other heq
    cases heq
    exact hafter
  · intro other heq
    cases heq
    exact houtput

theorem ready {pre : Text} {argv : List Text} :
    Stems world (check, none) (.ready (readySingle check check.id argv pre slot)) := by
  refine of_ready rfl rfl ?_
  unfold placedOutput
  split
  · rename_i heq
    cases heq
  · rfl

theorem workspace {all : List Text} (hread : readNpmWorkspaces world check.cwd = .ok (some all))
    (workspaces : List Text) (start : Nat) :
    List.Forall₂ (Stems world) ((workspaces.map some).map fun tag => (check, tag))
      ((workspaces.zipIdx start).map fun entry =>
        .ready (workspaceSlot check (slot + entry.2) entry.1)) := by
  induction workspaces generalizing start with
  | nil => exact .nil
  | cons workspace workspaces ih =>
    refine .cons (of_ready rfl rfl ?_) (ih (start + 1))
    unfold placedOutput
    rw [hread]
    rfl

theorem files (globs : List Text) :
    Stems world (check, none) (expandFiles world tailBytes check globs slot) := by
  unfold expandFiles
  split
  · exact rendered _ _
  · dsimp only
    split
    · exact rendered _ _
    · exact ready

theorem npmWorkspaces :
    List.Forall₂ (Stems world) ((workspaceTags world check).map fun tag => (check, tag))
      (expandNpmWorkspaces world tailBytes check slot) := by
  unfold workspaceTags expandNpmWorkspaces
  split
  · exact .cons (rendered _ _) .nil
  · rename_i hread
    refine .cons (of_ready rfl rfl ?_) .nil
    unfold placedOutput
    rw [hread]
    rfl
  · rename_i workspaces hread
    exact workspace hread _ 0

theorem expandOne : List.Forall₂ (Stems world) ((tags world check).map fun tag => (check, tag))
    (expandOne world tailBytes check slot) := by
  unfold tags Expansion.expandOne
  rcases hvalid : validate check with reason | u
  · exact .cons (rendered _ _) .nil
  · rcases hexpand : check.expand with _ | _ | globs
    · exact .cons ready .nil
    · exact npmWorkspaces
    · exact .cons (files globs) .nil

/-- The slots and where they come from, one after the other. -/
theorem expandAll (world : World) (tailBytes : Nat) (checks : List Check) :
    List.Forall₂ (Stems world) (origins world checks) (expandAll world tailBytes checks) := by
  have hfold : ∀ (checks : List Check) (earlier : List (Check × Option Text))
      (slots : List Entry), List.Forall₂ (Stems world) earlier slots →
      List.Forall₂ (Stems world) (earlier ++ origins world checks)
        (checks.foldl (fun slots check =>
          slots ++ Expansion.expandOne world tailBytes check slots.length) slots) := by
    intro checks
    induction checks with
    | nil =>
      intro earlier slots h
      rw [origins, List.flatMap_nil, List.append_nil]
      exact h
    | cons check checks ih =>
      intro earlier slots h
      rw [origins, List.flatMap_cons, ← List.append_assoc, List.foldl_cons]
      exact ih _ _ (List.rel_append h expandOne)
  exact hfold checks [] [] .nil

end Stems

end Vanyline.Health.Expansion
