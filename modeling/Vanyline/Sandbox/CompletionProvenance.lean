import Mathlib.Data.List.AList
import Mathlib.Data.List.Dedup
import Vanyline.Lib.Run
import Vanyline.Sandbox.DiagnosticsDiff

/-!
# Who resolves a completion item

The completions of the primary and of the auxiliaries are merged into one list for the editor.
When the editor asks for the details of an item, the session looks for the child that has
supplied it.  It remembers for each document the items of its last completion by their label and
kind, and forgets them when the document is changed or closed, or when there are too many
documents.

* `items_mergeCompletions`: the editor gets the items that are remembered with their child.
* A request is sent to the only child that a remembered item with this label and kind is from,
  whatever its document (`routeCompletionResolve`).  That another child has supplied an item that
  is not remembered any more is not seen (`foreign_resolve`).
* `resolve_iff`: what has to be remembered for a request to be answered by the right child.
-/

namespace Vanyline.Sandbox.Completion

open Vanyline.Lib TextLines

/-! ## Merging -/

/-- Label and kind. -/
abbrev CompletionKey := Text × Option Int

def completionItemKey (item : Json) : Option CompletionKey :=
  let label := match item.get "label" with
    | some (.str text) => some text
    | some (.obj fields) => ((Json.obj fields).get "label").bind asStr
    | _ => none
  label.map fun text => (text, (item.get "kind").bind asI64)

def asBool : Json → Option Bool
  | .bool b => some b
  | _ => none

/-- The items of a part, and `isIncomplete` if it is a `CompletionList`.  An unexpected part
has none. -/
def partItems : Option Json → List Json × Option Bool
  | some (.arr items) => (items, none)
  | some (.obj fields) =>
    match (Json.obj fields).get "items" with
    | some (.arr items) =>
      (items, some ((((Json.obj fields).get "isIncomplete").bind asBool).getD false))
    | _ => ([], none)
  | _ => ([], none)

structure Merge where
  seen : List CompletionKey
  retained : List (Nat × Json)
  isIncomplete : Bool
  anyCompletionList : Bool

namespace Merge

def init : Merge := ⟨[], [], false, false⟩

/-- An item with the key of an earlier one is dropped. -/
def addItem (child : Nat) (m : Merge) (item : Json) : Merge :=
  match completionItemKey item with
  | some key =>
    if key ∈ m.seen then m
    else { m with seen := key :: m.seen, retained := m.retained ++ [(child, item)] }
  | none => { m with retained := m.retained ++ [(child, item)] }

def addPart (m : Merge) (part : Nat × Option Json) : Merge :=
  (partItems part.2).1.foldl (addItem part.1)
    { m with
      isIncomplete := m.isIncomplete || (partItems part.2).2.getD false
      anyCompletionList := m.anyCompletionList || (partItems part.2).2.isSome }

end Merge

/-- The parts by child, the primary first: `isIncomplete` of any part, the items that are kept
with their child, and whether a part was a `CompletionList`. -/
def mergeCompletionParts (parts : List (Nat × Option Json)) : Bool × List (Nat × Json) × Bool :=
  let m := parts.foldl Merge.addPart .init
  (m.isIncomplete, m.retained, m.anyCompletionList)

/-- The result that the editor gets. -/
def mergeCompletions (parts : List (Option Json)) : Json :=
  let merged := mergeCompletionParts (parts.zipIdx.map Prod.swap)
  let items := merged.2.1.map Prod.snd
  if merged.2.2 then .object [("isIncomplete", .bool merged.1), ("items", .arr items)]
  else .arr items

/-! ## Provenance -/

/-- The child and the item by key. -/
abbrev CompletionProvenanceInner := AList fun _ : CompletionKey => Nat × Json

abbrev CompletionProvenance := AList fun _ : Text => CompletionProvenanceInner

def maxCompletionProvenanceUris : Nat := 64

def innerOf (retained : List (Nat × Json)) : CompletionProvenanceInner :=
  retained.foldl (fun inner entry =>
    match completionItemKey entry.2 with
    | some key => inner.insert key entry
    | none => inner) ∅

/-- There is no room for this document. -/
def isFull (provenance : CompletionProvenance) (uri : Text) : Bool :=
  uri ∉ provenance && maxCompletionProvenanceUris ≤ provenance.entries.length

/-- `evicted` is the document that the iteration over the map happens to begin with. -/
def recordCompletionProvenance (provenance : CompletionProvenance) (uri evicted : Text)
    (parts : List (Nat × Option Json)) : CompletionProvenance :=
  let provenance := if isFull provenance uri then provenance.erase evicted else provenance
  provenance.insert uri (innerOf (mergeCompletionParts parts).2.1)

def owners (provenance : CompletionProvenance) (item : Json) : List Nat :=
  match completionItemKey item with
  | some key =>
    (provenance.entries.filterMap fun entry => (entry.2.lookup key).map Prod.fst).dedup
  | none => []

/-- What becomes of a request. -/
inductive Outcome
  | sentTo (child : Nat) (item : Json)
  | fallback (item : Json)

def primaryPart : Nat := 0

/-- `reaches` is whether the auxiliary is alive and takes the request. -/
def routeCompletionResolve (aux : Nat) (provenance : CompletionProvenance) (reaches : Bool)
    (item : Json) : Outcome :=
  match owners provenance item with
  | [child] =>
    if child = primaryPart then .sentTo child item
    else if child - 1 < aux ∧ reaches then .sentTo child item
    else .fallback item
  | _ => .fallback item

/-! ## The session -/

/-- What the editor has done, as far as it matters to what is remembered. -/
inductive Event
  | completed (uri : Text) (retained : List (Nat × Json))
  | forgotten (uri : Text)

/-- The items of the last completion of the document, if it has not been changed, closed or
evicted since.  The last event comes first. -/
def current : List Event → Text → Option (List (Nat × Json))
  | [], _ => none
  | .completed uri' retained :: past, uri => if uri' = uri then some retained else current past uri
  | .forgotten uri' :: past, uri => if uri' = uri then none else current past uri

/-- A request for an item that `supplier` had supplied, and what became of it. -/
structure Resolve where
  past : List Event
  supplier : Nat
  item : Json
  reaches : Bool
  outcome : Outcome

/-- The session with its log: the items that the editor has got with their suppliers, the events
and the requests. -/
structure Session where
  provenance : CompletionProvenance
  served : List (Nat × Json)
  past : List Event
  resolves : List Resolve

inductive Label
  | complete (uri : Option Text) (parts : List (Nat × Option Json)) (evicted : Text)
  | didChange (uri : Option Text)
  | didClose (uri : Option Text)
  /-- The editor sends back the item that it got as the `n`th. -/
  | resolve (n : Nat) (reaches : Bool)

namespace Session

def init : Session := ⟨∅, [], [], []⟩

/-- The result of a completion goes to the editor. -/
def complete (s : Session) (uri : Option Text) (parts : List (Nat × Option Json))
    (evicted : Text) : Session :=
  let retained := (mergeCompletionParts parts).2.1
  match uri with
  | some uri =>
    { s with
      provenance := recordCompletionProvenance s.provenance uri evicted parts
      served := s.served ++ retained
      past := .completed uri retained ::
        if isFull s.provenance uri then .forgotten evicted :: s.past else s.past }
  | none => { s with served := s.served ++ retained }

/-- `didChange` and `didClose`. -/
def purge (s : Session) : Option Text → Session
  | some uri => { s with provenance := s.provenance.erase uri, past := .forgotten uri :: s.past }
  | none => s

/-- `entry` is the item with its supplier. -/
def request (s : Session) (aux : Nat) (entry : Nat × Json) (reaches : Bool) : Resolve where
  past := s.past
  supplier := entry.1
  item := entry.2
  reaches
  outcome := routeCompletionResolve aux s.provenance reaches entry.2

def resolve (s : Session) (aux : Nat) (entry : Nat × Json) (reaches : Bool) : Session :=
  { s with resolves := s.request aux entry reaches :: s.resolves }

end Session

/-- The parts of a completion come from different children, and the first document of the map is
in the map. -/
def isCompletion (aux : Nat) (s : Session) (uri : Option Text) (parts : List (Nat × Option Json))
    (evicted : Text) : Bool :=
  decide ((parts.map Prod.fst).Pairwise (· < ·)) && parts.all (·.1 ≤ aux) &&
    (uri.all (!isFull s.provenance ·) || evicted ∈ s.provenance)

/-- The session has a primary and `aux` auxiliaries. -/
def step (aux : Nat) (s : Session) : Label → Option Session
  | .complete uri parts evicted =>
    if isCompletion aux s uri parts evicted then some (s.complete uri parts evicted) else none
  | .didChange uri | .didClose uri => some (s.purge uri)
  | .resolve n reaches => s.served[n]?.map fun entry => s.resolve aux entry reaches

/-! ## What is merged -/

namespace Merge

/-- Each key of what is kept has been seen, and is the key of one item only. -/
structure Distinct (m : Merge) : Prop where
  seen : ∀ key, key ∈ m.seen ↔ key ∈ m.retained.filterMap (completionItemKey ·.2)
  nodup : (m.retained.filterMap (completionItemKey ·.2)).Nodup

theorem distinct_init : Distinct init := ⟨fun _ => Iff.rfl, List.nodup_nil⟩

theorem Distinct.addItem {m : Merge} (h : m.Distinct) (child : Nat) (item : Json) :
    (m.addItem child item).Distinct := by
  unfold Merge.addItem
  cases hkey : completionItemKey item with
  | none =>
    have hkeys : (m.retained ++ [(child, item)]).filterMap (completionItemKey ·.2) =
        m.retained.filterMap (completionItemKey ·.2) := by
      simp [hkey]
    exact ⟨fun key => by rw [hkeys]; exact h.seen key, by rw [hkeys]; exact h.nodup⟩
  | some key =>
    by_cases hseen : key ∈ m.seen
    · simpa only [if_pos hseen] using h
    · have hkeys : (m.retained ++ [(child, item)]).filterMap (completionItemKey ·.2) =
          m.retained.filterMap (completionItemKey ·.2) ++ [key] := by
        simp [hkey]
      simp only [if_neg hseen]
      refine ⟨fun other => ?_, ?_⟩
      · rw [hkeys, List.mem_cons, List.mem_append, List.mem_singleton, h.seen, or_comm]
      · rw [hkeys, List.nodup_append]
        refine ⟨h.nodup, List.nodup_singleton key, fun other hother _ hlast hsame => ?_⟩
        rw [List.mem_singleton.1 hlast] at hsame
        exact hseen ((h.seen key).2 (hsame ▸ hother))

theorem Distinct.addPart {m : Merge} (h : m.Distinct) (part : Nat × Option Json) :
    (m.addPart part).Distinct := by
  suffices hitems : ∀ (items : List Json) (m : Merge), m.Distinct →
      (items.foldl (Merge.addItem part.1) m).Distinct from
    hitems _ _ ⟨h.seen, h.nodup⟩
  intro items
  induction items with
  | nil => exact fun m h => h
  | cons item items ih => exact fun m h => ih _ (h.addItem part.1 item)

theorem distinct_merge (parts : List (Nat × Option Json)) :
    Distinct (parts.foldl addPart init) := by
  suffices h : ∀ m, Distinct m → Distinct (parts.foldl addPart m) from h _ distinct_init
  induction parts with
  | nil => exact fun m h => h
  | cons part parts ih => exact fun m h => ih _ (h.addPart part)

/-- What is kept after an item is what was kept and perhaps this item. -/
theorem mem_retained_addItem {m : Merge} {child : Nat} {item : Json} {entry : Nat × Json}
    (h : entry ∈ (m.addItem child item).retained) :
    entry ∈ m.retained ∨ entry = (child, item) := by
  unfold addItem at h
  split at h
  · split_ifs at h
    · exact .inl h
    · simpa using h
  · simpa using h

theorem mem_retained_addPart {m : Merge} {part : Nat × Option Json} {entry : Nat × Json}
    (h : entry ∈ (m.addPart part).retained) : entry ∈ m.retained ∨ entry.1 = part.1 := by
  have hitems : ∀ (items : List Json) (m : Merge),
      entry ∈ (items.foldl (addItem part.1) m).retained →
        entry ∈ m.retained ∨ entry.1 = part.1 := by
    intro items
    induction items with
    | nil => exact fun m h => .inl h
    | cons item items ih =>
      intro m h
      rcases ih _ h with hmem | hchild
      · rcases mem_retained_addItem hmem with hmem | rfl
        · exact .inl hmem
        · exact .inr rfl
      · exact .inr hchild
  have hmem := hitems _ _ h
  exact hmem

/-- What is kept is from a child that has a part. -/
theorem child_of_mem_merge {parts : List (Nat × Option Json)} {entry : Nat × Json}
    (h : entry ∈ (parts.foldl addPart init).retained) : ∃ part ∈ parts, part.1 = entry.1 := by
  suffices hparts : ∀ m, entry ∈ (parts.foldl addPart m).retained →
      entry ∈ m.retained ∨ ∃ part ∈ parts, part.1 = entry.1 from
    (hparts _ h).resolve_left List.not_mem_nil
  clear h
  induction parts with
  | nil => exact fun m h => .inl h
  | cons part parts ih =>
    intro m h
    rcases ih _ h with hmem | ⟨part', hpart, hchild⟩
    · rcases mem_retained_addPart hmem with hmem | hchild
      · exact .inl hmem
      · exact .inr ⟨part, List.mem_cons_self, hchild.symm⟩
    · exact .inr ⟨part', List.mem_cons_of_mem _ hpart, hchild⟩

/-- The merge without its children. -/
def anonymous (m : Merge) : Merge := { m with retained := m.retained.map fun e => (0, e.2) }

theorem anonymous_addItem (m : Merge) (child : Nat) (item : Json) :
    (m.addItem child item).anonymous = m.anonymous.addItem 0 item := by
  unfold addItem
  cases completionItemKey item with
  | none => simp [anonymous]
  | some key =>
    by_cases hseen : key ∈ m.seen
    · simp [anonymous, hseen]
    · simp [anonymous, hseen]

theorem anonymous_addPart (m : Merge) (part : Nat × Option Json) :
    (m.addPart part).anonymous = m.anonymous.addPart (0, part.2) := by
  suffices hitems : ∀ (items : List Json) (m : Merge),
      (items.foldl (addItem part.1) m).anonymous = items.foldl (addItem 0) m.anonymous from
    hitems _ _
  intro items
  induction items with
  | nil => exact fun m => rfl
  | cons item items ih =>
    intro m
    rw [List.foldl_cons, ih, anonymous_addItem, List.foldl_cons]

theorem anonymous_merge (parts : List (Nat × Option Json)) (m : Merge) :
    (parts.foldl addPart m).anonymous =
      ((parts.map Prod.snd).map fun part => (0, part)).foldl addPart m.anonymous := by
  induction parts generalizing m with
  | nil => rfl
  | cons part parts ih =>
    rw [List.foldl_cons, ih, anonymous_addPart]
    rfl

end Merge

theorem partItems_list (isIncomplete : Bool) (items : List Json) :
    partItems (some (.object [("isIncomplete", .bool isIncomplete), ("items", .arr items)])) =
      (items, some isIncomplete) := by
  have hitems : (Json.object [("isIncomplete", .bool isIncomplete), ("items", .arr items)]).get
      "items" = some (.arr items) := by
    rw [Json.get_object_ne rfl, Json.get_object_self]
  have hincomplete : (Json.object [("isIncomplete", .bool isIncomplete), ("items", .arr items)]).get
      "isIncomplete" = some (.bool isIncomplete) := Json.get_object_self ..
  unfold Json.object at hitems hincomplete ⊢
  simp only [partItems, hitems, hincomplete]
  rfl

/-- The editor gets the items that are remembered with their child. -/
theorem items_mergeCompletions (parts : List (Nat × Option Json)) :
    (partItems (some (mergeCompletions (parts.map Prod.snd)))).1 =
      (mergeCompletionParts parts).2.1.map Prod.snd := by
  have hparts : ((parts.map Prod.snd).zipIdx.map Prod.swap).map Prod.snd = parts.map Prod.snd := by
    rw [List.map_map]
    exact List.zipIdx_map_fst 0 _
  have hsame : (((parts.map Prod.snd).zipIdx.map Prod.swap).foldl Merge.addPart .init).anonymous =
      (parts.foldl Merge.addPart .init).anonymous := by
    rw [Merge.anonymous_merge, Merge.anonymous_merge parts, hparts]
  have hitems : (mergeCompletionParts ((parts.map Prod.snd).zipIdx.map Prod.swap)).2.1.map
      Prod.snd = (mergeCompletionParts parts).2.1.map Prod.snd := by
    have h := congrArg (fun m : Merge => m.retained.map Prod.snd) hsame
    simp only [Merge.anonymous, List.map_map, Function.comp_def] at h
    exact h
  rw [← hitems]
  simp only [mergeCompletions]
  split_ifs
  · rw [partItems_list]
  · rfl

/-! ## What is remembered -/

/-- Of items with different keys, each is found by its key. -/
theorem lookup_innerOf {retained : List (Nat × Json)}
    (hnodup : (retained.filterMap (completionItemKey ·.2)).Nodup) (key : CompletionKey)
    (entry : Nat × Json) : (innerOf retained).lookup key = some entry ↔
      entry ∈ retained ∧ completionItemKey entry.2 = some key := by
  unfold innerOf
  induction retained using List.reverseRecOn with
  | nil => simp
  | append_singleton retained last ih =>
    rw [List.filterMap_append, List.nodup_append] at hnodup
    obtain ⟨hrest, -, hlast⟩ := hnodup
    rw [List.foldl_concat]
    cases hkey : completionItemKey last.2 with
    | none =>
      dsimp only
      rw [ih hrest, List.mem_append, List.mem_singleton]
      constructor
      · rintro ⟨hmem, hentry⟩
        exact ⟨.inl hmem, hentry⟩
      · rintro ⟨hmem | rfl, hentry⟩
        · exact ⟨hmem, hentry⟩
        · rw [hkey] at hentry
          cases hentry
    | some last_key =>
      dsimp only
      rw [List.mem_append, List.mem_singleton]
      have hother : ∀ e ∈ retained, completionItemKey e.2 ≠ some last_key := by
        intro e he hsame
        refine hlast last_key (List.mem_filterMap.2 ⟨e, he, hsame⟩) last_key ?_ rfl
        simp [hkey]
      by_cases hsame : key = last_key
      · subst hsame
        rw [AList.lookup_insert, Option.some.injEq]
        constructor
        · rintro rfl
          exact ⟨.inr rfl, hkey⟩
        · rintro ⟨hmem | rfl, hentry⟩
          · exact absurd hentry (hother entry hmem)
          · rfl
      · rw [AList.lookup_insert_ne hsame, ih hrest]
        constructor
        · rintro ⟨hmem, hentry⟩
          exact ⟨.inl hmem, hentry⟩
        · rintro ⟨hmem | rfl, hentry⟩
          · exact ⟨hmem, hentry⟩
          · rw [hkey] at hentry
            exact absurd (Option.some.inj hentry).symm hsame

theorem mem_owners {provenance : CompletionProvenance} {item : Json} {child : Nat} :
    child ∈ owners provenance item ↔ ∃ key, completionItemKey item = some key ∧
      ∃ uri inner, provenance.lookup uri = some inner ∧
        ∃ entry, inner.lookup key = some entry ∧ entry.1 = child := by
  unfold owners
  cases completionItemKey item with
  | none => simp
  | some key =>
    simp only [List.mem_dedup, List.mem_filterMap, Option.map_eq_some_iff, Option.some.injEq,
      exists_eq_left']
    constructor
    · rintro ⟨⟨uri, inner⟩, hmem, entry, hentry, hchild⟩
      exact ⟨uri, inner, AList.mem_lookup_iff.2 hmem, entry, hentry, hchild⟩
    · rintro ⟨uri, inner, hmem, entry, hentry, hchild⟩
      exact ⟨⟨uri, inner⟩, AList.mem_lookup_iff.1 hmem, entry, hentry, hchild⟩

theorem nodup_owners (provenance : CompletionProvenance) (item : Json) :
    (owners provenance item).Nodup := by
  unfold owners
  split
  · exact List.nodup_dedup _
  · exact List.nodup_nil

/-- The last completion of some document, unless it has been forgotten, has an item of the child
with the key of this one. -/
def Claims (past : List Event) (item : Json) (child : Nat) : Prop :=
  ∃ key, completionItemKey item = some key ∧ ∃ uri retained, current past uri = some retained ∧
    ∃ entry ∈ retained, entry.1 = child ∧ completionItemKey entry.2 = some key

namespace Resolve

/-- The item goes to its supplier or back as it is. -/
def Right (r : Resolve) : Prop :=
  match r.outcome with
  | .sentTo child item => child = r.supplier ∧ item = r.item
  | .fallback item => item = r.item

/-- The supplier claims the item, or nobody does, or several children do, or only auxiliaries
and the request does not reach them. -/
def Clear (r : Resolve) : Prop :=
  Claims r.past r.item r.supplier ∨ (∀ child, ¬ Claims r.past r.item child) ∨
    (∃ child other, child ≠ other ∧ Claims r.past r.item child ∧ Claims r.past r.item other) ∨
    (r.reaches = false ∧ ¬ Claims r.past r.item primaryPart)

end Resolve

/-- What the session remembers is what the log says. -/
structure Tracked (aux : Nat) (s : Session) : Prop where
  provenance : ∀ uri, s.provenance.lookup uri = (current s.past uri).map innerOf
  nodup : ∀ uri retained, current s.past uri = some retained →
    (retained.filterMap (completionItemKey ·.2)).Nodup
  children : ∀ uri retained, current s.past uri = some retained →
    ∀ entry ∈ retained, entry.1 ≤ aux

variable {aux : Nat} {s t : Session}

namespace Tracked

theorem init (aux : Nat) : Tracked aux .init where
  provenance _ := rfl
  nodup _ _ h := nomatch h
  children _ _ h := nomatch h

theorem mem_owners_iff (h : Tracked aux s) {item : Json} {child : Nat} :
    child ∈ owners s.provenance item ↔ Claims s.past item child := by
  rw [mem_owners]
  constructor
  · rintro ⟨key, hkey, uri, inner, hinner, entry, hentry, hchild⟩
    rw [h.provenance, Option.map_eq_some_iff] at hinner
    obtain ⟨retained, hretained, rfl⟩ := hinner
    obtain ⟨hmem, hsame⟩ := (lookup_innerOf (h.nodup uri retained hretained) key entry).1 hentry
    exact ⟨key, hkey, uri, retained, hretained, entry, hmem, hchild, hsame⟩
  · rintro ⟨key, hkey, uri, retained, hretained, entry, hmem, hchild, hsame⟩
    refine ⟨key, hkey, uri, innerOf retained, ?_, entry, ?_, hchild⟩
    · rw [h.provenance, hretained, Option.map_some]
    · exact (lookup_innerOf (h.nodup uri retained hretained) key entry).2 ⟨hmem, hsame⟩

/-- Nobody claims an item for a child that does not exist. -/
theorem le_of_claims (h : Tracked aux s) {item : Json} {child : Nat}
    (hclaims : Claims s.past item child) : child ≤ aux := by
  obtain ⟨key, hkey, uri, retained, hretained, entry, hmem, rfl, hsame⟩ := hclaims
  exact h.children uri retained hretained entry hmem

/-- A document is forgotten. -/
theorem forget (h : Tracked aux s) (uri : Text) : Tracked aux (s.purge (some uri)) := by
  have hcurrent : ∀ other retained, current (s.purge (some uri)).past other = some retained →
      current s.past other = some retained := by
    intro other retained hretained
    simp only [Session.purge, current] at hretained
    split_ifs at hretained
    exact hretained
  refine ⟨fun other => ?_, fun other retained hretained => ?_, fun other retained hretained => ?_⟩
  · simp only [Session.purge, current]
    by_cases hsame : uri = other
    · rw [if_pos hsame, hsame, AList.lookup_erase, Option.map_none]
    · rw [if_neg hsame, AList.lookup_erase_ne (Ne.symm hsame), h.provenance]
  · exact h.nodup other retained (hcurrent other retained hretained)
  · exact h.children other retained (hcurrent other retained hretained)

/-- A completion replaces what has been remembered of the document. -/
theorem insert (h : Tracked aux s) (uri : Text) {parts : List (Nat × Option Json)}
    (hparts : ∀ part ∈ parts, part.1 ≤ aux) :
    Tracked aux { s with
      provenance := s.provenance.insert uri (innerOf (mergeCompletionParts parts).2.1)
      past := .completed uri (mergeCompletionParts parts).2.1 :: s.past } := by
  refine ⟨fun other => ?_, fun other retained hretained => ?_, fun other retained hretained => ?_⟩
  · simp only [current]
    by_cases hsame : uri = other
    · rw [if_pos hsame, hsame, AList.lookup_insert, Option.map_some]
    · rw [if_neg hsame, AList.lookup_insert_ne (Ne.symm hsame), h.provenance]
  · simp only [current] at hretained
    split_ifs at hretained
    · rw [← Option.some.inj hretained]
      exact (Merge.distinct_merge parts).nodup
    · exact h.nodup other retained hretained
  · simp only [current] at hretained
    split_ifs at hretained
    · intro entry hentry
      rw [← Option.some.inj hretained] at hentry
      obtain ⟨part, hpart, hchild⟩ := Merge.child_of_mem_merge hentry
      exact hchild ▸ hparts part hpart
    · exact h.children other retained hretained

theorem complete (h : Tracked aux s) (uri : Option Text) {parts : List (Nat × Option Json)}
    (hparts : ∀ part ∈ parts, part.1 ≤ aux) (evicted : Text) :
    Tracked aux (s.complete uri parts evicted) := by
  cases uri with
  | none => exact ⟨h.provenance, h.nodup, h.children⟩
  | some uri =>
    simp only [Session.complete, recordCompletionProvenance]
    cases isFull s.provenance uri with
    | true =>
      have hinsert := (h.forget evicted).insert uri hparts
      exact ⟨hinsert.provenance, hinsert.nodup, hinsert.children⟩
    | false =>
      have hinsert := h.insert uri hparts
      exact ⟨hinsert.provenance, hinsert.nodup, hinsert.children⟩

theorem step (h : Tracked aux s) {label : Label} (hstep : step aux s label = some t) :
    Tracked aux t := by
  cases label with
  | complete uri parts evicted =>
    simp only [Completion.step, Option.ite_none_right_eq_some, Option.some.injEq] at hstep
    obtain ⟨hcompletion, rfl⟩ := hstep
    simp only [isCompletion, Bool.and_eq_true, List.all_eq_true, decide_eq_true_eq]
      at hcompletion
    exact h.complete uri hcompletion.1.2 evicted
  | didChange uri | didClose uri =>
    cases hstep
    cases uri with
    | none => exact h
    | some uri => exact h.forget uri
  | resolve n reaches =>
    obtain ⟨entry, -, rfl⟩ := Option.map_eq_some_iff.1 hstep
    exact ⟨h.provenance, h.nodup, h.children⟩

end Tracked

/-! ## The answers -/

/-- What becomes of the request for an item that a child has supplied. -/
theorem right_iff_clear (h : Tracked aux s) (entry : Nat × Json) (reaches : Bool) :
    (s.request aux entry reaches).Right ↔ (s.request aux entry reaches).Clear := by
  have hclaims : ∀ child, child ∈ owners s.provenance entry.2 ↔ Claims s.past entry.2 child :=
    fun child => h.mem_owners_iff
  have hnodup := nodup_owners s.provenance entry.2
  simp only [Session.request, Resolve.Right, Resolve.Clear, routeCompletionResolve, ← hclaims]
  match howners : owners s.provenance entry.2 with
  | [] =>
    exact ⟨fun _ => .inr (.inl fun _ => List.not_mem_nil), fun _ => rfl⟩
  | first :: second :: others =>
    refine ⟨fun _ => .inr (.inr (.inl ⟨first, second, ?_, ?_, ?_⟩)), fun _ => rfl⟩
    · rw [howners] at hnodup
      intro hsame
      exact (List.nodup_cons.1 hnodup).1 (hsame ▸ List.mem_cons_self)
    · exact List.mem_cons_self
    · exact List.mem_cons_of_mem _ List.mem_cons_self
  | [owner] =>
    have howner : owner ≤ aux := h.le_of_claims ((hclaims owner).1 (howners ▸ List.mem_cons_self))
    simp only [List.mem_singleton]
    by_cases hprimary : owner = primaryPart
    · rw [if_pos hprimary]
      constructor
      · rintro ⟨hchild, -⟩
        exact .inl hchild.symm
      · rintro (hsupplier | hnobody | ⟨child, other, hne, rfl, rfl⟩ | ⟨-, hother⟩)
        · exact ⟨hsupplier.symm, rfl⟩
        · exact absurd rfl (hnobody owner)
        · exact absurd rfl hne
        · exact absurd hprimary.symm hother
    · rw [if_neg hprimary]
      have hindex : owner - 1 < aux := by
        have hpos : owner ≠ 0 := hprimary
        omega
      cases reaches with
      | true =>
        rw [if_pos ⟨hindex, rfl⟩]
        constructor
        · rintro ⟨hchild, -⟩
          exact .inl hchild.symm
        · rintro (hsupplier | hnobody | ⟨child, other, hne, rfl, rfl⟩ | ⟨hunreached, -⟩)
          · exact ⟨hsupplier.symm, rfl⟩
          · exact absurd rfl (hnobody owner)
          · exact absurd rfl hne
          · cases hunreached
      | false =>
        rw [if_neg fun hreached => nomatch hreached.2]
        exact ⟨fun _ => .inr (.inr (.inr ⟨rfl, Ne.symm hprimary⟩)), fun _ => rfl⟩

/-- What the session remembers, and what has become of each request so far. -/
def Answered (aux : Nat) (s : Session) : Prop :=
  Tracked aux s ∧ ∀ r ∈ s.resolves, (r.Right ↔ r.Clear)

theorem Answered.step (h : Answered aux s) {label : Label}
    (hstep : step aux s label = some t) : Answered aux t := by
  refine ⟨h.1.step hstep, ?_⟩
  cases label with
  | complete uri parts evicted =>
    simp only [Completion.step, Option.ite_none_right_eq_some, Option.some.injEq] at hstep
    obtain ⟨-, rfl⟩ := hstep
    cases uri with
    | none => exact h.2
    | some uri => exact h.2
  | didChange uri | didClose uri =>
    cases hstep
    cases uri with
    | none => exact h.2
    | some uri => exact h.2
  | resolve n reaches =>
    obtain ⟨entry, -, rfl⟩ := Option.map_eq_some_iff.1 hstep
    intro r hr
    rcases List.mem_cons.1 hr with rfl | hr
    · exact right_iff_clear h.1 entry reaches
    · exact h.2 r hr

/-- In every session, the request for an item goes to the child that has supplied it, or the item
back as it is, if and only if the supplier claims the item, or nobody does, or several
children do, or only an auxiliary that the request does not reach. -/
theorem resolve_iff {labels : List Label} (hrun : Run (step aux) free .init labels s) :
    ∀ r ∈ s.resolves, (r.Right ↔ r.Clear) :=
  (hrun.invariant (I := Answered aux) ⟨.init aux, fun _ h => nomatch h⟩
    fun _ _ _ h _ hstep => h.step hstep).2

/-- The parts of a completion that `child` answers with this item, and the other one with
none. -/
def oneItem (child : Nat) : List (Nat × Option Json) :=
  let item := Json.object [("label", .str ['f'])]
  if child = primaryPart then [(0, some (.arr [item])), (1, some (.arr []))]
  else [(0, some (.arr [])), (1, some (.arr [item]))]

/-- The request is sent to a child that has not supplied the item. -/
def astray (r : Resolve) : Bool :=
  match r.outcome with
  | .sentTo child _ => child != r.supplier
  | .fallback _ => false

theorem not_right_of_astray {r : Resolve} (h : astray r = true) : ¬ r.Right := by
  unfold astray at h
  unfold Resolve.Right
  intro hright
  cases houtcome : r.outcome with
  | sentTo child item =>
    rw [houtcome] at h hright
    exact bne_iff_ne.1 h hright.1
  | fallback item =>
    rw [houtcome] at h
    cases h

theorem resolve_iff_primary : ∃ s, Run (step 1) free .init
    [.complete (some ['a']) (oneItem 0) [], .resolve 0 true] s ∧ s.resolves.length = 1 ∧
      ∀ r ∈ s.resolves, (r.Right ↔ r.Clear) := by
  obtain ⟨s, hrun, htest⟩ := Run.exists_of_exec (fun s : Session => s.resolves.length == 1)
    (show (exec (step 1) free .init
      [.complete (some ['a']) (oneItem 0) [], .resolve 0 true]).any _ = true by decide +kernel)
  exact ⟨s, hrun, by simpa using htest, resolve_iff hrun⟩

/-- The primary supplies an item of the first document and the auxiliary one with the same label
of the second.  When the first document has been changed, its item is sent to the
auxiliary. -/
theorem foreign_resolve : ¬ ∀ aux labels s, Run (step aux) free .init labels s →
    ∀ r ∈ s.resolves, r.Right := by
  intro h
  obtain ⟨s, hrun, htest⟩ := Run.exists_of_exec (fun s : Session => s.resolves.any astray)
    (show (exec (step 1) free .init
      [.complete (some ['a']) (oneItem 0) [], .complete (some ['b']) (oneItem 1) [],
        .didChange (some ['a']), .resolve 0 true]).any _ = true by decide +kernel)
  obtain ⟨r, hr, hastray⟩ := List.any_eq_true.1 htest
  exact not_right_of_astray hastray (h 1 _ s hrun r hr)

end Vanyline.Sandbox.Completion
