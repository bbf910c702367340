import Mathlib.Data.Char
import Mathlib.Data.List.Lex
import Vanyline.Lib.JsonValue
import Vanyline.Lib.SortedMap
import Vanyline.Lib.TextLines

/-!
# The URIs of the browser and of the language server

The browser names a file of the workspace by `file:///` and a path relative to its root, the
language server by `file://`, the root and the path.  The bridge rewrites the URIs of every
message, `toRelative` on the way to the browser and `toAbsolute` on the way back: the values of
the keys `uri` and `…Uri`, and the keys of an object under `changes`.

The same text `file:///x` is a relative name on one side and an absolute one on the other, and
the code goes by how the path begins.

* `returns_iff` says which URIs come back from the browser as they were: those of the workspace
  whose relative path does not begin like the root.
* `rewriteUris_back_iff`: a message comes back exactly when all its URIs do.
* `bridge_iff` puts this together with what becomes of the relative paths of the browser.
-/

namespace Vanyline.Sandbox.BrowserUris

open Vanyline.Lib TextLines

inductive UriDirection
  | toAbsolute
  | toRelative
deriving DecidableEq

def scheme : Text := "file://".toList

def fileUri : Text := "file:///".toList

/-- `root.strip_suffix('/').unwrap_or(root)`. -/
def stripSlash (root : Text) : Text := if root.getLast? = some '/' then root.dropLast else root

def rewriteUriString (uri root : Text) : UriDirection → Text
  | .toAbsolute =>
    if !fileUri.isPrefixOf uri then uri
    else
      let root := stripSlash root
      let abs := scheme ++ root
      if uri = abs || (scheme ++ root ++ ['/']).isPrefixOf uri then uri
      else scheme ++ root ++ '/' :: (uri.drop 7).dropWhile (· == '/')
  | .toRelative =>
    let root := stripSlash root
    let pre := scheme ++ root ++ ['/']
    if pre.isPrefixOf uri then fileUri ++ uri.drop pre.length else uri

def isUriKey (key : Text) : Bool := key == "uri".toList || "Uri".toList.isSuffixOf key

/-- The value of a key that carries a URI. -/
def rewriteValue (root : Text) (direction : UriDirection) : Json → Json
  | .str uri => .str (rewriteUriString uri root direction)
  | value => value

/-- The keys of an object under `changes`, which are inserted into a new object. -/
def rewriteKeys (root : Text) (direction : UriDirection) : Json → Json
  | .obj inner =>
    .obj (SortedMap.ofList (inner.map fun entry =>
      (rewriteUriString entry.1 root direction, entry.2))).entries
  | value => value

mutual

def rewriteUris (root : Text) (direction : UriDirection) : Json → Json
  | .obj fields => .obj (rewriteFields root direction fields)
  | .arr items => .arr (rewriteItems root direction items)
  | value => value

def rewriteItems (root : Text) (direction : UriDirection) : List Json → List Json
  | [] => []
  | item :: items => rewriteUris root direction item :: rewriteItems root direction items

def rewriteFields (root : Text) (direction : UriDirection) :
    List (Text × Json) → List (Text × Json)
  | [] => []
  | (key, value) :: fields =>
    (key,
      if key = "changes".toList then rewriteKeys root direction value
      else if isUriKey key then rewriteValue root direction value
      else rewriteUris root direction value) :: rewriteFields root direction fields

end

mutual

/-- The keys of every object grow, as those of a `serde_json::Map` do. -/
def Sorted : Json → Prop
  | .obj fields => (fields.map Prod.fst).Pairwise (· < ·) ∧ SortedFields fields
  | .arr items => SortedItems items
  | _ => True

def SortedItems : List Json → Prop
  | [] => True
  | item :: items => Sorted item ∧ SortedItems items

def SortedFields : List (Text × Json) → Prop
  | [] => True
  | (_, value) :: fields => Sorted value ∧ SortedFields fields

end

def keysOf : Json → List Text
  | .obj inner => inner.map Prod.fst
  | _ => []

def uriOf : Json → List Text
  | .str uri => [uri]
  | _ => []

mutual

/-- The URIs of a message, wherever the bridge looks for them. -/
def uris : Json → List Text
  | .obj fields => urisOfFields fields
  | .arr items => urisOfItems items
  | _ => []

def urisOfItems : List Json → List Text
  | [] => []
  | item :: items => uris item ++ urisOfItems items

def urisOfFields : List (Text × Json) → List Text
  | [] => []
  | (key, value) :: fields =>
    (if key = "changes".toList then keysOf value
      else if isUriKey key then uriOf value
      else uris value) ++ urisOfFields fields

end

/-- The relative path begins like the root: read as an absolute path, it is the root or below
it. -/
def RootLike (root path : Text) : Prop :=
  '/' :: path = stripSlash root ∨ stripSlash root ++ ['/'] <+: '/' :: path

/-- The URI of the server for a path below the root. -/
def serverUri (root path : Text) : Text := scheme ++ stripSlash root ++ '/' :: path

def browserUri (path : Text) : Text := fileUri ++ path

/-- The URIs that come back: those in the workspace whose relative path neither begins with a
slash nor like the root, and others when they are not of the form `file:///` or are the root. -/
structure Returns (root uri : Text) : Prop where
  inside : ∀ path, uri = serverUri root path →
    stripSlash root = [] ∨ (path.head? ≠ some '/' ∧ ¬RootLike root path)
  outside : (∀ path, uri ≠ serverUri root path) →
    ¬fileUri <+: uri ∨ uri = scheme ++ stripSlash root

example : rewriteUriString "file:///src/main.rs".toList "/home/coder/workspace".toList .toAbsolute =
    "file:///home/coder/workspace/src/main.rs".toList := by
  rfl

/-! ## One URI -/

variable {root uri path other : Text}

theorem fileUri_eq : fileUri = scheme ++ ['/'] := rfl

theorem length_scheme : scheme.length = 7 := rfl

theorem browserUri_eq (path : Text) : browserUri path = scheme ++ '/' :: path := by
  rw [browserUri, fileUri_eq, List.append_assoc]
  rfl

theorem serverUri_eq (root path : Text) :
    serverUri root path = scheme ++ (stripSlash root ++ '/' :: path) :=
  List.append_assoc ..

theorem serverUri_inj (h : serverUri root path = serverUri root other) : path = other :=
  (List.cons.inj (List.append_cancel_left h)).2

theorem browserUri_inj (h : browserUri path = browserUri other) : path = other :=
  List.append_cancel_left h

theorem serverUri_ne_browserUri (h : stripSlash root ≠ []) (path : Text) :
    serverUri root path ≠ browserUri path := by
  intro heq
  rw [serverUri_eq, browserUri_eq] at heq
  have hlength := congrArg List.length (List.append_cancel_left heq)
  rw [List.length_append] at hlength
  exact h (List.length_eq_zero_iff.1 (by omega))

/-- A URI of the workspace, or not. -/
theorem server_or_other (root uri : Text) :
    (∃ path, uri = serverUri root path) ∨
      ∀ path, uri ≠ serverUri root path := by
  by_cases h : ∃ path, uri = serverUri root path
  · exact .inl h
  · exact .inr fun path heq => h ⟨path, heq⟩

theorem prefix_iff_serverUri :
    (scheme ++ stripSlash root ++ ['/']).isPrefixOf uri = true ↔
      ∃ path, uri = serverUri root path := by
  rw [List.isPrefixOf_iff_prefix]
  constructor
  · rintro ⟨path, rfl⟩
    refine ⟨path, ?_⟩
    rw [serverUri, List.append_assoc _ ['/']]
    rfl
  · rintro ⟨path, rfl⟩
    refine ⟨path, ?_⟩
    rw [serverUri, List.append_assoc _ ['/']]
    rfl

theorem toRelative_serverUri (root path : Text) :
    rewriteUriString (serverUri root path) root .toRelative = browserUri path := by
  have hsplit : serverUri root path = (scheme ++ stripSlash root ++ ['/']) ++ path := by
    rw [serverUri, List.append_assoc _ ['/']]
    rfl
  simp only [rewriteUriString]
  rw [if_pos (prefix_iff_serverUri.2 ⟨path, rfl⟩), browserUri, hsplit, List.drop_left]

theorem toRelative_other (h : ∀ path, uri ≠ serverUri root path) :
    rewriteUriString uri root .toRelative = uri := by
  simp only [rewriteUriString]
  rw [if_neg]
  intro hprefix
  obtain ⟨path, rfl⟩ := prefix_iff_serverUri.1 hprefix
  exact h path rfl

theorem browserUri_or_other (uri : Text) :
    (∃ path, uri = browserUri path) ∨ ¬fileUri <+: uri := by
  by_cases h : fileUri <+: uri
  · obtain ⟨path, rfl⟩ := h
    exact .inl ⟨path, rfl⟩
  · exact .inr h

theorem toAbsolute_other (h : ¬fileUri <+: uri) :
    rewriteUriString uri root .toAbsolute = uri := by
  rw [← List.isPrefixOf_iff_prefix, Bool.not_eq_true] at h
  simp only [rewriteUriString]
  rw [h]
  rfl

/-- The URI of a path that is like the root looks as if it were absolute. -/
theorem rootLike_iff :
    RootLike root path ↔
      browserUri path = scheme ++ stripSlash root ∨
        ∃ rest, browserUri path = serverUri root rest := by
  rw [RootLike, browserUri_eq, List.append_cancel_left_eq]
  refine or_congr_right ⟨?_, ?_⟩
  · rintro ⟨rest, hrest⟩
    refine ⟨rest, ?_⟩
    rw [serverUri_eq, ← hrest, List.append_assoc]
    rfl
  · rintro ⟨rest, hrest⟩
    rw [serverUri_eq] at hrest
    refine ⟨rest, ?_⟩
    rw [List.append_cancel_left hrest, List.append_assoc]
    rfl

theorem toAbsolute_rootLike (h : RootLike root path) :
    rewriteUriString (browserUri path) root .toAbsolute = browserUri path := by
  have hprefix : fileUri.isPrefixOf (browserUri path) = true :=
    List.isPrefixOf_iff_prefix.2 ⟨path, rfl⟩
  simp only [rewriteUriString, hprefix]
  rw [if_neg (by decide), if_pos]
  rw [Bool.or_eq_true, decide_eq_true_eq, prefix_iff_serverUri]
  exact rootLike_iff.1 h

theorem toAbsolute_browserUri (h : ¬RootLike root path) :
    rewriteUriString (browserUri path) root .toAbsolute =
      serverUri root (path.dropWhile (· == '/')) := by
  have hprefix : fileUri.isPrefixOf (browserUri path) = true :=
    List.isPrefixOf_iff_prefix.2 ⟨path, rfl⟩
  have hdrop : (browserUri path).drop 7 = '/' :: path := by
    rw [browserUri_eq]
    rfl
  simp only [rewriteUriString, hprefix]
  rw [if_neg (by decide), if_neg, hdrop]
  · rfl
  · rw [Bool.or_eq_true, decide_eq_true_eq, prefix_iff_serverUri]
    exact fun hroot => h (rootLike_iff.2 hroot)

/-- To the browser and back. -/
def back (root uri : Text) : Text :=
  rewriteUriString (rewriteUriString uri root .toRelative) root .toAbsolute

/-- A measure in which a URI becomes smaller that does not come back as it was. -/
def size (root uri : Text) : Nat :=
  if uri = scheme ++ stripSlash root ||
      (scheme ++ stripSlash root ++ ['/']).isPrefixOf uri then uri.length
  else uri.length + (stripSlash root).length + 1

theorem size_serverUri (root path : Text) :
    size root (serverUri root path) = 8 + (stripSlash root).length + path.length := by
  rw [size, if_pos, serverUri_eq, List.length_append, List.length_append, List.length_cons,
    length_scheme]
  · omega
  · rw [Bool.or_eq_true, prefix_iff_serverUri]
    exact .inr ⟨path, rfl⟩

theorem length_browserUri (path : Text) : (browserUri path).length = 8 + path.length := by
  rw [browserUri_eq, List.length_append, List.length_cons, length_scheme]
  omega

theorem size_rootLike (h : RootLike root path) :
    size root (browserUri path) = 8 + path.length := by
  rw [size, if_pos, length_browserUri]
  rw [Bool.or_eq_true, decide_eq_true_eq, prefix_iff_serverUri]
  exact rootLike_iff.1 h

theorem size_browserUri (h : ¬RootLike root path) :
    size root (browserUri path) = 8 + path.length + (stripSlash root).length + 1 := by
  rw [size, if_neg, length_browserUri]
  rw [Bool.or_eq_true, decide_eq_true_eq, prefix_iff_serverUri]
  exact fun hroot => h (rootLike_iff.2 hroot)

theorem dropWhile_of_head (h : path.head? ≠ some '/') : path.dropWhile (· == '/') = path := by
  cases path with
  | nil => rfl
  | cons c path =>
      apply List.dropWhile_cons_of_neg
      intro hc
      rw [beq_iff_eq] at hc
      exact h (congrArg some hc)

theorem length_dropWhile_lt (h : path.head? = some '/') :
    (path.dropWhile (· == '/')).length < path.length := by
  cases path with
  | nil => cases h
  | cons c path =>
      cases Option.some.inj h
      have hle := (List.dropWhile_suffix (· == '/') (l := path)).length_le
      rw [List.dropWhile_cons_of_pos (by decide), List.length_cons]
      omega

/-- A URI comes back, or something smaller does. -/
theorem back_cases (root uri : Text) :
    (Returns root uri ∧ back root uri = uri) ∨
      (¬Returns root uri ∧ size root (back root uri) < size root uri) := by
  rcases server_or_other root uri with ⟨path, rfl⟩ | hother
  · rw [back, toRelative_serverUri, size_serverUri]
    by_cases hempty : stripSlash root = []
    · left
      have hlike : RootLike root path := .inr ⟨path, by rw [hempty]; rfl⟩
      refine ⟨⟨fun _ _ => .inl hempty, fun h => absurd rfl (h path)⟩, ?_⟩
      rw [toAbsolute_rootLike hlike, browserUri_eq, serverUri_eq, hempty]
      rfl
    · have hlength := List.length_pos_iff.2 hempty
      have hreturns : Returns root (serverUri root path) ↔
          path.head? ≠ some '/' ∧ ¬RootLike root path := by
        constructor
        · exact fun h => (h.inside path rfl).resolve_left hempty
        · intro h
          refine ⟨fun other hother => .inr ?_, fun hnone => absurd rfl (hnone path)⟩
          rwa [← serverUri_inj hother]
      rw [hreturns]
      by_cases hlike : RootLike root path
      · right
        rw [toAbsolute_rootLike hlike, size_rootLike hlike]
        exact ⟨fun h => h.2 hlike, by omega⟩
      · rw [toAbsolute_browserUri hlike]
        by_cases hslash : path.head? = some '/'
        · right
          have hlt := length_dropWhile_lt hslash
          rw [size_serverUri]
          exact ⟨fun h => h.1 hslash, by omega⟩
        · left
          rw [dropWhile_of_head hslash]
          exact ⟨⟨hslash, hlike⟩, rfl⟩
  · rw [back, toRelative_other hother]
    rcases browserUri_or_other uri with ⟨path, rfl⟩ | hscheme
    · by_cases hlike : RootLike root path
      · left
        rw [toAbsolute_rootLike hlike]
        refine ⟨⟨fun path' h => absurd h (hother path'), fun _ => .inr ?_⟩, rfl⟩
        rcases rootLike_iff.1 hlike with heq | ⟨rest, hrest⟩
        · exact heq
        · exact absurd hrest (hother rest)
      · right
        have hle := (List.dropWhile_suffix (· == '/') (l := path)).length_le
        rw [toAbsolute_browserUri hlike, size_serverUri, size_browserUri hlike]
        refine ⟨fun h => ?_, by omega⟩
        rcases h.outside hother with hno | hroot
        · exact hno ⟨path, rfl⟩
        · exact hlike (rootLike_iff.2 (.inl hroot))
    · left
      rw [toAbsolute_other hscheme]
      exact ⟨⟨fun path h => absurd h (hother path), fun _ => .inl hscheme⟩, rfl⟩

theorem returns_iff : back root uri = uri ↔ Returns root uri := by
  rcases back_cases root uri with ⟨hreturns, hback⟩ | ⟨hnot, hlt⟩
  · exact iff_of_true hback hreturns
  · refine iff_of_false (fun hback => ?_) hnot
    rw [hback] at hlt
    exact Nat.lt_irrefl _ hlt

theorem back_or_smaller (root uri : Text) :
    back root uri = uri ∨ size root (back root uri) < size root uri :=
  (back_cases root uri).imp And.right And.right

/-! ## Messages -/

theorem rewriteKeys_back {value : Json} (h : Sorted value) :
    rewriteKeys root .toAbsolute (rewriteKeys root .toRelative value) = value ↔
      ∀ uri ∈ keysOf value, back root uri = uri := by
  cases value with
  | obj inner =>
      rw [Sorted] at h
      let map : SortedMap Text Json := ⟨inner, h.1⟩
      let toRelative := fun uri => rewriteUriString uri root .toRelative
      let toAbsolute := fun uri => rewriteUriString uri root .toAbsolute
      have hmap : rewriteKeys root .toAbsolute (rewriteKeys root .toRelative (.obj inner)) =
          .obj ((map.renameKeys toRelative).renameKeys toAbsolute).entries := rfl
      rw [hmap, Json.obj.injEq]
      constructor
      · intro hback
        have hsame : (map.renameKeys toRelative).renameKeys toAbsolute = map :=
          SortedMap.ext_entries hback
        exact SortedMap.key_of_renameKeys_renameKeys (f := toRelative) (g := toAbsolute)
          (size root) (back_or_smaller root) hsame
      · intro hall
        rw [SortedMap.renameKeys_renameKeys]
        intro key hkey
        exact hall key (SortedMap.mem_keys_iff.2 hkey)
  | _ => exact iff_of_true rfl fun _ h => (nomatch h)

theorem rewriteValue_back {value : Json} :
    rewriteValue root .toAbsolute (rewriteValue root .toRelative value) = value ↔
      ∀ uri ∈ uriOf value, back root uri = uri := by
  cases value with
  | str uri =>
      rw [rewriteValue, rewriteValue, Json.str.injEq, uriOf, List.forall_mem_singleton]
      rfl
  | _ => exact iff_of_true rfl fun _ h => (nomatch h)

mutual

/-- A message comes back when all its URIs do. -/
theorem rewriteUris_back (root : Text) : (value : Json) → Sorted value →
    (rewriteUris root .toAbsolute (rewriteUris root .toRelative value) = value ↔
      ∀ uri ∈ uris value, back root uri = uri)
  | .obj fields, h => by
      rw [Sorted] at h
      rw [rewriteUris, rewriteUris, uris, Json.obj.injEq]
      exact rewriteFields_back root fields h.2
  | .arr items, h => by
      rw [Sorted] at h
      rw [rewriteUris, rewriteUris, uris, Json.arr.injEq]
      exact rewriteItems_back root items h
  | .null, _ => iff_of_true rfl fun _ h => (nomatch h)
  | .bool _, _ => iff_of_true rfl fun _ h => (nomatch h)
  | .num _, _ => iff_of_true rfl fun _ h => (nomatch h)
  | .decimal _, _ => iff_of_true rfl fun _ h => (nomatch h)
  | .str _, _ => iff_of_true rfl fun _ h => (nomatch h)

theorem rewriteItems_back (root : Text) : (items : List Json) → SortedItems items →
    (rewriteItems root .toAbsolute (rewriteItems root .toRelative items) = items ↔
      ∀ uri ∈ urisOfItems items, back root uri = uri)
  | [], _ => iff_of_true rfl fun _ h => (nomatch h)
  | item :: items, h => by
      rw [SortedItems] at h
      rw [rewriteItems, rewriteItems, urisOfItems, List.cons.injEq, List.forall_mem_append,
        rewriteUris_back root item h.1, rewriteItems_back root items h.2]

theorem rewriteFields_back (root : Text) : (fields : List (Text × Json)) → SortedFields fields →
    (rewriteFields root .toAbsolute (rewriteFields root .toRelative fields) = fields ↔
      ∀ uri ∈ urisOfFields fields, back root uri = uri)
  | [], _ => iff_of_true rfl fun _ h => (nomatch h)
  | (key, value) :: fields, h => by
      rw [SortedFields] at h
      rw [rewriteFields, rewriteFields, urisOfFields, List.cons.injEq, Prod.mk.injEq,
        List.forall_mem_append, rewriteFields_back root fields h.2]
      refine and_congr_left fun _ => ?_
      split_ifs with hchanges hkey
      · rw [rewriteKeys_back h.1, and_iff_right rfl]
      · rw [rewriteValue_back, and_iff_right rfl]
      · rw [rewriteUris_back root value h.1, and_iff_right rfl]

end

/-! ## The paths of the browser -/

/-- A path that is like the root and another one get the same URI. -/
def Collide (root path other : Text) : Prop :=
  RootLike root path ∧ ¬RootLike root other ∧ browserUri path = serverUri root other

theorem toAbsolute_eq_serverUri (h : path.head? ≠ some '/') :
    rewriteUriString (browserUri path) root .toAbsolute = serverUri root path ↔
      stripSlash root = [] ∨ ¬RootLike root path := by
  by_cases hlike : RootLike root path
  · rw [toAbsolute_rootLike hlike, or_iff_left (not_not_intro hlike)]
    constructor
    · intro heq
      by_contra hempty
      exact serverUri_ne_browserUri hempty path heq.symm
    · intro hempty
      rw [browserUri_eq, serverUri_eq, hempty]
      rfl
  · rw [toAbsolute_browserUri hlike, dropWhile_of_head h]
    exact iff_of_true rfl (.inr hlike)

theorem toAbsolute_eq_iff (h : path.head? ≠ some '/') (h' : other.head? ≠ some '/') :
    rewriteUriString (browserUri path) root .toAbsolute =
        rewriteUriString (browserUri other) root .toAbsolute ↔
      path = other ∨ Collide root path other ∨ Collide root other path := by
  by_cases hlike : RootLike root path
  · by_cases hlike' : RootLike root other
    · rw [toAbsolute_rootLike hlike, toAbsolute_rootLike hlike']
      constructor
      · exact fun heq => .inl (browserUri_inj heq)
      · rintro (rfl | hcollide | hcollide)
        · rfl
        · exact absurd hlike' hcollide.2.1
        · exact absurd hlike hcollide.2.1
    · rw [toAbsolute_rootLike hlike, toAbsolute_browserUri hlike', dropWhile_of_head h']
      constructor
      · exact fun heq => .inr (.inl ⟨hlike, hlike', heq⟩)
      · rintro (rfl | hcollide | hcollide)
        · exact absurd hlike hlike'
        · exact hcollide.2.2
        · exact absurd hlike hcollide.2.1
  · by_cases hlike' : RootLike root other
    · rw [toAbsolute_browserUri hlike, toAbsolute_rootLike hlike', dropWhile_of_head h]
      constructor
      · exact fun heq => .inr (.inr ⟨hlike', hlike, heq.symm⟩)
      · rintro (rfl | hcollide | hcollide)
        · exact absurd hlike' hlike
        · exact absurd hcollide.1 hlike
        · exact hcollide.2.2.symm
    · rw [toAbsolute_browserUri hlike, toAbsolute_browserUri hlike', dropWhile_of_head h,
        dropWhile_of_head h']
      constructor
      · exact fun heq => .inl (serverUri_inj heq)
      · rintro (rfl | hcollide | hcollide)
        · rfl
        · exact absurd hcollide.1 hlike
        · exact absurd hcollide.1 hlike'

/-- What is translated faithfully: the messages whose URIs are all in the workspace under paths
that are not like the root (or are not rewritten at all), and the relative paths that are not like
the root; two paths get one URI only when one of them is. -/
theorem bridge_iff (root : Text) :
    (∀ message, Sorted message →
      (rewriteUris root .toAbsolute (rewriteUris root .toRelative message) = message ↔
        ∀ uri ∈ uris message, Returns root uri)) ∧
    (∀ path : Text, path.head? ≠ some '/' →
      (rewriteUriString (browserUri path) root .toAbsolute = serverUri root path ↔
        stripSlash root = [] ∨ ¬RootLike root path)) ∧
    (∀ path other : Text, path.head? ≠ some '/' → other.head? ≠ some '/' →
      (rewriteUriString (browserUri path) root .toAbsolute =
          rewriteUriString (browserUri other) root .toAbsolute ↔
        path = other ∨ Collide root path other ∨ Collide root other path)) := by
  refine ⟨fun message h => ?_, fun path h => toAbsolute_eq_serverUri h,
    fun path other h h' => toAbsolute_eq_iff h h'⟩
  rw [rewriteUris_back root message h]
  simp only [returns_iff]

/-- A file in the workspace of `/ws`. -/
theorem bridge_iff_workspace :
    rewriteUris "/ws".toList .toAbsolute (rewriteUris "/ws".toList .toRelative
      (.object [("uri", .str "file:///ws/a".toList)])) =
        .object [("uri", .str "file:///ws/a".toList)] := by
  refine ((bridge_iff "/ws".toList).1 (.object [("uri", .str "file:///ws/a".toList)])
    ⟨List.pairwise_singleton .., trivial, trivial⟩).2 ?_
  refine List.forall_mem_singleton.2 ⟨fun path hpath => .inr ?_, fun hother => ?_⟩
  · have hsame : serverUri "/ws".toList path = serverUri "/ws".toList ['a'] := hpath.symm
    cases serverUri_inj hsame
    exact ⟨by decide, by rintro (h | h) <;> revert h <;> decide⟩
  · exact absurd rfl (hother ['a'])

/-- A header outside the workspace comes back as a file in it. -/
theorem outside_rewritten :
    ¬∀ root message, Sorted message →
      rewriteUris root .toAbsolute (rewriteUris root .toRelative message) = message := by
  intro h
  have hback := h "/ws".toList (.object [("uri", .str "file:///usr/a.h".toList)])
    ⟨List.pairwise_singleton .., trivial, trivial⟩
  have huris : ["file:///ws/usr/a.h".toList] = ["file:///usr/a.h".toList] :=
    congrArg uris hback
  exact absurd huris (by decide)

end Vanyline.Sandbox.BrowserUris
