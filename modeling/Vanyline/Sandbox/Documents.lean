import Mathlib.Data.Finset.Basic
import Mathlib.Logic.Function.Basic

/-!
# What a language server session records about documents

A session keeps three maps keyed by URI, each behind its own lock.

* `openUris`: the documents that a tool has asked to open.  Nothing leaves it.
* `docVersions`: the last version number that a tool has drawn.
* `editorUris`: the browser clients that have a document open, as the bridge
  observes them.
-/

namespace Vanyline.Sandbox

abbrev Uri := List Char

abbrev ClientId := Nat

/-- The greatest `i32`. -/
def i32Max : Int := 2147483647

/-- Addition of two `i32` that stops at the ends of the range. -/
def saturatingAdd (a b : Int) : Int := max (-i32Max - 1) (min (a + b) i32Max)

structure Documents where
  openUris : Uri → Bool
  docVersions : Uri → Option Int
  editorUris : Uri → Finset ClientId

namespace Documents

def empty : Documents := ⟨fun _ => false, fun _ => none, fun _ => ∅⟩

variable (d : Documents) (uri : Uri) (client : ClientId)

/-- Has this caller to send the `didOpen`? -/
def tryMarkUriOpen : Bool × Documents :=
  (!d.openUris uri, { d with openUris := Function.update d.openUris uri true })

/-- The version that `nextDocVersion` starts from. -/
def lastVersion : Int := (d.docVersions uri).getD 1

/-- The next version for a `didChange` of a tool. -/
def nextDocVersion : Int × Documents :=
  let next := saturatingAdd (d.lastVersion uri) 1
  (next, { d with docVersions := Function.update d.docVersions uri (some next) })

/-- Does a browser have the document open? -/
def hasEditorClient : Bool := (d.editorUris uri).Nonempty

def markEditorUriOpen : Documents :=
  { d with editorUris := Function.update d.editorUris uri (insert client (d.editorUris uri)) }

def markEditorUriClose : Documents :=
  { d with editorUris := Function.update d.editorUris uri ((d.editorUris uri).erase client) }

/-- A client that is gone has no document open. -/
def unsubscribe : Documents :=
  { d with editorUris := fun uri => (d.editorUris uri).erase client }

@[simp] theorem tryMarkUriOpen_fst : (d.tryMarkUriOpen uri).1 = !d.openUris uri := rfl

@[simp] theorem tryMarkUriOpen_openUris : (d.tryMarkUriOpen uri).2.openUris uri = true :=
  Function.update_self ..

theorem tryMarkUriOpen_openUris_of_ne {uri' : Uri} (hne : uri' ≠ uri) :
    (d.tryMarkUriOpen uri).2.openUris uri' = d.openUris uri' :=
  Function.update_of_ne hne ..

@[simp] theorem tryMarkUriOpen_lastVersion (uri' : Uri) :
    (d.tryMarkUriOpen uri).2.lastVersion uri' = d.lastVersion uri' := rfl

@[simp] theorem nextDocVersion_openUris : (d.nextDocVersion uri).2.openUris = d.openUris := rfl

@[simp] theorem nextDocVersion_lastVersion :
    (d.nextDocVersion uri).2.lastVersion uri = (d.nextDocVersion uri).1 := by
  simp [nextDocVersion, lastVersion]

theorem nextDocVersion_lastVersion_of_ne {uri' : Uri} (hne : uri' ≠ uri) :
    (d.nextDocVersion uri).2.lastVersion uri' = d.lastVersion uri' := by
  simp [nextDocVersion, lastVersion, Function.update_of_ne hne]

/-- Below the end of the range the next version is one more. -/
theorem nextDocVersion_fst (hfrom : 1 ≤ d.lastVersion uri) (hbelow : d.lastVersion uri < i32Max) :
    (d.nextDocVersion uri).1 = d.lastVersion uri + 1 := by
  show saturatingAdd (d.lastVersion uri) 1 = d.lastVersion uri + 1
  unfold i32Max at hbelow
  unfold saturatingAdd i32Max
  omega

end Documents

end Vanyline.Sandbox
