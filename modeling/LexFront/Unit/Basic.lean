import LexFront.Files.Tree
import LexFront.Journal.Event

/-!
# Units

A unit is a named source of characters. Units are given as text, as bytes or as a feed, or they are
opened from a file; a file above the size limit is refused before anything of it is read.
-/

set_option autoImplicit false

namespace LexFront

/-- A named source of characters. -/
structure SourceUnit where
  name : String
  content : Feed
  /-- The number of bytes, where it is known beforehand. -/
  size? : Option Nat := none
  deriving DecidableEq, Repr

namespace SourceUnit

/-- The unit over some bytes. -/
def ofBytes (name : String) (data : List UInt8) : SourceUnit :=
  ⟨name, .ofBytes data, some data.length⟩

/-- The unit over a text. -/
def ofText (name text : String) : SourceUnit := ofBytes name text.toByteArray.toList

/-- The unit over a feed, whose size is not known. -/
def ofFeed (name : String) (content : Feed) : SourceUnit := ⟨name, content, none⟩

/-- A decoder at the start of a unit. -/
def decoder (u : SourceUnit) : Decoder := { feed := u.content }

/-- The failure of an open that a lookup leads to, with what the journal is told about it. -/
def openFailure (path : String) (error : SourceError) (message : String)
    (details : List (String × String) := []) : Except SourceError SourceUnit × List Event :=
  (.error error, [(Event.error error.code message).withContext (("path", path) :: details)])

/-- Opens what a path leads to. -/
def openFound (path : String) : Lookup → Except SourceError SourceUnit × List Event
  | .missing => openFailure path (.notFound path) "Cannot stat source unit"
  | .failed message => openFailure path (.io s!"{path}: {message}") "Cannot stat source unit"
  | .notFile => openFailure path (.invalidPath path) "Path is not a file"
  | .denied => openFailure path (.permissionDenied path) "Cannot open source unit"
  | .file size content =>
    if Limits.unitSize < size then
      openFailure path (.unitTooLarge size Limits.unitSize) "Source unit exceeds size limit"
        [("size", toString size), ("max_size", toString Limits.unitSize)]
    else
      (.ok ⟨path, content, some size⟩,
        [(Event.success .unitOpened "Source unit opened").withContext
          [("path", path), ("size_bytes", toString size)]])

/-- Opens the file at a path, with what the journal is told about it. -/
def openFile (path : String) (found : Lookup) : Except SourceError SourceUnit × List Event :=
  let (unit, events) := openFound path found
  (unit, (Event.debug "Opening source unit").withContext [("path", path)] :: events)

end SourceUnit

end LexFront
