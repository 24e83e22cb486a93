import LexFront.Json.Basic
import LexFront.Location.Basic

/-!
# Locations and spans as JSON

Journal entries sort the fields of every object by name; reports keep the order in which the parts
are usually named.
-/

set_option autoImplicit false

namespace LexFront

/-- A location as a JSON object. -/
def Location.toJson (l : Location) : Json :=
  .obj [("unit", .str l.unit), ("line", .nat l.line), ("column", .nat l.column)]

/-- A location as a JSON object, fields sorted by name. -/
def Location.toJsonSorted (l : Location) : Json :=
  .obj [("column", .nat l.column), ("line", .nat l.line), ("unit", .str l.unit)]

/-- A span as a JSON object. -/
def Span.toJson (s : Span) : Json :=
  .obj [("start", s.start.toJson), ("end", s.stop.toJson)]

/-- A span as a JSON object, fields sorted by name. -/
def Span.toJsonSorted (s : Span) : Json :=
  .obj [("end", s.stop.toJsonSorted), ("start", s.start.toJsonSorted)]

end LexFront
