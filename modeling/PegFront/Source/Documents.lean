import PegFront.Dump
import PegFront.Json.Decode
import PegFront.Source.Lines

/-!
# Documents of places

Spans and positions as JSON documents and as dumps.
-/

namespace PegFront

open Json.Decode

namespace Span

def dump (s : Span) : Dump :=
  .record "Span" [("file_index", .nat s.file), ("start", .nat s.start), ("end", .nat s.stop)]

def toJson (s : Span) : Json :=
  .object [("file_index", .nat s.file), ("start", .nat s.start), ("end", .nat s.stop)]

/-- The order of start and end is not checked. -/
def ofJson? (v : Json) : Option Span := do
  match ← fields? ["file_index", "start", "end"] v with
  | [some file, some start, some stop] => return ⟨← word32? file, ← word64? start, ← word64? stop⟩
  | _ => none

end Span

namespace Position

def dump (p : Position) : Dump := .record "LineCol" [("line", .nat p.line), ("column", .nat p.column)]

def toJson (p : Position) : Json := .object [("line", .nat p.line), ("column", .nat p.column)]

def ofJson? (v : Json) : Option Position := do
  match ← fields? ["line", "column"] v with
  | [some line, some column] => return ⟨← word64? line, ← word64? column⟩
  | _ => none

end Position

end PegFront
