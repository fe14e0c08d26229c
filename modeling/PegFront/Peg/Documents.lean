import PegFront.Peg.Session
import PegFront.Source.Documents

/-!
# Documents of runs

Options and trace events as JSON documents and as dumps.
-/

namespace PegFront

open Json.Decode

namespace Options

def dump (o : Options) : Dump :=
  .record "ParseOptions"
    [("file_name", .string o.file), ("file_index", .nat o.fileIndex), ("trace", .bool o.trace)]

def toJson (o : Options) : Json :=
  .object
    [("file_name", .string o.file), ("file_index", .nat o.fileIndex), ("trace", .bool o.trace)]

/-- Every field has its default. -/
def ofJson? (v : Json) : Option Options := do
  let defaults : Options := {}
  match ← openFields? ["file_name", "file_index", "trace"] v with
  | [file, fileIndex, trace] =>
    return {
      file := ← withDefault? defaults.file Json.string? file
      fileIndex := ← withDefault? defaults.fileIndex word32? fileIndex
      trace := ← withDefault? defaults.trace Json.bool? trace }
  | _ => none

end Options

namespace TraceKind

def all : List TraceKind := [.enter, .success, .failure]

def displayName : TraceKind → String
  | .enter => "Enter"
  | .success => "Success"
  | .failure => "Failure"

end TraceKind

namespace TraceEvent

def dump (e : TraceEvent) : Dump :=
  .record "TraceEvent" [("kind", .atom e.kind.displayName), ("rule", .string e.rule),
    ("depth", .nat e.depth), ("span", e.span.dump), ("excerpt", .string e.excerpt)]

def toJson (e : TraceEvent) : Json :=
  .object [("kind", .string e.kind.displayName), ("rule", .string e.rule), ("depth", .nat e.depth),
    ("span", e.span.toJson), ("excerpt", .string e.excerpt)]

def ofJson? (v : Json) : Option TraceEvent := do
  match ← fields? ["kind", "rule", "depth", "span", "excerpt"] v with
  | [some kind, some rule, some depth, some span, some excerpt] =>
    return ⟨← choice? TraceKind.all TraceKind.displayName kind, ← rule.string?, ← word64? depth,
      ← Span.ofJson? span, ← excerpt.string?⟩
  | _ => none

end TraceEvent

end PegFront
