import MarkupCompiler.Source.Location

/-!
# Source Spans

A span is a stretch of a source file, from one location up to another.

## Main definitions

* `Span.ofOffsets` — the span between two byte offsets.
* `Span.text` — the source text that it covers.
* `Span.contextualMessage` — a message with the source around the span's start.
-/

namespace MarkupCompiler

/-- A stretch of source text. -/
structure Span where
  start : Location
  stop : Location
  deriving DecidableEq

namespace Span

/-- The span between two byte offsets of a file. -/
def ofOffsets (file : SourceFile) (start stop : Nat) : Span :=
  ⟨.ofOffset file start, .ofOffset file stop⟩

/-- The text from the start, or from the stop if that comes first, up to the stop. -/
def text (span : Span) : String :=
  let upToStop := Text.takeBytes span.stop.offset span.start.file.content.toList
  String.ofList (Text.dropBytes span.start.offset upToStop)

/-- A message followed by the source around the span's start, where there is some, and by
the start's location. -/
def contextualMessage (span : Span) (message : String) : String :=
  match span.start.context? 100 3 with
  | some (before, after) =>
    message ++ " (\"" ++ before ++ "[ERROR ->]" ++ after ++ "\"): " ++ span.start.display
  | none => message ++ ": " ++ span.start.display

end Span

end MarkupCompiler
