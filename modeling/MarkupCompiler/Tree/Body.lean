import MarkupCompiler.Tree.Literal

/-!
# Bodies

A body is a list of text runs and tags. Data and expressions that stand in it are text, and
neighbouring text runs are merged as far as they agree on escaping, so that few calls are
generated. When two runs meet, the literal at the end of the one and the literal at the
start of the other become one argument: their joined text, if both have a text, and
otherwise an expression that concatenates them.

## Main definitions

* `TextRun.append?` — two runs as one, if they agree on escaping.
* `Node.mergeAdjacent` — a node list with neighbouring text runs merged.
* `Node.normalizeBody` — a node list as a body.
-/

namespace MarkupCompiler

namespace TextRun

/-- Two neighbouring literals as one argument, which keeps the place of the first. -/
def joinLiterals (left : Literal) (leftSpan : Option Span) (right : Literal)
    (rightSpan : Option Span) : Node :=
  match left.toText?, right.toText? with
  | some leftText, some rightText => .literal (.string (leftText ++ rightText)) leftSpan
  | _, _ => .expr (.concat [.literal left leftSpan, .literal right rightSpan]) leftSpan

/-- One more argument. A literal joins a literal at the end. -/
def addArgument (arguments : List Node) (argument : Node) : List Node :=
  match arguments.getLast?, argument with
  | some (.literal left leftSpan), .literal right rightSpan =>
    arguments.dropLast ++ [joinLiterals left leftSpan right rightSpan]
  | _, _ => arguments ++ [argument]

/-- A run followed by another, as one run in the place of the first. Runs that differ in
escaping stay apart. -/
def append? (run next : TextRun) : Option TextRun :=
  if next.escape = run.escape then
    some { run with
      isStatic := run.isStatic && next.isStatic
      converter := next.converter.or run.converter
      arguments := next.arguments.foldl addArgument run.arguments }
  else none

end TextRun

namespace Node

mutual

/-- A node list with neighbouring text runs merged. -/
def mergeAdjacent : List Node → List Node
  | [] => []
  | .text run :: rest => mergeAfter run rest
  | node :: rest => node :: mergeAdjacent rest

/-- The same for a list that follows a text run, which takes in what it can. -/
def mergeAfter (run : TextRun) : List Node → List Node
  | [] => [.text run]
  | .text next :: rest =>
    match run.append? next with
    | some joined => mergeAfter joined rest
    | none => .text run :: mergeAfter next rest
  | node :: rest => .text run :: node :: mergeAdjacent rest

end

/-- A node as part of a body: data and expressions become escaped text in their place. -/
def asBodyPart (node : Node) : Node :=
  match node with
  | .literal _ span => .text { TextRun.ofNode node with span }
  | .expr _ span => .text { TextRun.ofNode node with span }
  | _ => node

/-- A node list as a body. -/
def normalizeBody (nodes : List Node) : List Node :=
  mergeAdjacent (nodes.map asBodyPart)

end Node

end MarkupCompiler
