import MarkupCompiler.Proofs.Display.Chain
import MarkupCompiler.Proofs.LineWriter
import MarkupCompiler.Proofs.Lowering.Emission
import MarkupCompiler.Proofs.Resolution.Budget

/-!
# Roots on Their Own and Together

The display of a node is its code in a buffer of its own, less the empty lines at the end. The
roots of a compilation are written to one buffer, where nothing is left out between them. Both
come to the same, because no lowered root ends with a line break: a root is a text run or a tag,
and its code is a chain of calls, of which each ends with its closing parenthesis. What stands
inside of the parentheses may well have line breaks anywhere, such as an identifier that ends
with one.

Data and expressions need not end like this, so it matters that the body of a lowered tag has
neither, at any depth.

## Main results

* `Node.getLast?_callCode` — a call ends with its closing parenthesis.
* `Node.isPart_of_mem_followers` — all that continues the chain of a lowered node is a call.
* `Node.display_lower` — a lowered root is displayed as its code.
* `compileWith_code` — the code of a compilation is the display of its roots.
-/

namespace MarkupCompiler

/-! ### Chains that end with a call -/

/-- The call of a text run or tag ends with its closing parenthesis. -/
theorem Node.getLast?_callCode {node : Node} (h : node.IsPart) (indent : String) :
    (node.callCode indent).toList.getLast? = some ')' := by
  cases node with
  | literal value span => exact absurd h id
  | expr value span => exact absurd h id
  | text run =>
      obtain ⟨arguments, isStatic, escape, isChild, factory, converter, span⟩ := run
      show ((Node.text _).code indent).toList.getLast? = some ')'
      rw [Node.code, TextRun.code.eq_def, String.toList_append]
      exact List.getLast?_concat
  | tag t =>
      rw [Node.callCode, String.toList_append]
      exact List.getLast?_concat

/-- **A chain of calls is displayed as its code**: there is no empty line at the end. -/
theorem Node.display_eq_code {node : Node} (h : node.IsPart)
    (hbelow : ∀ part ∈ node.followers, part.IsPart) : node.display = node.code "" := by
  have hsource : node.display = CodeBuffer.sourceOf (node.code "") := by
    cases node with
    | literal value span => exact absurd h id
    | expr value span => exact absurd h id
    | text run => rfl
    | tag t => rfl
  have hline : ∀ part ∈ node.followers, '\n' ∉ (part.callLine "").getLast? := by
    intro part hpart
    rw [Node.callLine, String.toList_append, List.getLast?_append,
      Node.getLast?_callCode (hbelow part hpart)]
    rintro ⟨⟩
  rw [hsource]
  refine CodeBuffer.sourceOf_eq fun hmem => ?_
  rw [Node.toList_code_eq_chain, List.getLast?_append, Node.getLast?_callCode h] at hmem
  rcases Option.or_eq_some_iff.mp (Option.mem_def.mp hmem) with hlines | ⟨-, hcall⟩
  · exact CodeBuffer.not_mem_getLast?_flatMap hline hlines
  · cases hcall

/-! ### Lowered nodes -/

/-- What is reached from parts of a lowered body is part of one. -/
theorem Node.Reached.isChildPart {converter : String} {node : Node} {forest : List Node}
    (h : node.Reached forest)
    (hforest : ∀ root ∈ forest, root.IsChildPart ∧ root.Everywhere (Node.Lowered converter)) :
    node.IsChildPart := by
  induction h with
  | root hmem => exact (hforest _ hmem).1
  | @body forest t hmem _ ih =>
      have htree := (hforest _ hmem).2
      have hbody : Node.IsBody t.body := htree _ .here
      refine ih fun child hchild => ⟨hbody.isChildPart child hchild, ?_⟩
      exact fun part hpart => htree part (.inside (Tag.mem_children_iff.mpr (.inr hchild)) hpart)

/-- All that continues the chain of a lowered node is a text run or a tag. -/
theorem Node.isPart_of_mem_followers {converter : String} {node : Node}
    (h : node.Everywhere (Node.Lowered converter)) : ∀ part ∈ node.followers, part.IsPart := by
  intro part hpart
  cases node with
  | tag t =>
      rw [Node.followers_tag] at hpart
      have hbody : Node.IsBody t.body := h _ .here
      have hchild : part.IsChildPart := (Node.mem_chain_iff.mp hpart).isChildPart fun root hroot =>
        ⟨hbody.isChildPart root hroot, fun inner hinner =>
          h inner (.inside (Tag.mem_children_iff.mpr (.inr hroot)) hinner)⟩
      exact hchild.isPart
  | _ => cases hpart

/-- A text run or a tag stays one when it is lowered. -/
theorem Node.isPart_lower {node : Node} (h : node.IsPart) (converter : String) :
    (node.lower converter).IsPart := by
  cases node with
  | literal value span => exact absurd h id
  | expr value span => exact absurd h id
  | text run => trivial
  | tag t => trivial

/-- **A lowered root is displayed as its code.** -/
theorem Node.display_lower {node : Node} (h : node.IsPart) (converter : String) :
    (node.lower converter).display = (node.lower converter).code "" :=
  Node.display_eq_code (Node.isPart_lower h converter)
    (Node.isPart_of_mem_followers (Node.everywhere_lowered converter node))

/-- Each node that is lowered in a unit is lowered with the name that the converter has then. -/
theorem Node.exists_of_mem_lowerAllIn {root : Node} {nodes : List Node} {unit : CompileUnit}
    (h : root ∈ (Node.lowerAllIn nodes unit).1) :
    ∃ node ∈ nodes, ∃ converter, root = node.lower converter := by
  induction nodes generalizing unit with
  | nil => cases h
  | cons node rest ih =>
      rcases List.mem_cons.mp h with rfl | hrest
      · exact ⟨node, List.mem_cons_self, _, rfl⟩
      · obtain ⟨source, hsource, hroot⟩ := ih hrest
        exact ⟨source, List.mem_cons_of_mem node hsource, hroot⟩

/-! ### The code of a compilation -/

/-- The lowered roots of a resolved forest are text runs and tags. -/
theorem isPart_of_mem_lowerRoots {resolved : List Node} {unit : CompileUnit} {root : Node}
    (h : root ∈ (lowerRoots resolved unit).1) : root.IsPart := by
  obtain ⟨node, hnode, converter, rfl⟩ := Node.exists_of_mem_lowerAllIn h
  exact Node.isPart_lower (Node.isPart_of_mem_normalizeBody hnode) converter

/-- The code of the lowered roots of a resolved forest: their displays, each as a statement. -/
theorem generate_lowerRoots (resolved : List Node) (unit : CompileUnit) :
    generate (lowerRoots resolved unit).1 =
      "\n".intercalate ((lowerRoots resolved unit).1.map fun root => root.display ++ ";") := by
  rw [generate_eq_intercalate]
  refine congrArg _ (List.map_congr_left fun root hroot => ?_)
  obtain ⟨node, hnode, converter, rfl⟩ := Node.exists_of_mem_lowerAllIn hroot
  rw [Node.statement, Node.display_lower (Node.isPart_of_mem_normalizeBody hnode)]

/-- **The code of a compilation is the display of its roots.** With any registry and within any
budget, a compilation that succeeds has resolved the forest, as it does within every larger
budget, and its code consists of the displays of the resolved nodes, taken as a body and lowered
one after the other. Each is closed by a semicolon, and they are joined by line breaks. So it does
not matter that the roots are emitted into one writer, while each display comes from a writer of
its own. -/
theorem compileWith_code {budget : Nat} {registry : Registry} {config : Config} {schema : Schema}
    {nodes : List Node} {output : Output}
    (h : compileWith budget registry config schema nodes = .ok output) :
    ∃ resolved unit roots,
      (∀ budget', budget ≤ budget' →
        compileWith budget' registry config schema nodes = .ok output ∧
        Resolver.resolveForest ⟨registry, schema⟩ budget' nodes { config } = .ok resolved unit) ∧
      roots = (Node.lowerAllIn (Node.normalizeBody resolved) unit).1 ∧
      output.code = "\n".intercalate (roots.map fun root => root.display ++ ";") ∧
      output.code = (LineWriter.emitRoots {} true roots).toSource ∧
      ∀ root ∈ roots, root.display = (LineWriter.emit {} root).toSource := by
  have hlater : ∀ budget', budget ≤ budget' →
      compileWith budget' registry config schema nodes = .ok output := fun budget' hle =>
    (compileWith_mono hle (by rw [h]; rintro ⟨⟩)).trans h
  rw [compileWith] at h
  split at h
  · cases h
  · rename_i resolved unit hresolved
    obtain rfl := Except.ok.inj h
    exact ⟨resolved, unit, (lowerRoots resolved unit).1,
      fun budget' hle => ⟨hlater budget' hle, Resolver.resolveForest_mono _ hle hresolved⟩, rfl,
      generate_lowerRoots resolved unit, (LineWriter.toSource_emitRoots _).symm,
      fun root hroot => (LineWriter.toSource_emit (isPart_of_mem_lowerRoots hroot)).symm⟩

/-- The builtin registry and a directive that signs a tag: it puts an element at the end of the
tag's body, with an expression in it whose code ends with a line break. -/
def Registry.signing : Registry :=
  Registry.builtin.addDirective "signed"
    { enter := some fun _ scope =>
        .ok .removed
          { scope with
            tag := { scope.tag with
              body := scope.tag.body ++
                [.tag { Tag.named "b" with body := [.expr (.identifier "signature\n") none] }] } } }

/-- A paragraph to be signed, and an expression whose code ends with a line break. -/
def Node.unsigned : List Node :=
  [.tag { Tag.named "p" with attributes := [.flag "signed"] }, .expr (.identifier "name\n") none]

/-- The code of the signed forest. -/
def signedCode : String :=
  "out.e(\"p\", null, 1)\n  .e(\"b\", null, 1)\n  .t(rt_str(signature\n));\n" ++
    "out.t(rt_str(name\n));"

/-- The two roots of the signed forest, which are found within a budget of one level more than the
forest has: the line breaks at the end of the expressions stand inside of calls, and the displays
of the roots keep them. -/
theorem compileWith_code_signing :
    compileWith 1 Registry.signing {} (TagTable.mk []).schema Node.unsigned =
      .error .unfinished ∧
    ∃ resolved unit roots,
      (∀ budget, 2 ≤ budget →
        compileWith budget Registry.signing {} (TagTable.mk []).schema Node.unsigned =
          .ok ⟨signedCode, [("str", "rt_str")], []⟩ ∧
        Resolver.resolveForest ⟨Registry.signing, (TagTable.mk []).schema⟩ budget Node.unsigned
          { config := {} } = .ok resolved unit) ∧
      roots = (Node.lowerAllIn (Node.normalizeBody resolved) unit).1 ∧
      signedCode = "\n".intercalate (roots.map fun root => root.display ++ ";") ∧
      signedCode = (LineWriter.emitRoots {} true roots).toSource ∧
      ∀ root ∈ roots, root.display = (LineWriter.emit {} root).toSource := by
  have hcompile : compileWith 2 Registry.signing {} (TagTable.mk []).schema Node.unsigned =
      .ok ⟨signedCode, [("str", "rt_str")], []⟩ := by
    decide +kernel
  exact ⟨by decide +kernel, compileWith_code hcompile⟩

end MarkupCompiler
