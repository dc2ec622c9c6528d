import Mathlib.Data.List.ModifyLast
import MarkupCompiler.Proofs.Display.Symbols
import MarkupCompiler.Proofs.Spans

/-!
# How Printed Operations Are Grouped

No parentheses are printed around a sum, so a call or an access that is printed after one binds
to its last part, and a sum in a sum is not set apart. Which operation a text stands for is
still determined: it is a sum of operands, and the operands of an operation can be computed from
it. The printed text therefore shows an operation **regrouped**, and it shows the operation
itself exactly if no sum is called, accessed or part of another sum.

## Main results

* `Node.operands`, `Node.regrouped` — an operation as its text groups it.
* `Node.reads_symbols` — the symbols of an operation are read as its operands.
* `Node.symbols_regrouped` — regrouping keeps the symbols.
* `Node.IsGrouped` — the operations that are printed as they are.
* `Node.code_operation` — what the code of an operation shows.
-/

namespace MarkupCompiler

/-! ### Operands -/

/-- The sum of operands, or the only one. -/
def Operation.sum : List Node → Node
  | [operand] => operand
  | operands => .expr (.concat operands) none

mutual

/-- The operands of the sum that the text of an operation is: a call or an access binds to the
last operand of what it is printed after. -/
def Node.operands : Node → List Node
  | .expr value _ => value.operands
  | _ => []

/-- The operands of the sum that the text of an operation is. -/
def Expr.operands : Expr → List Node
  | .identifier name => [.expr (.identifier name) none]
  | .call callee arguments =>
    callee.operands.modifyLast fun last => .expr (.call last (Node.regroupedAll arguments)) none
  | .member object property =>
    object.operands.modifyLast fun last => .expr (.member last property) none
  | .concat parts => Node.operandsIn parts

/-- The operands of operations in a row. -/
def Node.operandsIn : List Node → List Node
  | [] => []
  | node :: rest => node.operands ++ Node.operandsIn rest

/-- Each operation as its text groups it. -/
def Node.regroupedAll : List Node → List Node
  | [] => []
  | node :: rest => Operation.sum node.operands :: Node.regroupedAll rest

end

/-- The operation as its text groups it. -/
def Node.regrouped (node : Node) : Node := Operation.sum node.operands

theorem Node.operandsIn_eq_flatMap (nodes : List Node) :
    Node.operandsIn nodes = nodes.flatMap Node.operands := by
  induction nodes with
  | nil => rfl
  | cons node rest ih => rw [Node.operandsIn, ih, List.flatMap_cons]

theorem Node.regroupedAll_eq_map (nodes : List Node) :
    Node.regroupedAll nodes = nodes.map Node.regrouped := by
  induction nodes with
  | nil => rfl
  | cons node rest ih =>
      rw [Node.regroupedAll, ih, List.map_cons]
      rfl

/-- An operation has an operand that comes last. -/
theorem Node.exists_operands_eq {node : Node} (h : node.IsOperation) :
    ∃ front last, node.operands = front ++ [last] := by
  induction h with
  | identifier hname =>
      exact ⟨[], _, by rw [Node.operands, Expr.operands, List.nil_append]⟩
  | call hcallee harguments ihcallee iharguments =>
      obtain ⟨front, last, hoperands⟩ := ihcallee
      exact ⟨front, _, by rw [Node.operands, Expr.operands, hoperands, List.modifyLast_concat]⟩
  | member hobject ihobject =>
      obtain ⟨front, last, hoperands⟩ := ihobject
      exact ⟨front, _, by rw [Node.operands, Expr.operands, hoperands, List.modifyLast_concat]⟩
  | @concat parts span hlength hparts ihparts =>
      rcases List.eq_nil_or_concat parts with rfl | ⟨init, part, rfl⟩
      · exact absurd hlength (by simp)
      · rw [List.concat_eq_append] at ihparts ⊢
        obtain ⟨front, last, hoperands⟩ := ihparts part List.mem_concat_self
        refine ⟨init.flatMap Node.operands ++ front, last, ?_⟩
        rw [Node.operands, Expr.operands, Node.operandsIn_eq_flatMap, List.flatMap_append,
          List.flatMap_singleton, hoperands, List.append_assoc]

theorem Node.operands_ne_nil {node : Node} (h : node.IsOperation) : node.operands ≠ [] := by
  obtain ⟨front, last, hoperands⟩ := Node.exists_operands_eq h
  rw [hoperands]
  simp

/-! ### Reading symbols -/

namespace Operation

/-- The state of a reader of symbols: the operands of the sum that is being read, the latest
first, and for each call that is still open the operands before it, its callee being the latest,
and its arguments so far, the latest first. -/
structure State where
  frames : List (List Node × List Node)
  operands : List Node

/-- The state after one more symbol. -/
def State.step : State → Symbol → State
  | ⟨frames, operands⟩, .name text => ⟨frames, .expr (.identifier text) none :: operands⟩
  | ⟨frames, operands⟩, .property text =>
    ⟨frames, operands.modifyHead fun last => .expr (.member last text) none⟩
  | ⟨frames, operands⟩, .opening => ⟨(operands, []) :: frames, []⟩
  | ⟨(outer, arguments) :: frames, operands⟩, .comma =>
    ⟨(outer, sum operands.reverse :: arguments) :: frames, []⟩
  | ⟨(outer, arguments) :: frames, operands⟩, .closing =>
    let arguments := if operands.isEmpty then arguments else sum operands.reverse :: arguments
    ⟨frames, outer.modifyHead fun last => .expr (.call last arguments.reverse) none⟩
  | state, _ => state

/-- What binds to the latest operand binds to the last of the operands. -/
theorem modifyHead_reverse_append {operands : List Node}
    (h : ∃ front last, operands = front ++ [last]) (f : Node → Node) (earlier : List Node) :
    (operands.reverse ++ earlier).modifyHead f = (operands.modifyLast f).reverse ++ earlier := by
  obtain ⟨front, last, rfl⟩ := h
  rw [List.modifyLast_concat]
  simp

/-- The symbols are read as operands. -/
def Reads (symbols : List Symbol) (operands : List Node) : Prop :=
  ∀ frames earlier,
    symbols.foldl State.step ⟨frames, earlier⟩ = ⟨frames, operands.reverse ++ earlier⟩

/-- The parts of a sum are read as all their operands. -/
theorem reads_parts {parts : List Node} (h : ∀ part ∈ parts, Reads part.symbols part.operands) :
    Reads ([.plus].intercalate (parts.map Node.symbols)) (parts.flatMap Node.operands) := by
  intro frames earlier
  induction parts generalizing earlier with
  | nil => rfl
  | cons part parts ih =>
      have hpart := h part List.mem_cons_self frames earlier
      have hparts := ih fun other hmem => h other (List.mem_cons_of_mem part hmem)
      rw [List.flatMap_cons, List.reverse_append, List.append_assoc, ← hparts]
      cases parts with
      | nil =>
          rw [List.map_singleton, List.intercalate_singleton, hpart]
          rfl
      | cons next parts =>
          rw [List.map_cons, List.map_cons, List.intercalate_cons_cons, List.foldl_append,
            List.foldl_append, hpart]
          rfl

/-- The arguments of a call, up to its end, are read as the call of the latest operand. -/
theorem foldl_step_arguments {arguments : List Node}
    (h : ∀ argument ∈ arguments, Reads argument.symbols argument.operands ∧ argument.operands ≠ [])
    (frames : List (List Node × List Node)) (outer earlier : List Node) :
    ([Symbol.comma].intercalate (arguments.map Node.symbols) ++ [Symbol.closing]).foldl State.step
        ⟨(outer, earlier) :: frames, []⟩ =
      ⟨frames, outer.modifyHead fun last =>
        .expr (.call last (earlier.reverse ++ arguments.map Node.regrouped)) none⟩ := by
  induction arguments generalizing earlier with
  | nil =>
      rw [List.map_nil, List.map_nil, List.append_nil]
      rfl
  | cons argument arguments ih =>
      obtain ⟨hargument, hne⟩ := h argument List.mem_cons_self
      have harguments := ih (fun other hmem => h other (List.mem_cons_of_mem argument hmem))
        (argument.regrouped :: earlier)
      rw [List.reverse_cons, List.append_assoc, List.singleton_append, ← List.map_cons]
        at harguments
      rw [← harguments]
      cases arguments with
      | nil =>
          rw [List.map_singleton, List.intercalate_singleton, List.foldl_append, hargument]
          simp [State.step, hne, Node.regrouped]
      | cons next arguments =>
          rw [List.map_cons, List.map_cons, List.intercalate_cons_cons, List.append_assoc,
            List.append_assoc, List.foldl_append, hargument]
          simp [State.step, Node.regrouped]

end Operation

/-- **The symbols of an operation are read as its operands.** -/
theorem Node.reads_symbols {node : Node} (h : node.IsOperation) :
    Operation.Reads node.symbols node.operands := by
  induction h with
  | identifier hname =>
      rw [Node.symbols, Expr.symbols, Node.operands, Expr.operands]
      exact fun _ _ => rfl
  | call hcallee harguments ihcallee iharguments =>
      intro frames earlier
      rw [Node.symbols, Expr.symbols, Node.operands, Expr.operands, List.foldl_append, ihcallee,
        List.foldl_cons, Node.symbolsAll_eq_map, Node.regroupedAll_eq_map]
      -- the call opens on the operands of its callee, and at its end binds to the latest of them
      refine (Operation.foldl_step_arguments (fun argument hmem =>
        ⟨iharguments argument hmem, Node.operands_ne_nil (harguments argument hmem)⟩)
        frames _ []).trans ?_
      exact congrArg _ (Operation.modifyHead_reverse_append (Node.exists_operands_eq hcallee) _
        earlier)
  | member hobject ihobject =>
      intro frames earlier
      rw [Node.symbols, Expr.symbols, Node.operands, Expr.operands, List.foldl_append, ihobject]
      exact congrArg _ (Operation.modifyHead_reverse_append (Node.exists_operands_eq hobject) _
        earlier)
  | concat hlength hparts ihparts =>
      rw [Node.symbols, Expr.symbols, Node.operands, Expr.operands, Node.symbolsAll_eq_map,
        Node.operandsIn_eq_flatMap]
      exact Operation.reads_parts ihparts

/-! ### Regrouping keeps the symbols -/

namespace Operation

/-- Lists that are joined, in two halves. -/
theorem intercalate_append {separator : List Symbol} {xs ys : List (List Symbol)} (hxs : xs ≠ [])
    (hys : ys ≠ []) :
    separator.intercalate (xs ++ ys) =
      separator.intercalate xs ++ separator ++ separator.intercalate ys := by
  induction xs with
  | nil => exact absurd rfl hxs
  | cons x xs ih =>
      cases xs with
      | nil =>
          rw [List.singleton_append, List.intercalate_cons_of_ne_nil hys,
            List.intercalate_singleton]
      | cons next xs =>
          rw [List.cons_append, List.intercalate_cons_of_ne_nil (by simp),
            ih (List.cons_ne_nil _ _), List.intercalate_cons_cons]
          simp only [List.append_assoc]

/-- The symbols of a sum are those of its operands. -/
theorem symbols_sum (operands : List Node) :
    (sum operands).symbols = [.plus].intercalate (operands.map Node.symbols) := by
  rw [sum.eq_def]
  split
  · rw [List.map_singleton, List.intercalate_singleton]
  · rw [Node.symbols, Expr.symbols, Node.symbolsAll_eq_map]

/-- What binds to the last operand comes after the symbols of all. -/
theorem symbols_sum_modifyLast {operands : List Node} {f : Node → Node} {suffix : List Symbol}
    (h : ∃ front last, operands = front ++ [last])
    (hf : ∀ last, (f last).symbols = last.symbols ++ suffix) :
    (sum (operands.modifyLast f)).symbols = (sum operands).symbols ++ suffix := by
  obtain ⟨front, last, rfl⟩ := h
  rw [List.modifyLast_concat, symbols_sum, symbols_sum, List.map_append, List.map_append,
    List.map_singleton, List.map_singleton, hf]
  by_cases hne : front.map Node.symbols = []
  · rw [hne, List.nil_append, List.nil_append, List.intercalate_singleton,
      List.intercalate_singleton]
  · rw [intercalate_append hne (List.cons_ne_nil _ _),
      intercalate_append hne (List.cons_ne_nil _ _), List.intercalate_singleton,
      List.intercalate_singleton]
    simp only [List.append_assoc]

/-- The sum of all operands of the parts has the symbols of the sum of the parts. -/
theorem symbols_sum_flatMap {parts : List Node}
    (h : ∀ part ∈ parts, part.operands ≠ [] ∧ (sum part.operands).symbols = part.symbols) :
    (sum (parts.flatMap Node.operands)).symbols =
      [.plus].intercalate (parts.map Node.symbols) := by
  induction parts with
  | nil => rfl
  | cons part parts ih =>
      obtain ⟨hne, hpart⟩ := h part List.mem_cons_self
      have hparts := ih fun other hmem => h other (List.mem_cons_of_mem part hmem)
      cases parts with
      | nil =>
          rw [List.flatMap_singleton, hpart, List.map_singleton, List.intercalate_singleton]
      | cons next parts =>
          obtain ⟨hnext, -⟩ := h next (by simp)
          rw [symbols_sum] at hpart hparts ⊢
          rw [List.flatMap_cons, List.map_append, intercalate_append (by simpa) (by simp [hnext]),
            hpart, hparts]
          simp only [List.map_cons, List.intercalate_cons_cons]

end Operation

/-- **Regrouping keeps the symbols.** -/
theorem Node.symbols_regrouped {node : Node} (h : node.IsOperation) :
    node.regrouped.symbols = node.symbols := by
  induction h with
  | identifier hname =>
      rw [Node.regrouped, Node.operands, Expr.operands, Operation.sum, Node.symbols, Node.symbols,
        Expr.symbols]
  | @call callee arguments span hcallee harguments ihcallee iharguments =>
      have hsymbols : (arguments.map Node.regrouped).map Node.symbols =
          arguments.map Node.symbols := by
        rw [List.map_map]
        exact List.map_congr_left iharguments
      rw [Node.regrouped, Node.operands, Expr.operands, Node.symbols, Expr.symbols, ← ihcallee]
      refine Operation.symbols_sum_modifyLast (Node.exists_operands_eq hcallee) fun last => ?_
      rw [Node.symbols, Expr.symbols, Node.symbolsAll_eq_map, Node.symbolsAll_eq_map,
        Node.regroupedAll_eq_map, hsymbols]
  | member hobject ihobject =>
      rw [Node.regrouped, Node.operands, Expr.operands, Node.symbols, Expr.symbols, ← ihobject]
      refine Operation.symbols_sum_modifyLast (Node.exists_operands_eq hobject) fun last => ?_
      rw [Node.symbols, Expr.symbols]
  | concat hlength hparts ihparts =>
      rw [Node.regrouped, Node.operands, Expr.operands, Node.symbols, Expr.symbols,
        Node.operandsIn_eq_flatMap, Node.symbolsAll_eq_map]
      exact Operation.symbols_sum_flatMap fun part hmem =>
        ⟨Node.operands_ne_nil (hparts part hmem), ihparts part hmem⟩

/-! ### Grouped operations -/

/-- The node is a sum. -/
def Node.isSum : Node → Bool
  | .expr (.concat _) _ => true
  | _ => false

/-- The node is an operation that is **grouped** as it is printed: no step binds to a sum. -/
inductive Node.IsGrouped : Node → Prop
  | identifier {name : String} {span : Option Span} (hname : Text.isIdentifier name = true) :
      Node.IsGrouped (.expr (.identifier name) span)
  | call {callee : Node} {arguments : List Node} {span : Option Span}
      (hcallee : callee.IsGrouped) (hsum : callee.isSum = false)
      (harguments : ∀ argument ∈ arguments, argument.IsGrouped) :
      Node.IsGrouped (.expr (.call callee arguments) span)
  | member {object : Node} {property : String} {span : Option Span}
      (hobject : object.IsGrouped) (hsum : object.isSum = false) :
      Node.IsGrouped (.expr (.member object property) span)
  | concat {parts : List Node} {span : Option Span} (hlength : 2 ≤ parts.length)
      (hparts : ∀ part ∈ parts, part.IsGrouped) (hsums : ∀ part ∈ parts, part.isSum = false) :
      Node.IsGrouped (.expr (.concat parts) span)

theorem Node.IsGrouped.isOperation {node : Node} (h : node.IsGrouped) : node.IsOperation := by
  induction h with
  | identifier hname => exact .identifier hname
  | call _ _ _ ihcallee iharguments => exact .call ihcallee iharguments
  | member _ _ ihobject => exact .member ihobject
  | concat hlength _ _ ihparts => exact .concat hlength ihparts

/-- A sum of grouped operands is grouped. -/
theorem Operation.isGrouped_sum {operands : List Node} (hne : operands ≠ [])
    (h : ∀ operand ∈ operands, operand.IsGrouped ∧ operand.isSum = false) :
    (sum operands).IsGrouped := by
  match operands with
  | [] => exact absurd rfl hne
  | [operand] => exact (h operand List.mem_cons_self).1
  | first :: second :: rest =>
      exact .concat (by simp) (fun part hmem => (h part hmem).1) fun part hmem => (h part hmem).2

/-- The operands of an operation are grouped. -/
theorem Node.isGrouped_operands {node : Node} (h : node.IsOperation) :
    ∀ operand ∈ node.operands, operand.IsGrouped ∧ operand.isSum = false := by
  induction h with
  | identifier hname =>
      rw [Node.operands, Expr.operands]
      exact List.forall_mem_singleton.mpr ⟨.identifier hname, rfl⟩
  | @call callee arguments span hcallee harguments ihcallee iharguments =>
      obtain ⟨front, last, hoperands⟩ := Node.exists_operands_eq hcallee
      rw [hoperands, List.forall_mem_append, List.forall_mem_singleton] at ihcallee
      have hregrouped : ∀ argument ∈ arguments.map Node.regrouped, argument.IsGrouped :=
        List.forall_mem_map.mpr fun argument hmem =>
          Operation.isGrouped_sum (Node.operands_ne_nil (harguments argument hmem))
            (iharguments argument hmem)
      rw [Node.operands, Expr.operands, hoperands, List.modifyLast_concat,
        Node.regroupedAll_eq_map, List.forall_mem_append, List.forall_mem_singleton]
      exact ⟨ihcallee.1, .call ihcallee.2.1 ihcallee.2.2 hregrouped, rfl⟩
  | member hobject ihobject =>
      obtain ⟨front, last, hoperands⟩ := Node.exists_operands_eq hobject
      rw [hoperands, List.forall_mem_append, List.forall_mem_singleton] at ihobject
      rw [Node.operands, Expr.operands, hoperands, List.modifyLast_concat,
        List.forall_mem_append, List.forall_mem_singleton]
      exact ⟨ihobject.1, .member ihobject.2.1 ihobject.2.2, rfl⟩
  | concat hlength hparts ihparts =>
      rw [Node.operands, Expr.operands, Node.operandsIn_eq_flatMap]
      intro operand hmem
      obtain ⟨part, hpart, hoperand⟩ := List.mem_flatMap.mp hmem
      exact ihparts part hpart operand hoperand

/-- An operation as its text groups it is grouped. -/
theorem Node.isGrouped_regrouped {node : Node} (h : node.IsOperation) :
    node.regrouped.IsGrouped :=
  Operation.isGrouped_sum (Node.operands_ne_nil h) (Node.isGrouped_operands h)

/-- A grouped operation is printed as it is: regrouping only takes the spans away. A sum aside,
it is its own only operand. -/
theorem Node.IsGrouped.regrouped_eq {node : Node} (h : node.IsGrouped) :
    node.regrouped = node.eraseSpans ∧
      (node.isSum = false → node.operands = [node.eraseSpans]) := by
  -- in all cases but the sum, both parts follow from the second
  have honly : ∀ node : Node, node.operands = [node.eraseSpans] →
      node.regrouped = node.eraseSpans ∧
        (node.isSum = false → node.operands = [node.eraseSpans]) :=
    fun node hoperands => ⟨by rw [Node.regrouped, hoperands, Operation.sum], fun _ => hoperands⟩
  induction h with
  | identifier hname =>
      refine honly _ ?_
      rw [Node.operands, Expr.operands, Node.eraseSpans, Expr.eraseSpans]
  | @call callee arguments span hcallee hsum harguments ihcallee iharguments =>
      have hregrouped : arguments.map Node.regrouped = arguments.map Node.eraseSpans :=
        List.map_congr_left fun argument hmem => (iharguments argument hmem).1
      refine honly _ ?_
      rw [Node.operands, Expr.operands, ihcallee.2 hsum, ← List.nil_append [callee.eraseSpans],
        List.modifyLast_concat, Node.regroupedAll_eq_map, hregrouped, Node.eraseSpans,
        Expr.eraseSpans, Node.eraseSpansAll_eq_map, List.nil_append]
  | @member object property span hobject hsum ihobject =>
      refine honly _ ?_
      rw [Node.operands, Expr.operands, ihobject.2 hsum, ← List.nil_append [object.eraseSpans],
        List.modifyLast_concat, Node.eraseSpans, Expr.eraseSpans, List.nil_append]
  | @concat parts span hlength hparts hsums ihparts =>
      have hoperands : ∀ part ∈ parts, part.operands = [part.eraseSpans] :=
        fun part hmem => (ihparts part hmem).2 (hsums part hmem)
      have hflatMap : parts.flatMap Node.operands = parts.map Node.eraseSpans := by
        rw [List.map_eq_flatMap, List.flatMap_def, List.flatMap_def,
          List.map_congr_left hoperands]
      refine ⟨?_, nofun⟩
      rw [Node.regrouped, Node.operands, Expr.operands, Node.operandsIn_eq_flatMap, hflatMap,
        Node.eraseSpans, Expr.eraseSpans, Node.eraseSpansAll_eq_map]
      match parts, hlength with
      | _ :: _ :: _, _ => rfl

theorem Node.isSum_eraseSpans (node : Node) : node.eraseSpans.isSum = node.isSum := by
  cases node with
  | expr value span => cases value <;> rw [Node.eraseSpans, Expr.eraseSpans] <;> rfl
  | _ => rw [Node.eraseSpans]; rfl

/-- Spans make no difference to how an operation is grouped. -/
theorem Node.isGrouped_of_eraseSpans {node : Node} (h : node.IsOperation)
    (hgrouped : node.eraseSpans.IsGrouped) : node.IsGrouped := by
  induction h with
  | identifier hname => exact .identifier hname
  | call hcallee harguments ihcallee iharguments =>
      rw [Node.eraseSpans, Expr.eraseSpans, Node.eraseSpansAll_eq_map] at hgrouped
      cases hgrouped with
      | call hcallee' hsum harguments' =>
          rw [Node.isSum_eraseSpans] at hsum
          exact .call (ihcallee hcallee') hsum fun argument hmem =>
            iharguments argument hmem (harguments' _ (List.mem_map_of_mem hmem))
  | member hobject ihobject =>
      rw [Node.eraseSpans, Expr.eraseSpans] at hgrouped
      cases hgrouped with
      | member hobject' hsum =>
          rw [Node.isSum_eraseSpans] at hsum
          exact .member (ihobject hobject') hsum
  | concat hlength hparts ihparts =>
      rw [Node.eraseSpans, Expr.eraseSpans, Node.eraseSpansAll_eq_map] at hgrouped
      cases hgrouped with
      | concat hlength' hparts' hsums =>
          refine .concat hlength (fun part hmem => ?_) fun part hmem => ?_
          · exact ihparts part hmem (hparts' _ (List.mem_map_of_mem hmem))
          · rw [← Node.isSum_eraseSpans]
            exact hsums _ (List.mem_map_of_mem hmem)

/-! ### What the code of an operation shows -/

/-- Operations with the same code are regrouped to the same. -/
theorem Node.regrouped_eq_of_code_eq {node node' : Node} (h : node.IsOperation)
    (h' : node'.IsOperation) {indent : String} (hcode : node.code indent = node'.code indent) :
    node.regrouped = node'.regrouped := by
  have hsymbols : node.symbols = node'.symbols := by
    refine Operation.flatMap_chars_injective (Node.spaced_symbols h) (Node.spaced_symbols h') ?_
    rw [← Node.toList_code h indent, ← Node.toList_code h' indent, hcode]
  have hreads := Node.reads_symbols h [] []
  rw [hsymbols, Node.reads_symbols h' [] []] at hreads
  have hoperands := List.append_cancel_right (Operation.State.mk.inj hreads).2
  rw [Node.regrouped, Node.regrouped, List.reverse_inj.mp hoperands]

/-- Regrouping keeps the code. -/
theorem Node.code_regrouped {node : Node} (h : node.IsOperation) (indent : String) :
    node.regrouped.code indent = node.code indent := by
  rw [← String.toList_inj, Node.toList_code (Node.isGrouped_regrouped h).isOperation,
    Node.toList_code h, Node.symbols_regrouped h]

/-- **What the code of an operation shows.** It is the operation's display at every indentation.
Two operations have the same code exactly if their texts group them to the same operation. What
the text of an operation groups it to is grouped, and has the same code; and it is the operation
itself, up to spans, exactly if the operation is grouped. So the code of grouped operations tells
them apart, and every other operation has the code of a different one. -/
theorem Node.code_operation {node node' : Node} (h : node.IsOperation) (h' : node'.IsOperation)
    (indent : String) :
    node.display = node.code indent ∧
      (node.code indent = node'.code indent ↔ node.regrouped = node'.regrouped) ∧
      node.regrouped.IsGrouped ∧ node.regrouped.code indent = node.code indent ∧
      (node.regrouped = node.eraseSpans ↔ node.IsGrouped) ∧
      (node.IsGrouped → node'.IsGrouped →
        (node.code indent = node'.code indent ↔ node.eraseSpans = node'.eraseSpans)) := by
  have hgrouped := Node.isGrouped_regrouped h
  refine ⟨Node.display_operation h indent, ⟨Node.regrouped_eq_of_code_eq h h', fun heq => ?_⟩,
    hgrouped, Node.code_regrouped h indent, ⟨fun heq => ?_, fun hself => hself.regrouped_eq.1⟩,
    fun hself hself' => ⟨fun hcode => ?_, fun herase => ?_⟩⟩
  · rw [← Node.code_regrouped h, heq, Node.code_regrouped h']
  · rw [heq] at hgrouped
    exact Node.isGrouped_of_eraseSpans h hgrouped
  · rw [← hself.regrouped_eq.1, ← hself'.regrouped_eq.1]
    exact Node.regrouped_eq_of_code_eq h h' hcode
  · rw [← Node.code_eraseSpans, herase, Node.code_eraseSpans]

/-- A name. -/
def Node.named (name : String) : Node := .expr (.identifier name) none

/-- The sum of `a` and `b`, called with `c`. -/
def Node.calledSum : Node :=
  .expr (.call (.expr (.concat [.named "a", .named "b"]) none) [.named "c"]) none

/-- The sum of `a` and of `b` called with `c`. -/
def Node.sumWithCall : Node :=
  .expr (.concat [.named "a", .expr (.call (.named "b") [.named "c"]) none]) none

theorem Node.isOperation_calledSum : Node.calledSum.IsOperation := by
  have hsum : (Node.expr (.concat [.named "a", .named "b"]) none).IsOperation :=
    .concat (Nat.le_refl 2) (List.forall_mem_cons.mpr ⟨.identifier (by decide),
      List.forall_mem_singleton.mpr (.identifier (by decide))⟩)
  exact .call hsum (List.forall_mem_singleton.mpr (.identifier (by decide)))

theorem Node.isOperation_sumWithCall : Node.sumWithCall.IsOperation := by
  have hcall : (Node.expr (.call (.named "b") [.named "c"]) none).IsOperation :=
    .call (.identifier (by decide)) (List.forall_mem_singleton.mpr (.identifier (by decide)))
  exact .concat (Nat.le_refl 2) (List.forall_mem_cons.mpr ⟨.identifier (by decide),
    List.forall_mem_singleton.mpr hcall⟩)

/-- They are two operations, but have the same display. -/
theorem Node.display_calledSum :
    Node.calledSum.IsOperation ∧ Node.sumWithCall.IsOperation ∧
      Node.calledSum.display = "a + b(c)" ∧ Node.sumWithCall.display = "a + b(c)" ∧
      Node.calledSum.eraseSpans ≠ Node.sumWithCall.eraseSpans :=
  ⟨Node.isOperation_calledSum, Node.isOperation_sumWithCall, by decide, by decide, nofun⟩

/-- Their text groups both to the same operation. -/
theorem Node.regrouped_calledSum :
    Node.calledSum.IsOperation ∧ Node.sumWithCall.IsOperation ∧
      Node.calledSum.regrouped = Node.sumWithCall.regrouped :=
  ⟨Node.isOperation_calledSum, Node.isOperation_sumWithCall,
    (Node.code_operation Node.isOperation_calledSum Node.isOperation_sumWithCall "").2.1.mp
      (by decide)⟩

end MarkupCompiler
