import MarkupCompiler.Compile

/-!
# The Text of a Code Buffer

A buffer keeps its code line by line. Seen as one **text**, its lines joined by line breaks,
every operation only adds to it: a token adds its characters, and a new line adds a line
break. The source of a buffer is its text, unless empty lines are left out at the end, and
none are after a statement. So the code of roots is one statement for each, joined by line
breaks.

## Main results

* `CodeBuffer.text_write`, `CodeBuffer.text_newline` — what is added to the text.
* `CodeBuffer.sourceOf_eq` — the source of one token.
* `generate_eq_intercalate` — the code of lowered roots.
* `generate_append` — the code of two lists of roots in a row.
-/

namespace MarkupCompiler

namespace CodeBuffer

/-- All that a buffer holds, as one text. -/
def text (b : CodeBuffer) : String := "\n".intercalate (b.current :: b.finished).reverse

/-- The lines joined, where the last one is written apart from the others. -/
theorem intercalate_concat (lines : List String) (last : String) :
    "\n".intercalate (lines ++ [last]) = "\n".intercalate (lines ++ [""]) ++ last := by
  by_cases h : lines = []
  · subst h
    simp
  · rw [String.intercalate_append_of_ne_nil h (List.cons_ne_nil _ _),
      String.intercalate_append_of_ne_nil h (List.cons_ne_nil _ _), String.intercalate_singleton,
      String.intercalate_singleton, String.append_empty]

/-- A new line adds a line break. -/
theorem text_newline (b : CodeBuffer) : b.newline.text = b.text ++ "\n" := by
  rw [text, text, newline, List.reverse_cons,
    String.intercalate_append_of_ne_nil (by simp) (List.cons_ne_nil _ _),
    String.intercalate_singleton, String.append_empty]

/-- A character adds itself. -/
theorem text_push (b : CodeBuffer) (c : Char) : (b.push c).text = b.text.push c := by
  rw [push]
  split
  · rename_i hc
    subst hc
    exact b.text_newline
  · rw [text, text, List.reverse_cons, List.reverse_cons, intercalate_concat,
      intercalate_concat b.finished.reverse b.current, String.push_eq_append,
      String.push_eq_append, String.append_assoc]

/-- **A token adds its characters.** -/
theorem text_write (b : CodeBuffer) (token : String) : (b.write token).text = b.text ++ token := by
  have hfold : ∀ (chars : List Char) (b : CodeBuffer),
      (chars.foldl push b).text = b.text ++ String.ofList chars := by
    intro chars
    induction chars with
    | nil => simp
    | cons c rest ih =>
        intro b
        rw [List.foldl_cons, ih, text_push, String.push_eq_append, String.ofList_cons,
          String.append_assoc]
  rw [write, hfold, String.ofList_toList]

/-- A token leaves the nesting level alone. -/
theorem level_write (b : CodeBuffer) (token : String) : (b.write token).level = b.level := by
  have hpush : ∀ (b : CodeBuffer) (c : Char), (b.push c).level = b.level := by
    intro b c
    rw [push, newline]
    split <;> rfl
  rw [write]
  induction token.toList generalizing b with
  | nil => rfl
  | cons c rest ih => rw [List.foldl_cons, ih, hpush]

/-- After a character other than a line break, the source is the whole text. -/
theorem toSource_eq_text {b : CodeBuffer} (h : b.current.isEmpty = false) :
    b.toSource = b.text := by
  rw [toSource, text, List.dropWhile_cons, if_neg (by simp [h])]

/-- Texts in a row do not end with a character that none of them ends with. -/
theorem not_mem_getLast?_flatMap {α : Type} {text : α → List Char} {c : Char} {parts : List α}
    (h : ∀ part ∈ parts, c ∉ (text part).getLast?) : c ∉ (parts.flatMap text).getLast? := by
  induction parts with
  | nil => simp
  | cons part rest ih =>
      rw [List.flatMap_cons, List.getLast?_append]
      intro hmem
      rcases Option.or_eq_some_iff.mp (Option.mem_def.mp hmem) with hrest | ⟨-, hpart⟩
      · exact ih (fun other hother => h other (List.mem_cons_of_mem part hother)) hrest
      · exact h part List.mem_cons_self hpart

/-- **The source of one token** is the token, unless it ends with a line break. -/
theorem sourceOf_eq {token : String} (h : '\n' ∉ token.toList.getLast?) :
    sourceOf token = token := by
  have htext : (write {} token).text = token := by
    rw [text_write]
    exact String.empty_append
  rw [sourceOf]
  rcases List.eq_nil_or_concat token.toList with hnil | ⟨chars, c, hchars⟩
  · rw [String.toList_eq_nil_iff.mp hnil]
    rfl
  · have hc : c ≠ '\n' := by
      rintro rfl
      exact h (by rw [hchars]; simp)
    have hcurrent : (write {} token).current.isEmpty = false := by
      rw [write, hchars, List.concat_eq_append, List.foldl_append, List.foldl_cons,
        List.foldl_nil, push, if_neg hc]
      simp
    rw [toSource_eq_text hcurrent, htext]

end CodeBuffer

/-- The statement of a lowered root. -/
def Node.statement (root : Node) : String := root.code "" ++ ";"

namespace CodeBuffer

variable {b : CodeBuffer}

/-- What is written for a root, where lines are not indented: its statement. -/
theorem text_emit (h : b.level = 0) (root : Node) :
    ((b.emit root).write ";").text = b.text ++ root.statement := by
  rw [text_write, emit, text_write, lineIndent, h, String.append_assoc]
  rfl

/-- A root leaves the nesting level alone. -/
theorem level_emit (root : Node) : ((b.emit root).write ";").level = b.level := by
  rw [level_write, emit, level_write]

/-- The line of a statement that was written is not empty. -/
theorem isEmpty_current_write (b : CodeBuffer) : (b.write ";").current.isEmpty = false := by
  show (b.current.push ';').isEmpty = false
  simp

end CodeBuffer

/-- Further roots after some whose statements a buffer holds, the last on its current line. -/
theorem toSource_emitRest {b : CodeBuffer} {done : List Node} (hlevel : b.level = 0)
    (hcurrent : b.current.isEmpty = false) (hdone : done ≠ [])
    (htext : b.text = "\n".intercalate (done.map Node.statement)) (roots : List Node) :
    (emitRest b roots).toSource = "\n".intercalate ((done ++ roots).map Node.statement) := by
  induction roots generalizing b done with
  | nil => rw [emitRest, CodeBuffer.toSource_eq_text hcurrent, htext, List.append_nil]
  | cons root rest ih =>
      have hmore : done ++ root :: rest = (done ++ [root]) ++ rest := by simp
      rw [emitRest, hmore]
      refine ih ?_ (CodeBuffer.isEmpty_current_write _) (by simp) ?_
      · rw [CodeBuffer.level_emit]
        exact hlevel
      · rw [CodeBuffer.text_emit (b := b.newline) hlevel, CodeBuffer.text_newline, htext,
          List.map_append, String.intercalate_append_of_ne_nil (by simpa) (by simp)]
        simp

/-- **The code of lowered roots**: one statement for each, joined by line breaks. -/
theorem generate_eq_intercalate (roots : List Node) :
    generate roots = "\n".intercalate (roots.map Node.statement) := by
  cases roots with
  | nil => rfl
  | cons root rest =>
      have htext : ((CodeBuffer.emit {} root).write ";").text =
          "\n".intercalate ([root].map Node.statement) := by
        rw [CodeBuffer.text_emit rfl]
        simp [CodeBuffer.text]
      exact toSource_emitRest (CodeBuffer.level_emit root) (CodeBuffer.isEmpty_current_write _)
        (List.cons_ne_nil _ _) htext rest

/-- The code of two lists of roots in a row. -/
theorem generate_append {xs ys : List Node} (hxs : xs ≠ []) (hys : ys ≠ []) :
    generate (xs ++ ys) = generate xs ++ "\n" ++ generate ys := by
  rw [generate_eq_intercalate, generate_eq_intercalate, generate_eq_intercalate, List.map_append,
    String.intercalate_append_of_ne_nil] <;> simpa

end MarkupCompiler
