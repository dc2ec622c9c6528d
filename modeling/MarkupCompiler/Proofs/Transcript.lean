import Mathlib.Data.List.DropRight
import MarkupCompiler.Proofs.LineWriter
import MarkupCompiler.Proofs.Text.Scanning

/-!
# The Transcript of a Code Buffer

A buffer keeps its code as lines, but what is done to it only ever adds to one text. The
**transcript** of a sequence of steps is that text, written down without a buffer: what every
step contributes, in the order of the steps, where the indentation of a line is two spaces for
each time that the buffer was deepened before. After any steps the source of the buffer is the
transcript without the line breaks at its end, and its line length counts the bytes after the
last line break of the transcript. A line writer, which takes the same steps with lines of parts
and emits nodes token by token, has the same source and counts the same length.

## Main definitions

* `CodeBuffer.Step` — what can be done to a buffer, `CodeBuffer.run` a sequence of steps.
* `LineWriter.run` — the same steps, taken by a line writer.
* `CodeBuffer.transcript` — all that is written in a sequence of steps.
* `CodeBuffer.Holds` — the buffer holds a text, at a nesting level.

## Main results

* `CodeBuffer.Holds.apply`, `CodeBuffer.Holds.run` — what a step, and a sequence of steps, adds.
* `CodeBuffer.Holds.toList_toSource`, `CodeBuffer.Holds.lineLength_eq` — source and line length
  of a buffer by the text it holds.
* `LineWriter.Refines.run` — the line writer refines the buffer all the time.
* `CodeBuffer.run_transcript` — a buffer is a text that grows, and so is a line writer.
-/

namespace MarkupCompiler

namespace CodeBuffer

/-- What can be done to a buffer. -/
inductive Step where
  | write (token : String)
  | writeLiteral (value : Literal)
  | writeIndent
  | writeLineIndent
  | deepen
  | newline
  | emit (node : Node)

/-- The buffer after a step. -/
def Step.apply (b : CodeBuffer) : Step → CodeBuffer
  | .write token => b.write token
  | .writeLiteral value => b.writeLiteral value
  | .writeIndent => b.writeIndent
  | .writeLineIndent => b.writeLineIndent
  | .deepen => b.deepen
  | .newline => b.newline
  | .emit node => b.emit node

/-- The buffer after a sequence of steps. -/
def run (b : CodeBuffer) (steps : List Step) : CodeBuffer := steps.foldl Step.apply b

/-- A line writer after a step. -/
def Step.applyTo (w : LineWriter) : Step → LineWriter
  | .write token => w.write token
  | .writeLiteral value => w.writeLiteral value
  | .writeIndent => w.writeIndent
  | .writeLineIndent => w.writeLineIndent
  | .deepen => w.deepen
  | .newline => w.newline
  | .emit node => w.emit node

/-! ### Transcripts -/

/-- A number of spaces. -/
def spaces (count : Nat) : String := String.ofList (List.replicate count ' ')

/-- What a step contributes after so many steps that deepened the buffer. -/
def Step.contribution (deepened : Nat) : Step → String
  | .write token => token
  | .writeLiteral value => value.display
  | .writeIndent => spaces 2
  | .writeLineIndent => spaces (2 * deepened)
  | .deepen => ""
  | .newline => "\n"
  | .emit node => node.code (spaces (2 * deepened))

/-- How many steps have deepened the buffer once this one is done. -/
def Step.deepenedAfter (deepened : Nat) : Step → Nat
  | .deepen => deepened + 1
  | _ => deepened

/-- All that is written in a sequence of steps. -/
def transcript (deepened : Nat) : List Step → String
  | [] => ""
  | step :: rest => step.contribution deepened ++ transcript (step.deepenedAfter deepened) rest

/-- The indentation of a nesting level is two spaces for each level. -/
theorem indentOf_eq_spaces (level : Nat) : indentOf level = spaces (2 * level) := by
  induction level with
  | zero => rfl
  | succ level ih =>
      have htwo : indentUnit = spaces 2 := rfl
      rw [indentOf, ih, htwo, spaces, spaces, spaces, ← String.ofList_append,
        List.replicate_append_replicate, Nat.mul_succ, Nat.add_comm]

/-! ### What a buffer holds -/

/-- The buffer holds a text at a nesting level: its lines, none of which has a line break in it,
are the lines of the text. -/
structure Holds (b : CodeBuffer) (level : Nat) (written : String) : Prop where
  level_eq : b.level = level
  text_eq : b.text = written
  unbroken : ∀ line ∈ b.current :: b.finished, '\n' ∉ line.toList

theorem holds_empty : Holds {} 0 "" where
  level_eq := rfl
  text_eq := rfl
  unbroken := by simp

namespace Holds

variable {b : CodeBuffer} {level : Nat} {written : String} (h : b.Holds level written)
include h

theorem newline : b.newline.Holds level (written ++ "\n") where
  level_eq := h.level_eq
  text_eq := by rw [text_newline, h.text_eq]
  unbroken := by
    intro line hline
    rcases List.mem_cons.mp hline with rfl | hrest
    · exact List.not_mem_nil
    · exact h.unbroken line hrest

theorem push (c : Char) : (b.push c).Holds level (written.push c) := by
  rw [CodeBuffer.push]
  split
  · rename_i hc
    subst hc
    exact h.newline
  · rename_i hc
    refine ⟨h.level_eq, ?_, ?_⟩
    · rw [← h.text_eq, ← text_push, CodeBuffer.push, if_neg hc]
    · intro line hline
      rcases List.mem_cons.mp hline with rfl | hrest
      · have hcurrent := h.unbroken b.current List.mem_cons_self
        simpa [hcurrent] using Ne.symm hc
      · exact h.unbroken line (List.mem_cons_of_mem _ hrest)

theorem write (token : String) : (b.write token).Holds level (written ++ token) := by
  have hfold : ∀ (chars : List Char) (b : CodeBuffer) (written : String), b.Holds level written →
      (chars.foldl CodeBuffer.push b).Holds level (written ++ String.ofList chars) := by
    intro chars
    induction chars with
    | nil =>
        intro b written h
        simpa using h
    | cons c rest ih =>
        intro b written h
        have hrest := ih (b.push c) (written.push c) (h.push c)
        rwa [String.push_eq_append, String.append_assoc, ← String.ofList_cons] at hrest
  rw [CodeBuffer.write]
  simpa using hfold token.toList b written h

theorem lineIndent_eq : b.lineIndent = spaces (2 * level) := by
  rw [lineIndent, h.level_eq, indentOf_eq_spaces]

/-- **What a step adds**: its contribution, at the nesting level that counts the steps that
deepened the buffer. -/
theorem apply (step : Step) :
    (step.apply b).Holds (step.deepenedAfter level) (written ++ step.contribution level) := by
  cases step with
  | write token => exact h.write token
  | writeLiteral value => exact h.write value.display
  | writeIndent => exact h.write indentUnit
  | writeLineIndent =>
      show b.writeLineIndent.Holds level (written ++ spaces (2 * level))
      rw [← h.lineIndent_eq]
      exact h.write b.lineIndent
  | deepen =>
      refine ⟨congrArg (· + 1) h.level_eq, ?_, h.unbroken⟩
      exact h.text_eq.trans String.append_empty.symm
  | newline => exact h.newline
  | emit node =>
      show (b.emit node).Holds level (written ++ node.code (spaces (2 * level)))
      rw [← h.lineIndent_eq]
      exact h.write (node.code b.lineIndent)

/-- **What a sequence of steps adds**: its transcript. -/
theorem run (steps : List Step) :
    ∃ after, (b.run steps).Holds after (written ++ transcript level steps) := by
  induction steps generalizing b level written with
  | nil => exact ⟨level, by simpa [CodeBuffer.run, transcript] using h⟩
  | cons step rest ih =>
      obtain ⟨after, hrest⟩ := ih (h.apply step)
      rw [String.append_assoc] at hrest
      exact ⟨after, hrest⟩

end Holds

/-! ### Source and line length -/

/-- Lines joined, the last of them first. Leaving out empty lines at the end is leaving out line
breaks at the end. -/
theorem toList_intercalate_dropWhile {lines : List String}
    (h : ∀ line ∈ lines, '\n' ∉ line.toList) :
    ("\n".intercalate (lines.dropWhile String.isEmpty).reverse).toList =
      ("\n".intercalate lines.reverse).toList.rdropWhile (· = '\n') := by
  induction lines with
  | nil => simp
  | cons line rest ih =>
      have hrest := ih fun other hother => h other (List.mem_cons_of_mem _ hother)
      by_cases hempty : line.isEmpty
      · obtain rfl : line = "" := by simpa using hempty
        rw [List.dropWhile_cons_of_pos hempty, hrest, List.reverse_cons]
        by_cases hnil : rest = []
        · subst hnil
          simp
        · rw [String.intercalate_append_of_ne_nil (by simpa using hnil) (List.cons_ne_nil _ _)]
          simp only [String.intercalate_singleton, String.append_empty, String.toList_append]
          exact (List.rdropWhile_concat_pos _ _ '\n' rfl).symm
      · have hline : line.toList ≠ [] := by simpa using hempty
        rw [List.dropWhile_cons_of_neg hempty, List.reverse_cons, intercalate_concat,
          String.toList_append, eq_comm, List.rdropWhile_eq_self_iff]
        intro hne
        rw [List.getLast_append_of_ne_nil _ hline, decide_eq_true_eq]
        intro hlast
        exact h line List.mem_cons_self (hlast ▸ List.getLast_mem hline)

namespace Holds

variable {b : CodeBuffer} {level : Nat} {written : String} (h : b.Holds level written)
include h

/-- The source is the text without the line breaks at its end. -/
theorem toList_toSource : b.toSource.toList = written.toList.rdropWhile (· = '\n') := by
  rw [toSource, toList_intercalate_dropWhile h.unbroken, ← h.text_eq, text]

/-- The line being written is what follows the last line break. -/
theorem toList_current : b.current.toList = written.toList.rtakeWhile (· ≠ '\n') := by
  have hcurrent : ∀ c ∈ b.current.toList.reverse, decide (c ≠ '\n') = true := by
    intro c hc
    have hunbroken := h.unbroken b.current List.mem_cons_self
    rw [List.mem_reverse] at hc
    exact decide_eq_true fun heq => hunbroken (heq ▸ hc)
  -- what stands before it is empty or ends with a line break
  have hbefore : ∀ c ∈ ("\n".intercalate (b.finished.reverse ++ [""])).toList.reverse.head?,
      decide (c ≠ '\n') = false := by
    by_cases hnil : b.finished = []
    · simp [hnil]
    · rw [String.intercalate_append_of_ne_nil (by simpa using hnil) (List.cons_ne_nil _ _)]
      simp
  obtain ⟨htake, -⟩ := Text.takeWhile_run hcurrent hbefore
  rw [← h.text_eq, text, List.reverse_cons, intercalate_concat, String.toList_append,
    List.rtakeWhile, List.reverse_append, htake, List.reverse_reverse]

theorem lineLength_eq : b.lineLength =
    (String.ofList (written.toList.rtakeWhile (· ≠ '\n'))).utf8ByteSize := by
  rw [lineLength, ← h.toList_current, String.ofList_toList]

end Holds

end CodeBuffer

/-! ### Line writers -/

namespace LineWriter

open CodeBuffer (Step)

/-- A line writer after a sequence of steps. -/
def run (w : LineWriter) (steps : List Step) : LineWriter := steps.foldl Step.applyTo w

/-- A step that a writer and a buffer take together. -/
theorem Refines.apply {w : LineWriter} {b : CodeBuffer} (h : w.Refines b) (step : Step) :
    (step.applyTo w).Refines (step.apply b) := by
  cases step with
  | write token => exact h.write token
  | writeLiteral value => exact h.write value.display
  | writeIndent => exact h.writeIndent
  | writeLineIndent => exact h.writeLineIndent
  | deepen => exact h.deepen
  | newline => exact h.newline
  | emit node => exact h.emit node

/-- **A sequence of steps** that a writer and a buffer take together. -/
theorem Refines.run {w : LineWriter} {b : CodeBuffer} (h : w.Refines b) (steps : List Step) :
    (w.run steps).Refines (b.run steps) := by
  induction steps generalizing w b with
  | nil => exact h
  | cons step rest ih => exact ih (h.apply step)

end LineWriter

namespace CodeBuffer

/-- **A buffer is a text that grows.** After any sequence of steps on a fresh buffer, the source
is the transcript without the line breaks at its end, and the line length is the number of bytes
after the last line break of the transcript. A fresh line writer that takes the same steps, with
nodes emitted token by token, has the same source, and the count of bytes that it keeps is this
number. -/
theorem run_transcript (steps : List Step) :
    (run {} steps).toSource =
        String.ofList ((transcript 0 steps).toList.rdropWhile (· = '\n')) ∧
      (run {} steps).lineLength =
        (String.ofList ((transcript 0 steps).toList.rtakeWhile (· ≠ '\n'))).utf8ByteSize ∧
      (LineWriter.run {} steps).toSource =
        String.ofList ((transcript 0 steps).toList.rdropWhile (· = '\n')) ∧
      (LineWriter.run {} steps).lineLength =
        (String.ofList ((transcript 0 steps).toList.rtakeWhile (· ≠ '\n'))).utf8ByteSize := by
  obtain ⟨level, hholds⟩ := holds_empty.run steps
  rw [String.empty_append] at hholds
  have hsource : (run {} steps).toSource =
      String.ofList ((transcript 0 steps).toList.rdropWhile (· = '\n')) := by
    rw [← hholds.toList_toSource, String.ofList_toList]
  have hrefines := LineWriter.refines_new.run steps
  exact ⟨hsource, hholds.lineLength_eq, hrefines.toSource_eq.trans hsource,
    hrefines.lineLength_eq.trans hholds.lineLength_eq⟩

end CodeBuffer

end MarkupCompiler
