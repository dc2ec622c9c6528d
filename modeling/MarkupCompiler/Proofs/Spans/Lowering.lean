import MarkupCompiler.Proofs.Lowering.Form
import MarkupCompiler.Proofs.Spans
import MarkupCompiler.Resolve.ClassList
import MarkupCompiler.Resolve.StyleText

/-!
# Passes over Trees without Spans

Normalising a body and lowering a tree copy spans from one node to another: a run that takes in
another keeps its place, and so do literals that are joined and values that become text. No pass
looks at a span, though. Whether spans are erased before a pass or after it, the result is the
same, and the texts of literal data do not change at all.

## Main results

* `Tag.eraseSpans_eq`, `TextRun.eraseSpans_eq`, `Node.children_eraseSpans` — erasing, position
  by position.
* `Literal.toText?_eraseSpans`, `Literal.classText?_eraseSpans`, `Literal.styleText?_eraseSpans`
  — the texts of literal data.
* `Node.normalizeBody_eraseSpans` — bodies.
* `Node.lower_eraseSpans`, `Node.anyText_eraseSpans` — lowered trees.
-/

namespace MarkupCompiler

/-! ### Erasing, position by position -/

/-- An attribute without spans. -/
def Attribute.eraseSpans (attr : Attribute) : Attribute :=
  { attr with
    value := attr.value.eraseSpans
    arguments := attr.arguments.map (·.map Node.eraseSpans)
    span := none }

/-- A handler without spans. -/
def EventHandler.eraseSpans (handler : EventHandler) : EventHandler :=
  { handler with arguments := handler.arguments.map Node.eraseSpans }

theorem Attribute.eraseSpansAll_eq_map (attributes : List Attribute) :
    Attribute.eraseSpansAll attributes = attributes.map Attribute.eraseSpans := by
  induction attributes with
  | nil => rfl
  | cons attr rest ih =>
      obtain ⟨name, value, arguments, modifier, span⟩ := attr
      cases arguments with
      | none => rw [Attribute.eraseSpansAll, ih, List.map_cons]; rfl
      | some arguments =>
          rw [Attribute.eraseSpansAll, ih, List.map_cons, Node.eraseSpansAll_eq_map]; rfl

theorem EventHandler.eraseSpansAll_eq_map (handlers : List EventHandler) :
    EventHandler.eraseSpansAll handlers = handlers.map EventHandler.eraseSpans := by
  induction handlers with
  | nil => rfl
  | cons handler rest ih =>
      obtain ⟨event, once, arguments⟩ := handler
      rw [EventHandler.eraseSpansAll, ih, List.map_cons, Node.eraseSpansAll_eq_map]
      rfl

theorem Literal.eraseSpansFields_eq_map (fields : List (String × Node)) :
    Literal.eraseSpansFields fields = fields.map fun field => (field.1, field.2.eraseSpans) := by
  induction fields with
  | nil => rfl
  | cons field rest ih => rw [Literal.eraseSpansFields, ih, List.map_cons]

theorem TextRun.eraseSpans_eq (run : TextRun) :
    run.eraseSpans =
      { run with arguments := run.arguments.map Node.eraseSpans, span := none } := by
  obtain ⟨arguments, isStatic, escape, isChild, factory, converter, span⟩ := run
  rw [TextRun.eraseSpans, Node.eraseSpansAll_eq_map]

theorem Tag.eraseSpans_eq (tag : Tag) :
    tag.eraseSpans =
      { tag with
        attributes := tag.attributes.map Attribute.eraseSpans
        body := tag.body.map Node.eraseSpans
        handlers := tag.handlers.map (·.map EventHandler.eraseSpans)
        condition := tag.condition.map Node.eraseSpans
        span := none } := by
  obtain ⟨name, attributes, body, handlers, preservation, condition, preserved, isChild, span⟩ :=
    tag
  cases handlers <;> cases condition <;>
    simp [Tag.eraseSpans, Attribute.eraseSpansAll_eq_map, Node.eraseSpansAll_eq_map,
      EventHandler.eraseSpansAll_eq_map]

theorem Attribute.children_eraseSpans (attr : Attribute) :
    attr.eraseSpans.children = attr.children.map Node.eraseSpans := by
  obtain ⟨name, value, arguments, modifier, span⟩ := attr
  cases arguments <;> rfl

theorem Tag.children_eraseSpans (tag : Tag) :
    tag.eraseSpans.children = tag.children.map Node.eraseSpans := by
  rw [Tag.eraseSpans_eq]
  obtain ⟨name, attributes, body, handlers, preservation, condition, preserved, isChild, span⟩ :=
    tag
  have hattributes : (attributes.map Attribute.eraseSpans).flatMap Attribute.children =
      (attributes.flatMap Attribute.children).map Node.eraseSpans := by
    rw [List.flatMap_map, List.map_flatMap]
    exact congrArg (attributes.flatMap ·) (funext Attribute.children_eraseSpans)
  simp only [Tag.children, List.map_append, hattributes]
  cases handlers <;> cases condition <;>
    simp [List.flatMap_map, List.map_flatMap, EventHandler.eraseSpans]

/-- The nodes below an erased node are the nodes below it, erased. -/
theorem Node.children_eraseSpans (node : Node) :
    node.eraseSpans.children = node.children.map Node.eraseSpans := by
  cases node with
  | literal value span =>
      rw [Node.eraseSpans]
      cases value with
      | array items => rw [Literal.eraseSpans, Node.eraseSpansAll_eq_map]; rfl
      | object fields =>
          rw [Literal.eraseSpans, Literal.eraseSpansFields_eq_map]
          simp [Node.children, Literal.children]
      | _ => rfl
  | expr value span =>
      rw [Node.eraseSpans]
      cases value with
      | identifier name => rfl
      | call callee arguments => rw [Expr.eraseSpans, Node.eraseSpansAll_eq_map]; rfl
      | member object property => rfl
      | concat parts => rw [Expr.eraseSpans, Node.eraseSpansAll_eq_map]; rfl
  | text run => rw [Node.eraseSpans, TextRun.eraseSpans_eq]; rfl
  | tag t =>
      rw [Node.eraseSpans]
      exact t.children_eraseSpans

theorem Node.span_eraseSpans (node : Node) : node.eraseSpans.span = none := by
  cases node with
  | literal value span => rfl
  | expr value span => rfl
  | text run => rw [Node.eraseSpans, TextRun.eraseSpans_eq]; rfl
  | tag t => rw [Node.eraseSpans, Tag.eraseSpans_eq]; rfl

theorem Node.literal?_eraseSpans (node : Node) :
    node.eraseSpans.literal? = node.literal?.map Literal.eraseSpans := by
  cases node <;> rfl

theorem Node.isTrue_eraseSpans (node : Node) : node.eraseSpans.isTrue = node.isTrue := by
  cases node with
  | literal value span =>
      cases value with
      | bool value => cases value <;> rfl
      | _ => rfl
  | _ => rfl

/-! ### The texts of literal data -/

namespace Literal

theorem isAbsent_eraseSpans (value : Literal) : value.eraseSpans.isAbsent = value.isAbsent := by
  cases value <;> rfl

theorem isTruthy_eraseSpans (value : Literal) : value.eraseSpans.isTruthy = value.isTruthy := by
  cases value <;> rfl

mutual

/-- The text of a literal does not show spans. -/
theorem toText?_eraseSpans : ∀ value : Literal, value.eraseSpans.toText? = value.toText?
  | .array items => by rw [eraseSpans, toText?, toText?, itemTexts?_eraseSpans items]
  | .object _ => rfl
  | .undefined => rfl
  | .null => rfl
  | .string _ => rfl
  | .bool _ => rfl
  | .number _ => rfl
  | .regExp _ _ => rfl

theorem itemTexts?_eraseSpans :
    ∀ items : List Node, itemTexts? (Node.eraseSpansAll items) = itemTexts? items
  | [] => rfl
  | .literal value _ :: rest => by
    rw [Node.eraseSpansAll, Node.eraseSpans, itemTexts?, itemTexts?, isAbsent_eraseSpans,
      toText?_eraseSpans value, itemTexts?_eraseSpans rest]
  | .expr _ _ :: _ => rfl
  | .text _ :: _ => rfl
  | .tag _ :: _ => rfl

end

theorem truthyKeys?_eraseSpans (fields : List (String × Node)) :
    truthyKeys? (eraseSpansFields fields) = truthyKeys? fields := by
  induction fields with
  | nil => rfl
  | cons field rest ih =>
      obtain ⟨key, value⟩ := field
      rw [eraseSpansFields, truthyKeys?.eq_def, truthyKeys?.eq_def ((key, value) :: rest)]
      simp only [Node.literal?_eraseSpans, ih]
      cases value with
      | literal value span =>
          simp only [Node.literal?, Option.map_some]
          cases truthyKeys? rest <;> simp only [isTruthy_eraseSpans]
      | _ => rfl

mutual

/-- The class names in a literal do not show spans. -/
theorem classNames?_eraseSpans : ∀ value : Literal, value.eraseSpans.classNames? = value.classNames?
  | .array items => by rw [eraseSpans, classNames?, classNames?, itemClassNames?_eraseSpans items]
  | .object fields => by rw [eraseSpans, classNames?, classNames?, truthyKeys?_eraseSpans]
  | .undefined => rfl
  | .null => rfl
  | .string _ => rfl
  | .bool _ => rfl
  | .number _ => rfl
  | .regExp _ _ => rfl

theorem itemClassNames?_eraseSpans :
    ∀ items : List Node, itemClassNames? (Node.eraseSpansAll items) = itemClassNames? items
  | [] => rfl
  | .literal value _ :: rest => by
    rw [Node.eraseSpansAll, Node.eraseSpans, itemClassNames?, itemClassNames?,
      classNames?_eraseSpans value, itemClassNames?_eraseSpans rest]
  | .expr _ _ :: _ => rfl
  | .text _ :: _ => rfl
  | .tag _ :: _ => rfl

end

/-- A class list does not show spans. -/
theorem classText?_eraseSpans (value : Literal) :
    value.eraseSpans.classText? = value.classText? := by
  rw [classText?, classText?, classNames?_eraseSpans]

theorem declaration?_eraseSpans (key : String) (value : Literal) :
    declaration? key value.eraseSpans = declaration? key value := by
  cases value <;> rfl

theorem declarations?_eraseSpans (fields : List (String × Node)) :
    declarations? (eraseSpansFields fields) = declarations? fields := by
  induction fields with
  | nil => rfl
  | cons field rest ih =>
      obtain ⟨key, value⟩ := field
      rw [eraseSpansFields, declarations?.eq_def, declarations?.eq_def ((key, value) :: rest)]
      simp only [Node.literal?_eraseSpans, ih]
      cases value with
      | literal value span =>
          simp only [Node.literal?, Option.map_some, Option.bind_some, declaration?_eraseSpans]
      | _ => rfl

mutual

/-- A style text does not show spans. -/
theorem styleText?_eraseSpans : ∀ value : Literal, value.eraseSpans.styleText? = value.styleText?
  | .array items => by rw [eraseSpans, styleText?, styleText?, itemStyleTexts?_eraseSpans items]
  | .object fields => by rw [eraseSpans, styleText?, styleText?, declarations?_eraseSpans]
  | .undefined => rfl
  | .null => rfl
  | .string _ => rfl
  | .bool _ => rfl
  | .number _ => rfl
  | .regExp _ _ => rfl

theorem itemStyleTexts?_eraseSpans :
    ∀ items : List Node, itemStyleTexts? (Node.eraseSpansAll items) = itemStyleTexts? items
  | [] => rfl
  | .literal value _ :: rest => by
    rw [Node.eraseSpansAll, Node.eraseSpans, itemStyleTexts?, itemStyleTexts?,
      styleText?_eraseSpans value, itemStyleTexts?_eraseSpans rest]
  | .expr _ _ :: _ => rfl
  | .text _ :: _ => rfl
  | .tag _ :: _ => rfl

end

end Literal

/-! ### Bodies -/

namespace TextRun

theorem joinLiterals_eraseSpans (left right : Literal) (leftSpan rightSpan : Option Span) :
    joinLiterals left.eraseSpans none right.eraseSpans none =
      (joinLiterals left leftSpan right rightSpan).eraseSpans := by
  rw [joinLiterals, joinLiterals, Literal.toText?_eraseSpans, Literal.toText?_eraseSpans]
  cases left.toText? <;> cases right.toText? <;> rfl

theorem respectsJoining_eraseSpans : Node.RespectsJoining Node.eraseSpans where
  isLiteral node := by cases node <;> rfl
  joinLiterals left leftSpan right rightSpan := by
    rw [← joinLiterals_eraseSpans]
    exact addArgument_literal [] _ none _ none

/-- Two runs as one. -/
theorem append?_eraseSpans (run next : TextRun) :
    run.eraseSpans.append? next.eraseSpans = (run.append? next).map TextRun.eraseSpans := by
  rw [TextRun.eraseSpans_eq run, TextRun.eraseSpans_eq next, append?, append?]
  split
  · simp only [Option.map_some, TextRun.eraseSpans_eq,
      respectsJoining_eraseSpans.foldl_addArgument]
  · rfl

end TextRun

namespace Node

/-- Merging, of a list and of a list after a text run. -/
theorem merge_eraseSpans (nodes : List Node) :
    mergeAdjacent (nodes.map eraseSpans) = (mergeAdjacent nodes).map eraseSpans ∧
      ∀ run : TextRun, mergeAfter run.eraseSpans (nodes.map eraseSpans) =
        (mergeAfter run nodes).map eraseSpans := by
  induction nodes with
  | nil => exact ⟨rfl, fun run => rfl⟩
  | cons node rest ih =>
      obtain ⟨ihmerge, ihafter⟩ := ih
      cases node with
      | text next =>
          refine ⟨ihafter next, fun run => ?_⟩
          simp only [List.map_cons, eraseSpans, mergeAfter, TextRun.append?_eraseSpans]
          rcases run.append? next with _ | joined
          · simp only [Option.map_none, List.map_cons, eraseSpans, ihafter]
          · simp only [Option.map_some, ihafter]
      | _ =>
          simp only [List.map_cons, eraseSpans, mergeAdjacent, mergeAfter, ihmerge, implies_true,
            and_self]

theorem asBodyPart_eraseSpans (node : Node) :
    node.eraseSpans.asBodyPart = node.asBodyPart.eraseSpans := by
  cases node with
  | text run => rfl
  | tag t => rfl
  | _ => simp [asBodyPart, eraseSpans, TextRun.eraseSpans, eraseSpansAll, TextRun.ofNode,
      TextRun.of, isLiteral]

/-- **Bodies** are normalised without regard to spans. -/
theorem normalizeBody_eraseSpans (nodes : List Node) :
    normalizeBody (nodes.map eraseSpans) = (normalizeBody nodes).map eraseSpans := by
  have hparts : (nodes.map eraseSpans).map asBodyPart = (nodes.map asBodyPart).map eraseSpans := by
    rw [List.map_map, List.map_map]
    exact List.map_congr_left fun node _ => asBodyPart_eraseSpans node
  rw [normalizeBody, hparts, (merge_eraseSpans _).1, normalizeBody]

end Node

/-! ### Lowered trees -/

theorem TextRun.hasLiveArgument_eraseSpans (run : TextRun) :
    run.eraseSpans.hasLiveArgument = run.hasLiveArgument := by
  rw [TextRun.eraseSpans_eq, hasLiveArgument, hasLiveArgument, List.any_map]
  exact congrArg run.arguments.any (funext fun argument => by
    rw [Function.comp_apply, Node.isLiteral_eraseSpans])

theorem TextRun.convertBy_eraseSpans (converter : String) (run : TextRun) :
    run.eraseSpans.convertBy converter = (run.convertBy converter).eraseSpans := by
  rw [convertBy, convertBy, hasLiveArgument_eraseSpans]
  split
  · rw [TextRun.eraseSpans_eq, TextRun.eraseSpans_eq]
  · rfl

theorem Node.asChild_eraseSpans (converter : String) (node : Node) :
    node.eraseSpans.asChild converter = (node.asChild converter).eraseSpans := by
  cases node with
  | text run =>
      rw [Node.eraseSpans, Node.asChild, Node.asChild, Node.eraseSpans,
        ← TextRun.convertBy_eraseSpans, TextRun.eraseSpans_eq, TextRun.eraseSpans_eq]
  | tag t =>
      rw [Node.eraseSpans, Node.asChild, Node.asChild, Node.eraseSpans, Tag.eraseSpans_eq,
        Tag.eraseSpans_eq]
  | _ => rfl

/-- Two maps over a list can change places if they do on its members. -/
private theorem map_map_comm {α : Type} {f g : α → α} {l : List α}
    (h : ∀ x ∈ l, g (f x) = f (g x)) : (l.map f).map g = (l.map g).map f := by
  rw [List.map_map, List.map_map]
  exact List.map_congr_left h

theorem Literal.lower_eraseSpans {converter : String} {value : Literal}
    (h : ∀ child ∈ value.children,
      child.eraseSpans.lower converter = (child.lower converter).eraseSpans) :
    value.eraseSpans.lower converter = (value.lower converter).eraseSpans := by
  cases value with
  | array items =>
      rw [Literal.eraseSpans, Literal.lower, Literal.lower, Literal.eraseSpans,
        Node.eraseSpansAll_eq_map, Node.eraseSpansAll_eq_map, Node.lowerAll_eq_map,
        Node.lowerAll_eq_map, map_map_comm (l := items) h]
  | object fields =>
      have hfields : ∀ field ∈ fields,
          (field.1, field.2.eraseSpans.lower converter) =
            (field.1, (field.2.lower converter).eraseSpans) := by
        intro field hfield
        rw [h field.2 (List.mem_map_of_mem hfield)]
      rw [Literal.eraseSpans, Literal.lower, Literal.lower, Literal.eraseSpans,
        Literal.eraseSpansFields_eq_map, Literal.eraseSpansFields_eq_map,
        Literal.lowerFields_eq_map, Literal.lowerFields_eq_map, map_map_comm hfields]
  | _ => rfl

theorem Expr.lower_eraseSpans {converter : String} {value : Expr}
    (h : ∀ child ∈ value.children,
      child.eraseSpans.lower converter = (child.lower converter).eraseSpans) :
    value.eraseSpans.lower converter = (value.lower converter).eraseSpans := by
  cases value with
  | identifier name => rfl
  | call callee arguments =>
      obtain ⟨hcallee, harguments⟩ := List.forall_mem_cons.mp h
      rw [Expr.eraseSpans, Expr.lower, Expr.lower, Expr.eraseSpans, hcallee,
        Node.eraseSpansAll_eq_map, Node.eraseSpansAll_eq_map, Node.lowerAll_eq_map,
        Node.lowerAll_eq_map, map_map_comm harguments]
  | member object property =>
      rw [Expr.eraseSpans, Expr.lower, Expr.lower, Expr.eraseSpans, h object List.mem_cons_self]
  | concat parts =>
      rw [Expr.eraseSpans, Expr.lower, Expr.lower, Expr.eraseSpans, Node.eraseSpansAll_eq_map,
        Node.eraseSpansAll_eq_map, Node.lowerAll_eq_map, Node.lowerAll_eq_map,
        map_map_comm (l := parts) h]

theorem Attribute.lower_eraseSpans {converter : String} {attr : Attribute}
    (h : ∀ child ∈ attr.children,
      child.eraseSpans.lower converter = (child.lower converter).eraseSpans) :
    attr.eraseSpans.lower converter = (attr.lower converter).eraseSpans := by
  obtain ⟨name, value, arguments, modifier, span⟩ := attr
  obtain ⟨hvalue, harguments⟩ := List.forall_mem_cons.mp h
  cases arguments with
  | none => simp only [Attribute.eraseSpans, Attribute.lower, Option.map_none, hvalue]
  | some arguments =>
      simp only [Attribute.eraseSpans, Attribute.lower, Option.map_some, hvalue,
        map_map_comm (l := arguments) harguments]

theorem EventHandler.lower_eraseSpans {converter : String} {handler : EventHandler}
    (h : ∀ child ∈ handler.arguments,
      child.eraseSpans.lower converter = (child.lower converter).eraseSpans) :
    handler.eraseSpans.lower converter = (handler.lower converter).eraseSpans := by
  simp only [EventHandler.eraseSpans, EventHandler.lower, map_map_comm h]

theorem Tag.lower_eraseSpans {converter : String} {tag : Tag}
    (h : ∀ child ∈ tag.children,
      child.eraseSpans.lower converter = (child.lower converter).eraseSpans) :
    tag.eraseSpans.lower converter = (tag.lower converter).eraseSpans := by
  obtain ⟨name, attributes, body, handlers, preservation, condition, preserved, isChild, span⟩ :=
    tag
  simp only [Tag.children, List.mem_append] at h
  have hattributes : (attributes.map Attribute.eraseSpans).map (Attribute.lower converter) =
      (attributes.map (Attribute.lower converter)).map Attribute.eraseSpans :=
    map_map_comm fun attr hattr => Attribute.lower_eraseSpans fun child hchild =>
      h child (.inl (.inl (.inl (List.mem_flatMap.mpr ⟨attr, hattr, hchild⟩))))
  have hbody : (body.map Node.eraseSpans).map (Node.lower converter) =
      (body.map (Node.lower converter)).map Node.eraseSpans :=
    map_map_comm fun child hchild => h child (.inl (.inl (.inr hchild)))
  have hparts : ((Node.normalizeBody (body.map (Node.lower converter))).map Node.eraseSpans).map
        (Node.asChild converter) =
      ((Node.normalizeBody (body.map (Node.lower converter))).map
        (Node.asChild converter)).map Node.eraseSpans :=
    map_map_comm fun part _ => Node.asChild_eraseSpans converter part
  have hhandlers : (handlers.map (·.map EventHandler.eraseSpans)).map
        (·.map (EventHandler.lower converter)) =
      (handlers.map (·.map (EventHandler.lower converter))).map
        (·.map EventHandler.eraseSpans) := by
    cases handlers with
    | none => rfl
    | some handlers =>
        refine congrArg some (map_map_comm fun handler hhandler => ?_)
        exact EventHandler.lower_eraseSpans fun child hchild =>
          h child (.inl (.inr (List.mem_flatMap.mpr ⟨handler, hhandler, hchild⟩)))
  have hcondition : (condition.map Node.eraseSpans).map (Node.lower converter) =
      (condition.map (Node.lower converter)).map Node.eraseSpans := by
    cases condition with
    | none => rfl
    | some condition => exact congrArg some (h condition (.inr (by simp)))
  simp only [Tag.eraseSpans_eq, Tag.lower_eq, hattributes, hbody, Node.normalizeBody_eraseSpans,
    hparts, hhandlers, hcondition]

/-- **Lowering** takes no regard of spans. -/
theorem Node.lower_eraseSpans (converter : String) (node : Node) :
    node.eraseSpans.lower converter = (node.lower converter).eraseSpans := by
  induction node using Node.induction with
  | step node ih =>
    cases node with
    | literal value span =>
        rw [Node.eraseSpans, Node.lower, Literal.lower_eraseSpans ih, Node.lower, Node.eraseSpans]
    | expr value span =>
        rw [Node.eraseSpans, Node.lower, Expr.lower_eraseSpans ih, Node.lower, Node.eraseSpans]
    | text run =>
        have harguments : (run.arguments.map Node.eraseSpans).map (Node.lower converter) =
            (run.arguments.map (Node.lower converter)).map Node.eraseSpans :=
          map_map_comm ih
        rw [Node.eraseSpans, Node.lower, Node.lower, Node.eraseSpans, TextRun.lower_eq,
          TextRun.lower_eq, ← TextRun.convertBy_eraseSpans, TextRun.eraseSpans_eq,
          TextRun.eraseSpans_eq]
        simp only [harguments]
    | tag t =>
        rw [Node.eraseSpans, Node.lower, Tag.lower_eraseSpans ih, Node.lower, Node.eraseSpans]

/-- What is looked for in text runs is found without regard to spans, if it does not depend on
them. -/
theorem Node.anyText_eraseSpans {p : TextRun → Bool}
    (hp : ∀ run, p (TextRun.eraseSpans run) = p run) (node : Node) :
    node.eraseSpans.anyText p = node.anyText p := by
  induction node using Node.induction with
  | step node ih =>
    have hbelow : node.eraseSpans.children.any (Node.anyText p) =
        node.children.any (Node.anyText p) := by
      rw [Node.children_eraseSpans, List.any_map, Bool.eq_iff_iff, List.any_eq_true,
        List.any_eq_true]
      refine exists_congr fun child => and_congr_right fun hchild => ?_
      rw [Function.comp_apply, ih child hchild]
    cases node with
    | literal value span =>
        rw [Node.eraseSpans, Node.anyText, Node.anyText, Literal.anyText_eq_any,
          Literal.anyText_eq_any]
        exact hbelow
    | expr value span =>
        rw [Node.eraseSpans, Node.anyText, Node.anyText, Expr.anyText_eq_any, Expr.anyText_eq_any]
        exact hbelow
    | text run =>
        have harguments : run.eraseSpans.arguments.any (Node.anyText p) =
            run.arguments.any (Node.anyText p) := hbelow
        rw [Node.eraseSpans, Node.anyText, Node.anyText, TextRun.anyText_eq_any,
          TextRun.anyText_eq_any, hp, harguments]
    | tag t =>
        rw [Node.eraseSpans, Node.anyText, Node.anyText, Tag.anyText_eq_any, Tag.anyText_eq_any]
        exact hbelow

end MarkupCompiler
