import MarkupCompiler.Resolve.Tree

/-!
# The Directive of Class Lists

Arrays in the value of a `class` attribute only group what is in them. Without them the value
is a row of **leaves**, from left to right, and each leaf alone decides which class names it
has, or that these are not known when compiling. The directive writes the value out as text if
all leaves have known names, and else passes the value on as it was written, however much of it
was known.

## Main definitions

* `Node.leaves` — the items of data, arrays flattened at every depth.
* `Node.hasClassNames`, `Node.classNames` — the class names of a leaf, and whether they are
  known.

## Main results

* `Literal.classNames?_eq` — the class names of data are those of its leaves.
* `Resolver.applyDirective_class` — what the directive makes of data.
-/

namespace MarkupCompiler

/-! ### Leaves -/

mutual

/-- The items of a node from left to right, arrays of literal data flattened at every depth. A
node that is no such array is its own only item. -/
def Node.leaves : Node → List Node
  | .literal value span => value.leaves span
  | node => [node]

/-- The items of literal data in a node with the given span. -/
def Literal.leaves (span : Option Span) : Literal → List Node
  | .array items => Node.leavesOf items
  | value => [.literal value span]

/-- The items of nodes in a row. -/
def Node.leavesOf : List Node → List Node
  | [] => []
  | node :: rest => node.leaves ++ Node.leavesOf rest

end

namespace Node

/-- Whether the node is literal data that counts as true. -/
def isTruthy (node : Node) : Bool := node.literal?.any Literal.isTruthy

/-- Whether the class names of a leaf are known: it is a string, a truth value or the absence of
a value, or an object whose fields are all literal data. -/
def hasClassNames : Node → Bool
  | .literal .undefined _ => true
  | .literal .null _ => true
  | .literal (.bool _) _ => true
  | .literal (.string _) _ => true
  | .literal (.object fields) _ => fields.all (·.2.isLiteral)
  | _ => false

/-- The class names of a leaf: a string that is not empty, or the keys of an object whose values
count as true. -/
def classNames : Node → List String
  | .literal (.string name) _ => [name].filter (· ≠ "")
  | .literal (.object fields) _ => (fields.filter (·.2.isTruthy)).map Prod.fst
  | _ => []

/-- The class names of leaves in a row, if those of all are known. -/
def gatherClassNames (leaves : List Node) : Option (List String) :=
  if leaves.all hasClassNames then some (leaves.flatMap classNames) else none

theorem gatherClassNames_append (xs ys : List Node) :
    gatherClassNames (xs ++ ys) =
      match gatherClassNames xs, gatherClassNames ys with
      | some names, some more => some (names ++ more)
      | _, _ => none := by
  rw [gatherClassNames, gatherClassNames, gatherClassNames, List.all_append, List.flatMap_append]
  cases xs.all hasClassNames <;> cases ys.all hasClassNames <;> rfl

end Node

namespace Literal

/-- The keys that count are those of the fields that count, if all fields are literal data. -/
theorem truthyKeys?_eq (fields : List (String × Node)) :
    truthyKeys? fields =
      if fields.all (·.2.isLiteral) then some ((fields.filter (·.2.isTruthy)).map Prod.fst)
      else none := by
  induction fields with
  | nil => rfl
  | cons field rest ih =>
      obtain ⟨key, value⟩ := field
      rw [truthyKeys?.eq_def]
      simp only [ih]
      cases value with
      | literal value span =>
          have hliteral? : (Node.literal value span).literal? = some value := rfl
          have hliteral : (Node.literal value span).isLiteral = true := rfl
          have htruthy : (Node.literal value span).isTruthy = value.isTruthy := rfl
          simp only [hliteral?, List.all_cons, hliteral, Bool.true_and, List.filter_cons, htruthy]
          cases rest.all (·.2.isLiteral) with
          | false => rfl
          | true =>
              simp only [if_true]
              cases value.isTruthy <;> rfl
      | _ => rfl

mutual

/-- **The class names of data** are those of its leaves. -/
theorem classNames?_eq (span : Option Span) :
    ∀ value : Literal, value.classNames? = Node.gatherClassNames (value.leaves span)
  | .array items => by rw [classNames?, leaves, itemClassNames?_eq items]
  | .object fields => by
      have hleaves : leaves span (.object fields) = [.literal (.object fields) span] := rfl
      rw [classNames?, truthyKeys?_eq, hleaves, Node.gatherClassNames, List.all_cons, List.all_nil,
        Bool.and_true, List.flatMap_singleton]
      rfl
  | .string text => by
      by_cases hempty : text = "" <;>
        simp [classNames?, leaves, Node.gatherClassNames, Node.hasClassNames, Node.classNames,
          hempty]
  | .undefined => rfl
  | .null => rfl
  | .bool _ => rfl
  | .number _ => rfl
  | .regExp _ _ => rfl

/-- The class names of an array's items are those of their leaves. -/
theorem itemClassNames?_eq :
    ∀ items : List Node, itemClassNames? items = Node.gatherClassNames (Node.leavesOf items)
  | [] => rfl
  | .literal value span :: rest => by
      have happend := Node.gatherClassNames_append (value.leaves span) (Node.leavesOf rest)
      rw [← classNames?_eq span value, ← itemClassNames?_eq rest] at happend
      rw [itemClassNames?.eq_def, Node.leavesOf, Node.leaves]
      exact happend.symm
  | .expr _ _ :: _ => rfl
  | .text _ :: _ => rfl
  | .tag _ :: _ => rfl

end

end Literal

/-! ### The directive -/

/-- The text of a class list whose leaves have known names. -/
def Node.classListText (leaves : List Node) : String :=
  " ".intercalate (leaves.flatMap Node.classNames)

theorem Literal.classText?_eq (value : Literal) (span : Option Span) :
    value.classText? =
      if (value.leaves span).all Node.hasClassNames then
        some (Node.classListText (value.leaves span))
      else none := by
  rw [classText?, classNames?_eq span, Node.gatherClassNames]
  split <;> rfl

/-- What writing out makes of data other than a string. -/
theorem writeOut_literal {attr : Attribute} {value : Literal} {span : Option Span}
    (hargs : attr.arguments = none) (hvalue : attr.value = .literal value span)
    (hstring : ∀ text, value ≠ .string text) (helper : String)
    (toText? : Literal → Option String) (scope : Scope) :
    writeOut helper toText? attr scope =
      match toText? value with
      | some text =>
        if text.isEmpty then .ok .removed scope
        else .ok (.kept { attr with value := .literal (.string text) span }) scope
      | none => passThrough helper attr scope := by
  rw [writeOut, hargs, hvalue]
  cases value with
  | string text => exact absurd rfl (hstring text)
  | _ => rfl

/-- **The directive of class lists.** Data other than a string, on an attribute without
arguments, is written out if the class names of all its leaves are known: no helper is asked
for, and the attribute is gone if its text is empty, and else has the text as its value, with
the span of the data. If the names of some leaf are not known, the value becomes a call of the
helper with the whole data as its argument. -/
theorem Resolver.applyDirective_class (schema : Schema) (scope : Scope) (attr : Attribute)
    {value : Literal} {span : Option Span} (hname : attr.name = "class")
    (hargs : attr.arguments = none) (hvalue : attr.value = .literal value span)
    (hstring : ∀ text, value ≠ .string text) :
    ((∀ leaf ∈ value.leaves span, leaf.hasClassNames = true) →
      (⟨Registry.builtin, schema⟩ : Resolver).applyDirective .exit attr.name attr scope =
        if Node.classListText (value.leaves span) = "" then .ok .removed scope
        else
          .ok (.kept { attr with
            value := .literal (.string (Node.classListText (value.leaves span))) span }) scope) ∧
    ((∃ leaf ∈ value.leaves span, leaf.hasClassNames = false) →
      (⟨Registry.builtin, schema⟩ : Resolver).applyDirective .exit attr.name attr scope =
        .ok (.kept { attr with
            value := .expr
              (.call (.expr (.identifier (scope.unit.helper "class_value").1) none)
                [.literal value span]) span })
          { scope with unit := (scope.unit.helper "class_value").2 }) := by
  have hrule : (⟨Registry.builtin, schema⟩ : Resolver).applyDirective .exit attr.name attr scope =
      writeOut "class_value" Literal.classText? attr scope := by
    rw [hname]
    rfl
  rw [hrule, writeOut_literal hargs hvalue hstring, Literal.classText?_eq value span]
  constructor
  · intro hknown
    rw [if_pos (List.all_eq_true.mpr hknown)]
    simp only [String.isEmpty_iff]
  · rintro ⟨leaf, hleaf, hunknown⟩
    have hall : ¬(value.leaves span).all Node.hasClassNames = true := by
      intro hall
      rw [List.all_eq_true.mp hall leaf hleaf] at hunknown
      cases hunknown
    rw [if_neg hall]
    simp only [passThrough, hvalue, Node.span]

/-- Class names in a string, and in an object that is nested in an array, among values that have
none. -/
def Literal.cardClasses : Literal :=
  .array
    [.literal (.string "card") none,
      .literal (.array
        [.literal (.object
            [("open", .literal (.array []) none), ("hidden", .literal (.number ⟨0⟩) none)]) none,
          .literal .null none]) none,
      .literal (.string "") none, .literal (.string "wide") none]

/-- A `class` attribute with a value of literal data. -/
def Attribute.classOf (value : Literal) : Attribute :=
  { Attribute.flag "class" with value := .literal value none }

/-- The nested list is written out. With an item after it that is only known later, all of it goes
through the helper. -/
theorem Resolver.applyDirective_class_card :
    (⟨Registry.builtin, ⟨fun _ => none⟩⟩ : Resolver).applyDirective .exit "class"
        (.classOf .cardClasses) ⟨.named "div", { config := {} }⟩ =
      .ok (.kept (.classOf (.string "card open wide"))) ⟨.named "div", { config := {} }⟩ ∧
    ∃ unit : CompileUnit, unit.helpers = [("class_value", "rt_class_value")] ∧
      (⟨Registry.builtin, ⟨fun _ => none⟩⟩ : Resolver).applyDirective .exit "class"
          (.classOf (.array [.literal .cardClasses none, .expr (.identifier "x") none]))
          ⟨.named "div", { config := {} }⟩ =
        .ok (.kept { Attribute.flag "class" with
            value := .expr
              (.call (.expr (.identifier "rt_class_value") none)
                [.literal (.array [.literal .cardClasses none, .expr (.identifier "x") none])
                  none]) none })
          ⟨.named "div", unit⟩ := by
  constructor
  · obtain ⟨hknown, -⟩ := applyDirective_class ⟨fun _ => none⟩ ⟨.named "div", { config := {} }⟩
      (.classOf .cardClasses) rfl rfl rfl (by simp [Literal.cardClasses])
    refine (hknown (by decide)).trans ?_
    rw [if_neg (by decide)]
    rfl
  · obtain ⟨-, hunknown⟩ := applyDirective_class ⟨fun _ => none⟩ ⟨.named "div", { config := {} }⟩
      (.classOf (.array [.literal .cardClasses none, .expr (.identifier "x") none]))
      rfl rfl rfl (by simp)
    refine ⟨_, ?_, hunknown ⟨.expr (.identifier "x") none, ?_, rfl⟩⟩
    · rfl
    · simp [Literal.leaves, Node.leavesOf, Node.leaves]

end MarkupCompiler
