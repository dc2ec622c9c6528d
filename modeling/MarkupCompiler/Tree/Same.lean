import MarkupCompiler.Tree.Basic

/-!
# Equality of Trees

Two trees are the **same** when they agree in every part, spans included, where numbers are
compared as numbers (a part that is no number is the same as nothing), and the fields of
objects and the handlers of tags are compared as tables, whatever their order.

## Main definitions

* `Node.same`, `Literal.same`, `Tag.same`, … — whether two trees are the same.
-/

namespace MarkupCompiler

mutual

/-- Whether two nodes are the same. -/
def Node.same : Node → Node → Bool
  | .literal value span, .literal value' span' => value.same value' && span == span'
  | .expr value span, .expr value' span' => value.same value' && span == span'
  | .text run, .text run' => run.same run'
  | .tag t, .tag t' => t.same t'
  | _, _ => false
termination_by structural x => x

/-- Whether two node lists are the same, place by place. -/
def Node.sameAll : List Node → List Node → Bool
  | [], [] => true
  | node :: rest, node' :: rest' => node.same node' && Node.sameAll rest rest'
  | _, _ => false
termination_by structural x => x

/-- Whether two literals are the same. -/
def Literal.same : Literal → Literal → Bool
  | .undefined, .undefined => true
  | .null, .null => true
  | .string text, .string text' => text == text'
  | .bool value, .bool value' => value == value'
  | .number value, .number value' => Binary64.same value value'
  | .regExp pattern flags, .regExp pattern' flags' => pattern == pattern' && flags == flags'
  | .array items, .array items' => Node.sameAll items items'
  | .object fields, .object fields' =>
    fields.length == fields'.length && Literal.fieldsWithin fields fields'
  | _, _ => false
termination_by structural x => x

/-- Whether every field has the same value under its key in the other table. -/
def Literal.fieldsWithin : List (String × Node) → List (String × Node) → Bool
  | [], _ => true
  | (key, value) :: rest, fields' =>
    (match fields'.lookup key with
      | some value' => value.same value'
      | none => false) && Literal.fieldsWithin rest fields'
termination_by structural x => x

/-- Whether two expressions are the same. -/
def Expr.same : Expr → Expr → Bool
  | .identifier name, .identifier name' => name == name'
  | .call callee arguments, .call callee' arguments' =>
    callee.same callee' && Node.sameAll arguments arguments'
  | .member object property, .member object' property' =>
    object.same object' && property == property'
  | .concat parts, .concat parts' => Node.sameAll parts parts'
  | _, _ => false
termination_by structural x => x

/-- Whether two text runs are the same. -/
def TextRun.same : TextRun → TextRun → Bool
  | ⟨arguments, isStatic, escape, isChild, factory, converter, span⟩,
    ⟨arguments', isStatic', escape', isChild', factory', converter', span'⟩ =>
    Node.sameAll arguments arguments' && isStatic == isStatic' && escape == escape' &&
      isChild == isChild' && factory == factory' && converter == converter' && span == span'
termination_by structural x => x

/-- Whether two attribute lists are the same, place by place. -/
def Attribute.sameAll : List Attribute → List Attribute → Bool
  | [], [] => true
  | ⟨name, value, arguments, modifier, span⟩ :: rest,
    ⟨name', value', arguments', modifier', span'⟩ :: rest' =>
    name == name' && value.same value' &&
      (match arguments, arguments' with
        | none, none => true
        | some arguments, some arguments' => Node.sameAll arguments arguments'
        | _, _ => false) &&
      modifier == modifier' && span == span' && Attribute.sameAll rest rest'
  | _, _ => false
termination_by structural x => x

/-- Whether every handler has the same one for its event in the other table. -/
def EventHandler.allWithin : List EventHandler → List EventHandler → Bool
  | [], _ => true
  | ⟨event, once, arguments⟩ :: rest, handlers' =>
    (match handlers'.find? (·.event = event) with
      | some handler' => once == handler'.once && Node.sameAll arguments handler'.arguments
      | none => false) && EventHandler.allWithin rest handlers'
termination_by structural x => x

/-- Whether two tags are the same. -/
def Tag.same : Tag → Tag → Bool
  | ⟨name, attributes, body, handlers, preservation, condition, preserved, isChild, span⟩,
    ⟨name', attributes', body', handlers', preservation', condition', preserved', isChild',
      span'⟩ =>
    name == name' && Attribute.sameAll attributes attributes' && Node.sameAll body body' &&
      (match handlers, handlers' with
        | none, none => true
        | some handlers, some handlers' =>
          handlers.length == handlers'.length && EventHandler.allWithin handlers handlers'
        | _, _ => false) &&
      preservation == preservation' &&
      (match condition, condition' with
        | none, none => true
        | some condition, some condition' => condition.same condition'
        | _, _ => false) &&
      preserved == preserved' && isChild == isChild' && span == span'
termination_by structural x => x

end

end MarkupCompiler
