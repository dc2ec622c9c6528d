import MarkupCompiler.Resolve.Tree

/-!
# Tame Rules

A rule may do anything to its attribute and to the tag. It is **tame** if it calls up nothing
new: the attribute that it leaves has the name and the modifier of the one that it was given, or
no modifier, and the body of the tag is as before. The builtin rules are tame. With tame rules
no tag is new, so a walk through a tree is finished within a budget of the nesting of the tree.

## Main results

* `Resolution.Ensures` — what a computation ensures when it succeeds.
* `Rule.Tame`, `Registry.tame_builtin` — rules that call up nothing new.
* `Resolver.ensures_runPhase`, `Resolver.ensures_resolveOwn` — what is left of an attribute and
  of a tag.
* `Walk.Finishes`, `Resolver.finishes_resolveForest` — walks that need no larger budget.
-/

namespace MarkupCompiler

/-! ### Steps of a computation -/

namespace Resolution

variable {ε σ α β : Type} {m : EStateM ε σ α} {f : α → EStateM ε σ β} {s s' : σ}

/-- A step that succeeds is followed by the rest. -/
theorem bind_of_ok {a : α} (h : m s = .ok a s') : (m >>= f) s = f a s' := by
  show EStateM.bind m f s = f a s'
  rw [EStateM.bind, h]

/-- A step that fails ends the whole. -/
theorem bind_of_error {e : ε} (h : m s = .error e s') : (m >>= f) s = .error e s' := by
  show EStateM.bind m f s = .error e s'
  rw [EStateM.bind, h]

/-- If the computation succeeds from this state, its value and the state afterwards have the
property. -/
def Ensures (m : EStateM ε σ α) (s : σ) (Q : α → σ → Prop) : Prop :=
  ∀ a s', m s = .ok a s' → Q a s'

variable {Q : α → σ → Prop} {R : β → σ → Prop}

theorem Ensures.pure {a : α} (h : Q a s) : Ensures (Pure.pure a : EStateM ε σ α) s Q := by
  rintro _ _ ⟨⟩
  exact h

theorem Ensures.bind (h : Ensures m s Q) (hrest : ∀ a s', Q a s' → Ensures (f a) s' R) :
    Ensures (m >>= f) s R := by
  intro b s'' hok
  rcases hm : m s with ⟨a, s'⟩ | ⟨d, s'⟩
  · rw [bind_of_ok hm] at hok
    exact hrest a s' (h a s' hm) b s'' hok
  · rw [bind_of_error hm] at hok
    cases hok

end Resolution

/-! ### Tame rules -/

open Resolution (Ensures)

/-- What may be left of an attribute so that nothing new is called up: it has the attribute's
name, and its modifier or none. -/
structure Attribute.Descends (left attr : Attribute) : Prop where
  name : left.name = attr.name
  modifier : left.modifier = attr.modifier ∨ left.modifier = none

namespace Attribute.Descends

variable {left attr : Attribute}

theorem refl (attr : Attribute) : attr.Descends attr := ⟨rfl, .inl rfl⟩

theorem trans {attr' : Attribute} (h : left.Descends attr') (h' : attr'.Descends attr) :
    left.Descends attr where
  name := h.name.trans h'.name
  modifier := by
    rcases h.modifier with hsame | hnone
    · rw [hsame]
      exact h'.modifier
    · exact .inr hnone

end Attribute.Descends

/-- The attribute that a verdict leaves. -/
def Verdict.left? : Verdict → Option Attribute
  | .kept attr => some attr
  | .replaced attr => some attr
  | .removed => none

/-- What is left of an attribute calls up nothing new, and the tag has the same body, so that no
tag is new either. -/
def Attribute.StaysTame (attr : Attribute) (scope : Scope) (left? : Option Attribute)
    (scope' : Scope) : Prop :=
  (∀ left ∈ left?, left.Descends attr) ∧ scope'.tag.body = scope.tag.body

/-- The rule is **tame**: it calls up nothing new. -/
def Rule.Tame (rule : Rule) : Prop :=
  ∀ attr scope, Ensures (rule attr) scope fun verdict scope' =>
    attr.StaysTame scope verdict.left? scope'

/-- All rules of the transform are tame. -/
def Transform.Tame (t : Transform) : Prop :=
  ∀ phase rule, t.rule? phase = some rule → rule.Tame

/-- All rules of the registry are tame. -/
structure Registry.Tame (r : Registry) : Prop where
  directive : ∀ name t, r.directive? name = some t → t.Tame
  modifier : ∀ name t, r.modifier? name = some t → t.Tame

namespace Attribute.StaysTame

variable {attr : Attribute} {scope : Scope}

/-- An attribute that stays as it is. -/
theorem same (attr : Attribute) {scope scope' : Scope} (h : scope'.tag.body = scope.tag.body) :
    attr.StaysTame scope (some attr) scope' := by
  refine ⟨?_, h⟩
  rintro _ ⟨⟩
  exact .refl attr

/-- An attribute that is gone. -/
theorem gone {scope scope' : Scope} (h : scope'.tag.body = scope.tag.body) :
    attr.StaysTame scope none scope' := by
  refine ⟨?_, h⟩
  rintro _ ⟨⟩

/-- One step after the other. -/
theorem trans {left : Attribute} {left? : Option Attribute} {scope' scope'' : Scope}
    (h : attr.StaysTame scope (some left) scope') (h' : left.StaysTame scope' left? scope'') :
    attr.StaysTame scope left? scope'' :=
  ⟨fun last hlast => (h'.1 last hlast).trans (h.1 left rfl), h'.2.trans h.2⟩

end Attribute.StaysTame

/-! ### The builtin rules are tame -/

namespace Rule

theorem tame_preserve (p : Preservation) : Rule.Tame (preserve p) := by
  intro attr scope verdict scope' hok
  rw [preserve] at hok
  split at hok
  · cases hok
  · split at hok
    · cases hok
    · cases hok
      exact .gone rfl

theorem tame_preserveIf (p : Preservation) : Rule.Tame (preserveIf p) := by
  intro attr scope verdict scope' hok
  rw [preserveIf] at hok
  split at hok
  · cases hok
    exact .gone rfl
  · cases hok

theorem tame_passThrough (helper : String) : Rule.Tame (passThrough helper) := by
  rintro attr scope _ _ ⟨⟩
  refine ⟨?_, rfl⟩
  rintro _ ⟨⟩
  exact ⟨rfl, .inl rfl⟩

theorem tame_writeOut (helper : String) (toText? : Literal → Option String) :
    Rule.Tame (writeOut helper toText?) := by
  intro attr scope verdict scope' hok
  rw [writeOut] at hok
  split at hok
  · cases hok
    exact .same attr rfl
  · cases hok
    exact .same attr rfl
  · split at hok
    · split at hok
      · cases hok
        exact .gone rfl
      · cases hok
        refine ⟨?_, rfl⟩
        rintro _ ⟨⟩
        exact ⟨rfl, .inl rfl⟩
    · exact tame_passThrough helper attr scope verdict scope' hok
  · exact tame_passThrough helper attr scope verdict scope' hok

theorem tame_scopeValue : Rule.Tame scopeValue := by
  rintro attr scope _ _ ⟨⟩
  refine ⟨?_, rfl⟩
  rintro _ ⟨⟩
  exact ⟨rfl, .inr rfl⟩

theorem tame_keepAttribute : Rule.Tame keepAttribute := by
  rintro attr scope _ _ ⟨⟩
  refine ⟨?_, rfl⟩
  rintro _ ⟨⟩
  exact ⟨rfl, .inr rfl⟩

end Rule

namespace Transform

/-- A transform that acts in the first phase only. -/
theorem tame_enter {rule : Rule} (h : rule.Tame) : Transform.Tame { enter := some rule } := by
  intro phase other hother
  cases phase <;> cases hother
  exact h

/-- A transform that acts in the second phase only. -/
theorem tame_exit {rule : Rule} (h : rule.Tame) : Transform.Tame { exit := some rule } := by
  intro phase other hother
  cases phase <;> cases hother
  exact h

end Transform

/-- What a table of tame transforms holds under a name is tame. -/
theorem Transform.tame_of_lookup {entries : List (String × Transform)}
    (h : ∀ entry ∈ entries, entry.2.Tame) (name : String) (t : Transform)
    (ht : entries.lookup name = some t) : t.Tame := by
  obtain ⟨before, after, rfl, -⟩ := List.lookup_eq_some_iff.mp ht
  exact h (name, t) (List.mem_append_right before List.mem_cons_self)

/-- **The builtin rules are tame.** -/
theorem Registry.tame_builtin : Registry.builtin.Tame where
  directive := Transform.tame_of_lookup <| by
    simp only [builtin, List.forall_mem_cons]
    exact ⟨Transform.tame_enter (Rule.tame_preserve _), Transform.tame_enter (Rule.tame_preserve _),
      Transform.tame_enter (Rule.tame_preserveIf _), Transform.tame_enter (Rule.tame_preserveIf _),
      Transform.tame_exit (Rule.tame_writeOut _ _), Transform.tame_exit (Rule.tame_writeOut _ _),
      nofun⟩
  modifier := Transform.tame_of_lookup <| by
    simp only [builtin, List.forall_mem_cons]
    exact ⟨Transform.tame_enter Rule.tame_scopeValue, Transform.tame_enter Rule.tame_keepAttribute,
      nofun⟩

/-! ### What resolution with tame rules ensures -/

/-- A tame transform leaves what a tame rule does. -/
theorem Transform.Tame.ensures {t : Transform} (h : t.Tame) (phase : Phase) (attr : Attribute)
    (scope : Scope) :
    Ensures (t.apply phase attr) scope fun verdict scope' =>
      attr.StaysTame scope verdict.left? scope' := by
  rw [Transform.apply]
  split
  · rename_i rule hrule
    exact h phase rule hrule attr scope
  · exact .pure (.same attr rfl)

namespace Resolver

variable {registry : Registry} {schema : Schema}

section

variable (htame : registry.Tame) (phase : Phase) (attr : Attribute) (scope : Scope)
include htame

theorem ensures_applyModifier :
    Ensures (applyModifier ⟨registry, schema⟩ phase attr) scope fun verdict scope' =>
      attr.StaysTame scope verdict.left? scope' := by
  rw [applyModifier]
  split
  · exact .pure (.same attr rfl)
  · split
    · rename_i t ht
      exact (htame.modifier _ t ht).ensures phase attr scope
    · rintro _ _ ⟨⟩

theorem ensures_applyDirective (name : String) :
    Ensures (applyDirective ⟨registry, schema⟩ phase name attr) scope fun verdict scope' =>
      attr.StaysTame scope verdict.left? scope' := by
  rw [applyDirective]
  split
  · rename_i t ht
    exact (htame.directive _ t ht).ensures phase attr scope
  · exact .pure (.same attr rfl)

theorem ensures_applyTransforms :
    Ensures (applyTransforms ⟨registry, schema⟩ phase attr) scope fun verdict scope' =>
      attr.StaysTame scope verdict.left? scope' := by
  rw [applyTransforms]
  refine (ensures_applyModifier htame phase attr scope).bind fun verdict scope' hstays => ?_
  cases verdict with
  | kept left =>
      intro verdict' scope'' hok
      exact hstays.trans
        (ensures_applyDirective htame phase left scope' attr.name verdict' scope'' hok)
  | replaced left => exact .pure hstays
  | removed => exact .pure hstays

end

/-- The last step of a phase keeps the attribute or takes it off. -/
theorem ensures_finishPhase (phase : Phase) (attr : Attribute) (scope : Scope) :
    Ensures (finishPhase ⟨registry, schema⟩ phase attr) scope fun left? scope' =>
      attr.StaysTame scope left? scope' := by
  intro left? scope' hok
  cases phase with
  | enter =>
      simp only [finishPhase, extractHandler] at hok
      split at hok
      · split at hok
        · cases hok
        · split at hok
          · cases hok
          · split at hok
            · cases hok
            · cases hok
              exact .gone rfl
      · cases hok
        exact .same attr rfl
  | exit =>
      simp only [finishPhase, validate] at hok
      split at hok
      · cases hok
      · split at hok
        · cases hok
        · cases hok
          exact .same attr rfl

section

variable (htame : registry.Tame)
include htame

/-- A phase with tame rules calls up nothing new. -/
theorem ensures_runPhase (phase : Phase) (attr : Attribute) (scope : Scope) :
    Ensures (runPhase ⟨registry, schema⟩ phase attr) scope fun left? scope' =>
      attr.StaysTame scope left? scope' := by
  rw [runPhase]
  refine (ensures_applyTransforms htame phase attr scope).bind fun verdict scope' hstays => ?_
  cases verdict with
  | kept left =>
      intro left? scope'' hok
      exact hstays.trans (ensures_finishPhase phase left scope' left? scope'' hok)
  | replaced left => exact .pure hstays
  | removed => exact .pure hstays

/-- Both phases leave the body of the tag alone. -/
theorem ensures_resolveAttribute (attr : Attribute) (scope : Scope) :
    Ensures (resolveAttribute ⟨registry, schema⟩ attr) scope fun _ scope' =>
      scope'.tag.body = scope.tag.body := by
  rw [resolveAttribute]
  refine (ensures_runPhase htame .enter attr scope).bind fun left? scope' hstays => ?_
  cases left? with
  | none => exact .pure hstays.2
  | some left =>
      intro last? scope'' hok
      exact (ensures_runPhase htame .exit left scope' last? scope'' hok).2.trans hstays.2

/-- All attributes of a tag leave its body alone. -/
theorem ensures_resolveAttributes (attrs : List Attribute) (scope : Scope) :
    Ensures (resolveAttributes ⟨registry, schema⟩ attrs) scope fun _ scope' =>
      scope'.tag.body = scope.tag.body := by
  induction attrs generalizing scope with
  | nil => exact .pure rfl
  | cons attr rest ih =>
      rw [resolveAttributes]
      refine (ensures_resolveAttribute htame attr scope).bind fun left? scope' hbody => ?_
      intro _ scope'' hok
      exact (ih (scope'.putBack left?) _ scope'' hok).trans hbody

/-- **A tag keeps its body** while its own attributes are resolved. -/
theorem ensures_resolveOwn (tag : Tag) (unit : CompileUnit) :
    Ensures (resolveOwn ⟨registry, schema⟩ tag) unit fun tag' _ => tag'.body = tag.body := by
  intro tag' unit' hok
  rw [resolveOwn] at hok
  split at hok
  · rename_i scope hscope
    cases hok
    exact ensures_resolveAttributes htame tag.attributes _ _ _ hscope
  · cases hok

end

/-! ### Walks that are finished -/

end Resolver

namespace Walk

variable {α β : Type} {m : Walk α} {f : α → Walk β} {unit : CompileUnit}
  {Q : α → CompileUnit → Prop}

/-- The walk comes to its end or fails, but does not use up its budget. -/
def Finishes (m : Walk α) (unit : CompileUnit) : Prop := ∀ unit', m unit ≠ .error .unfinished unit'

theorem Finishes.pure (a : α) (unit : CompileUnit) : Finishes (Pure.pure a) unit := by
  rintro _ ⟨⟩

theorem Finishes.bind (h : Finishes m unit) (hm : Ensures m unit Q)
    (hrest : ∀ a unit', Q a unit' → Finishes (f a) unit') : Finishes (m >>= f) unit := by
  intro unit'' herror
  rcases hok : m unit with ⟨a, unit'⟩ | ⟨stop, unit'⟩
  · rw [Resolution.bind_of_ok hok] at herror
    exact hrest a unit' (hm a unit' hok) unit'' herror
  · rw [Resolution.bind_of_error hok] at herror
    cases herror
    exact h _ hok

end Walk

namespace Resolver

variable {registry : Registry} {schema : Schema}

/-- The walk through a forest is finished if that through each of its tags is. -/
theorem finishes_resolveEach {resolve : Tag → Walk Tag} {nodes : List Node}
    (h : ∀ tag, Node.tag tag ∈ nodes → ∀ unit, (resolve tag).Finishes unit) (unit : CompileUnit) :
    (resolveEach resolve nodes).Finishes unit := by
  induction nodes generalizing unit with
  | nil => exact .pure [] unit
  | cons node rest ih =>
      have hrest := ih fun tag hmem => h tag (List.mem_cons_of_mem _ hmem)
      cases node with
      | tag tag =>
          refine (h tag List.mem_cons_self unit).bind (Q := fun _ _ => True)
            (fun _ _ _ => trivial) fun tag' unit' _ => ?_
          exact (hrest unit').bind (Q := fun _ _ => True) (fun _ _ _ => trivial)
            fun rest' unit'' _ => .pure _ unit''
      | _ =>
          exact (hrest unit).bind (Q := fun _ _ => True) (fun _ _ _ => trivial)
            fun rest' unit' _ => .pure _ unit'

variable (htame : registry.Tame)
include htame

/-- **With tame rules**, a tag is resolved within a budget of its nesting. -/
theorem finishes_resolveTag {budget : Nat} {tag : Tag} (h : (Node.tag tag).nesting ≤ budget)
    (unit : CompileUnit) : (resolveTag ⟨registry, schema⟩ budget tag).Finishes unit := by
  induction budget generalizing tag unit with
  | zero =>
      rw [Node.nesting_tag] at h
      omega
  | succ budget ih =>
      have hown : (resolveOwn ⟨registry, schema⟩ tag).Finishes unit := by
        intro unit' herror
        rw [resolveOwn] at herror
        split at herror <;> cases herror
      refine hown.bind (ensures_resolveOwn htame tag unit) fun tag' unit' hbody => ?_
      refine Walk.Finishes.bind (Q := fun _ _ => True)
        (finishes_resolveEach (fun child hchild unit => ih ?_ unit) unit')
        (fun _ _ _ => trivial) fun body unit'' _ => .pure _ unit''
      -- the body has not changed, so it is nested less deeply than the tag
      rw [hbody] at hchild
      have hle := Node.nesting_le_forestNesting hchild
      rw [Node.nesting_tag] at h
      omega

/-- With tame rules, a forest is resolved within a budget of its nesting. -/
theorem finishes_resolveForest {budget : Nat} {nodes : List Node}
    (h : Node.forestNesting nodes ≤ budget) (unit : CompileUnit) :
    (resolveForest ⟨registry, schema⟩ budget nodes).Finishes unit :=
  finishes_resolveEach (fun _ hmem unit =>
    finishes_resolveTag htame (Nat.le_trans (Node.nesting_le_forestNesting hmem) h) unit) unit

end Resolver

end MarkupCompiler
