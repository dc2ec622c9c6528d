import MarkupCompiler.Proofs.Compilation
import MarkupCompiler.Proofs.Positions

/-!
# Registries That Are Extended

A host may register directives and modifiers of its own, with any rules, and may put them in
the place of builtin ones. A rule is only run for an attribute that **calls it up**, a directive
by the attribute's name and a modifier by its modifier. So registrations that no attribute of a
forest calls up should not matter for it.

That takes an argument, because an attribute is looked up in two phases, and what the second
phase sees is what the rules of the first have left. The builtin rules are tame: they call up
nothing new. So two registries that agree on the attributes of the forest agree all the way.

## Main results

* `Registry.extend`, `Attribute.CallsUp` — further registrations, and who runs them.
* `Resolver.resolveAttribute_congr`, `Resolver.resolveTag_congr` — registries that agree on
  the attributes resolve them, and whole tags, in the same way.
* `compileWith_extend` — registrations that are not called up do not matter.
-/

namespace MarkupCompiler

/-! ### Registrations -/

/-- A directive or modifier to be registered under a name. -/
inductive Registration where
  | directive (name : String) (t : Transform)
  | modifier (name : String) (t : Transform)

namespace Registry

/-- The registry with one more registration, which replaces one of the same kind and name. -/
def register (r : Registry) : Registration → Registry
  | .directive name t => r.addDirective name t
  | .modifier name t => r.addModifier name t

/-- The registry with further registrations, one after the other. -/
def extend (r : Registry) (more : List Registration) : Registry := more.foldl register r

end Registry

/-- The attribute **calls up** what is registered: a directive of its name, or its modifier. -/
def Attribute.CallsUp (attr : Attribute) : Registration → Prop
  | .directive name _ => attr.name = name
  | .modifier name _ => attr.modifier = some name

namespace Registry

/-- Two registries **agree** on an attribute if it calls up the same rules in both. -/
structure AgreeOn (r r' : Registry) (attr : Attribute) : Prop where
  directive : r'.directive? attr.name = r.directive? attr.name
  modifier : ∀ name, attr.modifier = some name → r'.modifier? name = r.modifier? name

/-- A registration that an attribute does not call up changes nothing for it. -/
theorem agreeOn_register {r : Registry} {attr : Attribute} {registration : Registration}
    (h : ¬attr.CallsUp registration) : r.AgreeOn (r.register registration) attr := by
  cases registration with
  | directive name t =>
      have hne : attr.name ≠ name := h
      refine ⟨?_, fun _ _ => rfl⟩
      rw [register, addDirective, directive?, Entries.lookup_insert, if_neg hne, directive?]
  | modifier name t =>
      refine ⟨rfl, fun other hother => ?_⟩
      have hne : other ≠ name := fun heq => h (by rw [Attribute.CallsUp, hother, heq])
      rw [register, addModifier, modifier?, Entries.lookup_insert, if_neg hne, modifier?]

theorem AgreeOn.trans {r₁ r₂ r₃ : Registry} {attr : Attribute} (h : r₁.AgreeOn r₂ attr)
    (h' : r₂.AgreeOn r₃ attr) : r₁.AgreeOn r₃ attr where
  directive := h'.directive.trans h.directive
  modifier name hname := (h'.modifier name hname).trans (h.modifier name hname)

/-- Registrations that an attribute does not call up change nothing for it. -/
theorem agreeOn_extend {r : Registry} {attr : Attribute} {more : List Registration}
    (h : ∀ registration ∈ more, ¬attr.CallsUp registration) : r.AgreeOn (r.extend more) attr := by
  induction more generalizing r with
  | nil => exact ⟨rfl, fun _ _ => rfl⟩
  | cons first rest ih =>
      obtain ⟨hfirst, hrest⟩ := List.forall_mem_cons.mp h
      exact (agreeOn_register hfirst).trans (ih hrest)

end Registry

/-- Registries that agree on an attribute agree on what is left of it. -/
theorem Attribute.Descends.agreeOn {left attr : Attribute} {r r' : Registry}
    (h : left.Descends attr) (hagree : r.AgreeOn r' attr) :
    r.AgreeOn r' left where
  directive := by
    rw [h.name]
    exact hagree.directive
  modifier name hname := by
    rcases h.modifier with hsame | hnone
    · exact hagree.modifier name (hsame ▸ hname)
    · rw [hnone] at hname
      cases hname

/-! ### Registries that agree -/

namespace Resolution

variable {ε σ α β : Type} {m m' : EStateM ε σ α} {f f' : α → EStateM ε σ β} {s : σ}
  {Q : α → σ → Prop}

/-- Two computations with the same first step are the same if they go on in the same way after
all that the first step can give. -/
theorem bind_congr (h : m' s = m s) (hm : Ensures m s Q)
    (hrest : ∀ a s', Q a s' → f' a s' = f a s') : (m' >>= f') s = (m >>= f) s := by
  rcases hok : m s with ⟨a, s'⟩ | ⟨d, s'⟩
  · rw [bind_of_ok (h.trans hok), bind_of_ok hok, hrest a s' (hm a s' hok)]
  · rw [bind_of_error (h.trans hok), bind_of_error hok]

end Resolution

namespace Resolver

variable {registry registry' : Registry} {schema : Schema}

/-- Registries that agree on an attribute have the same verdict on it. -/
theorem applyTransforms_congr {attr : Attribute} (h : registry.AgreeOn registry' attr)
    (phase : Phase) :
    applyTransforms ⟨registry', schema⟩ phase attr =
      applyTransforms ⟨registry, schema⟩ phase attr := by
  have hmodifier : applyModifier ⟨registry', schema⟩ phase attr =
      applyModifier ⟨registry, schema⟩ phase attr := by
    rcases hname : attr.modifier with _ | name
    · simp only [applyModifier, hname]
    · simp only [applyModifier, hname, h.modifier name hname]
  have hdirective : ∀ left, applyDirective ⟨registry', schema⟩ phase attr.name left =
      applyDirective ⟨registry, schema⟩ phase attr.name left := by
    intro left
    rw [applyDirective, applyDirective, h.directive]
  simp only [applyTransforms, hmodifier, hdirective]

theorem runPhase_congr {attr : Attribute} (h : registry.AgreeOn registry' attr)
    (phase : Phase) :
    runPhase ⟨registry', schema⟩ phase attr = runPhase ⟨registry, schema⟩ phase attr := by
  simp only [runPhase, applyTransforms_congr h phase]
  rfl

section

variable (htame : registry.Tame)
include htame

/-- **An attribute on which registries agree** is resolved in the same way, because they agree
also on what the first phase leaves. -/
theorem resolveAttribute_congr {attr : Attribute} (h : registry.AgreeOn registry' attr)
    (scope : Scope) :
    resolveAttribute ⟨registry', schema⟩ attr scope =
      resolveAttribute ⟨registry, schema⟩ attr scope := by
  rw [resolveAttribute, resolveAttribute]
  refine Resolution.bind_congr (congrFun (runPhase_congr h .enter) scope)
    (ensures_runPhase htame .enter attr scope) fun left? scope' hstays => ?_
  cases left? with
  | none => rfl
  | some left => exact congrFun (runPhase_congr ((hstays.1 left rfl).agreeOn h) .exit) scope'

theorem resolveAttributes_congr {attrs : List Attribute}
    (h : ∀ attr ∈ attrs, registry.AgreeOn registry' attr) (scope : Scope) :
    resolveAttributes ⟨registry', schema⟩ attrs scope =
      resolveAttributes ⟨registry, schema⟩ attrs scope := by
  induction attrs generalizing scope with
  | nil => rfl
  | cons attr rest ih =>
      obtain ⟨hattr, hrest⟩ := List.forall_mem_cons.mp h
      rw [resolveAttributes, resolveAttributes]
      refine Resolution.bind_congr (Q := fun _ _ => True) (resolveAttribute_congr htame hattr scope)
        (fun _ _ _ => trivial) fun left? scope' _ => ?_
      exact ih hrest (scope'.putBack left?)

theorem resolveOwn_congr {tag : Tag}
    (h : ∀ attr ∈ tag.attributes, registry.AgreeOn registry' attr) :
    resolveOwn ⟨registry', schema⟩ tag = resolveOwn ⟨registry, schema⟩ tag := by
  funext unit
  rw [resolveOwn, resolveOwn, resolveAttributes_congr htame h]

omit htame in
/-- The tags of a forest are resolved in the same way if each of them is. -/
theorem resolveEach_congr {resolve resolve' : Tag → Walk Tag}
    {nodes : List Node} (h : ∀ tag, Node.tag tag ∈ nodes → resolve' tag = resolve tag) :
    resolveEach resolve' nodes = resolveEach resolve nodes := by
  induction nodes with
  | nil => rfl
  | cons node rest ih =>
      have hrest := ih fun tag hmem => h tag (List.mem_cons_of_mem _ hmem)
      cases node with
      | tag tag =>
          rw [resolveEach, resolveEach, h tag List.mem_cons_self, hrest]
      | _ => simp only [resolveEach, hrest]

/-- **A tag is resolved in the same way** by registries that agree on the attributes of all tags
that are reached from it. -/
theorem resolveTag_congr {budget : Nat} {tag : Tag}
    (h : ∀ inner, (Node.tag inner).Reached [.tag tag] →
      ∀ attr ∈ inner.attributes, registry.AgreeOn registry' attr) :
    resolveTag ⟨registry', schema⟩ budget tag = resolveTag ⟨registry, schema⟩ budget tag := by
  induction budget generalizing tag with
  | zero => rfl
  | succ budget ih =>
      have hown := h tag (.root List.mem_cons_self)
      funext unit
      rw [resolveTag, resolveTag]
      refine Resolution.bind_congr (congrFun (resolveOwn_congr htame hown) unit)
        (ensures_resolveOwn htame tag unit) fun tag' unit' hbody => ?_
      -- the body has not changed, so its tags are reached from the tag
      have heach : resolveEach (resolveTag ⟨registry', schema⟩ budget) tag'.body =
          resolveEach (resolveTag ⟨registry, schema⟩ budget) tag'.body := by
        rw [hbody]
        refine resolveEach_congr fun child hchild => ih fun inner hinner => h inner ?_
        refine .body List.mem_cons_self (hinner.mono fun root hroot => ?_)
        rw [List.mem_singleton.mp hroot]
        exact hchild
      rw [heach]

/-- A forest is resolved in the same way by registries that agree on the attributes of all tags
that are reached. -/
theorem resolveForest_congr {budget : Nat} {nodes : List Node}
    (h : ∀ tag, (Node.tag tag).Reached nodes →
      ∀ attr ∈ tag.attributes, registry.AgreeOn registry' attr) :
    resolveForest ⟨registry', schema⟩ budget nodes =
      resolveForest ⟨registry, schema⟩ budget nodes := by
  rw [resolveForest, resolveForest]
  refine resolveEach_congr fun tag htag => resolveTag_congr htame fun inner hinner => h inner ?_
  refine hinner.mono fun root hroot => ?_
  rw [List.mem_singleton.mp hroot]
  exact htag

end

end Resolver

/-! ### Extending the builtin registry -/

/-- **Registrations that are not called up do not matter.** Compilation with the builtin registry
and any further registrations, with any rules, gives what it gives without them, output or
diagnostic, as long as no attribute of a tag that is reached through bodies has the name of one
of the directives or one of the modifiers. It is finished within any budget that is not less than
the nesting of the forest. -/
theorem compileWith_extend {nodes : List Node} {more : List Registration}
    (h : ∀ registration ∈ more, ∀ tag, (Node.tag tag).Reached nodes →
      ∀ attr ∈ tag.attributes, ¬attr.CallsUp registration) {budget : Nat}
    (hbudget : Node.forestNesting nodes ≤ budget) (config : Config) (schema : Schema) :
    compileWith budget (Registry.builtin.extend more) config schema nodes =
      (compile config schema nodes).mapError Stop.failed := by
  have hforest : Resolver.resolveForest ⟨Registry.builtin.extend more, schema⟩ budget nodes =
      Resolver.resolveForest ⟨Registry.builtin, schema⟩ budget nodes :=
    Resolver.resolveForest_congr Registry.tame_builtin fun tag htag attr hattr =>
      Registry.agreeOn_extend fun registration hmem => h registration hmem tag htag attr hattr
  rw [← compileWith_builtin hbudget, compileWith, compileWith, hforest]

/-- The rule that rejects every attribute. -/
def Rule.reject : Rule := fun attr scope => .error (attr.misused "is rejected") scope

/-- A heading whose title stays as first rendered, with a handler and a class list. -/
def Tag.pinnedHeading : Tag :=
  { Tag.named "h1" with
    attributes :=
      [{ Attribute.flag "title" with
          value := .literal (.string "x") none
          modifier := some "no-update" },
        { Attribute.flag "class" with value := .expr (.identifier "look") none },
        { Attribute.flag "on-click" with arguments := some [.expr (.identifier "go") none] }] }

/-- The heading has no style and no scoped value, so it does not matter that these would be
rejected. -/
theorem compileWith_extend_pinnedHeading :
    compileWith 1
        (Registry.builtin.extend
          [.directive "style" ⟨some .reject, some .reject⟩,
            .modifier "scoped" ⟨some .reject, none⟩])
        {} (TagTable.mk [.element "h1"]).schema [.tag .pinnedHeading] =
      .ok ⟨"out.e(\"h1\", \x7b title: \"x\", \"class\": rt_class_value(look) \x7d, 0);",
        [("class_value", "rt_class_value")], []⟩ := by
  rw [compileWith_extend _ (Nat.le_refl 1)]
  · rw [compile_eq]
    rfl
  · intro registration hmem tag htag attr hattr
    obtain rfl : tag = .pinnedHeading := by
      cases htag with
      | root hroot => exact Node.tag.inj (List.mem_singleton.mp hroot)
      | body hroot hbody =>
          obtain rfl := Node.tag.inj (List.mem_singleton.mp hroot)
          cases hbody with
          | root hroot => cases hroot
          | body hroot _ => cases hroot
    simp only [Tag.pinnedHeading, List.mem_cons, List.not_mem_nil, or_false] at hattr hmem
    rcases hmem with rfl | rfl <;> rcases hattr with rfl | rfl | rfl <;>
      simp [Attribute.CallsUp, Attribute.flag]

end MarkupCompiler
