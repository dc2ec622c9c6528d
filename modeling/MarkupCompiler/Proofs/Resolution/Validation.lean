import MarkupCompiler.Proofs.Resolution.Attribute

/-!
# Validation of Attributes

The rules of a registry may be any functions. They may rename the tag or the attribute, add or
take off modifiers and arguments, and give any verdict in either phase. Still an attribute that is
left of another has passed the validation at the end of the second phase, against the tag as it
is then, unless a rule that was called in this phase has put it in the place of the other. And no
rule is called in a phase that begins with a modifier that is not registered.

To say which rules were called, each phase has a **ledger**. It has the call of the modifier's rule
and then, if the attribute was kept, that of the directive's rule. The last call in it decides.

## Main results

* `RuleCall`, `Resolver.ledger` — the calls of rules in a phase.
* `Resolver.applyTransforms_eq_of_known` — the last call of a phase decides on the attribute.
* `Schema.Admits`, `Resolver.validate_eq_ok_iff` — what validation lets pass.
* `Resolver.resolveAttribute_validated` — what is left of an attribute is validated or put in its
  place in the second phase, and an unknown modifier ends a phase before it begins.
-/

namespace MarkupCompiler

/-- A **call** of a rule: the attribute that it is given, and where. -/
structure RuleCall where
  rule : Rule
  attr : Attribute
  scope : Scope

/-- What comes of a call. -/
def RuleCall.result (call : RuleCall) : EStateM.Result Diagnostic Scope Verdict :=
  call.rule call.attr call.scope

/-- The call of a transform's rule for a phase, if it has one. -/
def Transform.call? (t : Transform) (phase : Phase) (attr : Attribute) (scope : Scope) :
    Option RuleCall :=
  (t.rule? phase).map fun rule => ⟨rule, attr, scope⟩

/-- Applying a transform is calling its rule. -/
theorem Transform.apply_eq (t : Transform) (phase : Phase) (attr : Attribute) (scope : Scope) :
    t.apply phase attr scope =
      match t.call? phase attr scope with
      | some call => call.result
      | none => .ok (.kept attr) scope := by
  rw [Transform.apply, Transform.call?]
  cases t.rule? phase <;> rfl

namespace Resolver

variable (r : Resolver) (phase : Phase) (attr : Attribute) (scope : Scope)

/-! ### The ledger of a phase -/

/-- The call of the rule of an attribute's modifier. -/
def modifierCall? : Option RuleCall :=
  (attr.modifier.bind r.registry.modifier?).bind fun t => t.call? phase attr scope

/-- The call of the rule of the directive of a name. -/
def directiveCall? (name : String) : Option RuleCall :=
  (r.registry.directive? name).bind fun t => t.call? phase attr scope

/-- The **ledger** of a phase: the calls of rules, in their order. -/
def ledger : List RuleCall :=
  (r.modifierCall? phase attr scope).toList ++
    match r.applyModifier phase attr scope with
    | .ok (.kept left) scope' => (r.directiveCall? phase left scope' attr.name).toList
    | _ => []

/-- The modifier, if there is one, is registered. -/
def KnowsModifier : Prop := ∀ name ∈ attr.modifier, (r.registry.modifier? name).isSome

variable {r phase attr scope}

/-- A phase that begins with a modifier that is not registered calls no rule. -/
theorem ledger_of_unknown {name : String} (hname : attr.modifier = some name)
    (hunknown : r.registry.modifier? name = none) : r.ledger phase attr scope = [] := by
  have hcall : r.modifierCall? phase attr scope = none := by
    rw [modifierCall?, hname, Option.bind_some, hunknown, Option.bind_none]
  rw [ledger, hcall, applyModifier_of_unknown hname hunknown]
  rfl

/-- A modifier is registered, or it is one that is not. -/
theorem knowsModifier_or (r : Resolver) (attr : Attribute) :
    r.KnowsModifier attr ∨
      ∃ name, attr.modifier = some name ∧ r.registry.modifier? name = none := by
  rcases hname : attr.modifier with _ | name
  · left
    simp [KnowsModifier, hname]
  · rcases hmodifier : r.registry.modifier? name with _ | t
    · exact .inr ⟨name, rfl, hmodifier⟩
    · left
      simp [KnowsModifier, hname, hmodifier]

/-- The verdict of a modifier is that of its rule. -/
theorem applyModifier_eq_of_known (h : r.KnowsModifier attr) :
    r.applyModifier phase attr scope =
      match r.modifierCall? phase attr scope with
      | some call => call.result
      | none => .ok (.kept attr) scope := by
  rcases hname : attr.modifier with _ | name
  · simp only [applyModifier, modifierCall?, hname]
    rfl
  · obtain ⟨t, ht⟩ := Option.isSome_iff_exists.mp (h name hname)
    simp only [applyModifier, modifierCall?, hname, Option.bind_some, ht]
    exact t.apply_eq phase attr scope

/-- The verdict of a directive is that of its rule. -/
theorem applyDirective_eq {name : String} :
    r.applyDirective phase name attr scope =
      match r.directiveCall? phase attr scope name with
      | some call => call.result
      | none => .ok (.kept attr) scope := by
  rw [applyDirective, directiveCall?]
  rcases r.registry.directive? name with _ | t
  · rfl
  · exact t.apply_eq phase attr scope

/-- **The last call of a phase decides** on the attribute, which is kept if there is no call. -/
theorem applyTransforms_eq_of_known (h : r.KnowsModifier attr) :
    r.applyTransforms phase attr scope =
      match (r.ledger phase attr scope).getLast? with
      | some call => call.result
      | none => .ok (.kept attr) scope := by
  have hmodifier : r.applyModifier phase attr scope = _ := applyModifier_eq_of_known h
  rw [applyTransforms, ledger]
  rcases hcall : r.modifierCall? phase attr scope with _ | call
  · rw [hcall] at hmodifier
    rw [Resolution.bind_of_ok hmodifier, hmodifier]
    simp only [applyDirective_eq]
    rcases r.directiveCall? phase attr scope attr.name with _ | call <;> rfl
  · rw [hcall] at hmodifier
    rcases hresult : call.result with ⟨verdict, scope'⟩ | ⟨d, scope'⟩
    · have hok := hmodifier.trans hresult
      rw [Resolution.bind_of_ok hok, hok]
      cases verdict with
      | kept left =>
          simp only [applyDirective_eq]
          rcases r.directiveCall? phase left scope' attr.name with _ | call'
          · exact hresult.symm
          · rfl
      | replaced left => exact hresult.symm
      | removed => exact hresult.symm
    · have herror := hmodifier.trans hresult
      rw [Resolution.bind_of_error herror, herror]
      exact hresult.symm

/-- A call that puts an attribute in the place of another is the last of its phase. -/
theorem getLast?_ledger_of_replaced (h : r.KnowsModifier attr) {call : RuleCall}
    (hmem : call ∈ r.ledger phase attr scope) {left : Attribute} {scope' : Scope}
    (hresult : call.result = .ok (.replaced left) scope') :
    (r.ledger phase attr scope).getLast? = some call := by
  have hmodifier : r.applyModifier phase attr scope = _ := applyModifier_eq_of_known h
  rw [ledger] at hmem ⊢
  rcases List.mem_append.mp hmem with hmem | hmem
  · rw [Option.mem_toList.mp hmem] at hmodifier ⊢
    rw [hmodifier.trans hresult]
    rfl
  · split at hmem
    · rw [Option.mem_toList.mp hmem]
      exact List.getLast?_concat
    · cases hmem

/-- An attribute is put in the place of another by a call in the ledger. -/
theorem applyTransforms_eq_replaced_iff {left : Attribute} {scope' : Scope} :
    r.applyTransforms phase attr scope = .ok (.replaced left) scope' ↔
      ∃ call ∈ r.ledger phase attr scope, call.result = .ok (.replaced left) scope' := by
  rcases r.knowsModifier_or attr with hknown | ⟨name, hname, hunknown⟩
  · rw [applyTransforms_eq_of_known hknown]
    constructor
    · intro h
      rcases hlast : (r.ledger phase attr scope).getLast? with _ | call
      · rw [hlast] at h
        cases h
      · rw [hlast] at h
        exact ⟨call, List.mem_of_getLast? hlast, h⟩
    · rintro ⟨call, hmem, hresult⟩
      rw [getLast?_ledger_of_replaced hknown hmem hresult]
      exact hresult
  · rw [applyTransforms_of_unknown hname hunknown, ledger_of_unknown hname hunknown]
    simp

end Resolver

/-! ### What validation lets pass -/

/-- The schema **admits** an attribute on a tag: it is not called with arguments, and a definition
of the tag is that of a native element or declares the attribute, by its name or with all others. -/
structure Schema.Admits (schema : Schema) (tag : Tag) (attr : Attribute) : Prop where
  arguments_eq_nil : ∀ arguments, attr.arguments = some arguments → arguments = []
  declared : ∀ d, schema.define? tag = some d →
    d.native = true ∨ attr.name ∈ d.attributes ∨ TagDefinition.anyAttribute ∈ d.attributes

/-- What is checked when an attribute is validated. -/
theorem Schema.admits_iff {schema : Schema} {tag : Tag} {attr : Attribute} :
    schema.Admits tag attr ↔
      ((schema.define? tag).any fun d => !d.native && !d.declares attr.name) = false ∧
        attr.hasArguments = false := by
  have harguments : attr.hasArguments = false ↔
      ∀ arguments, attr.arguments = some arguments → arguments = [] := by
    rw [Attribute.hasArguments]
    cases attr.arguments <;> simp
  have hdeclared (d : TagDefinition) : (!d.native && !d.declares attr.name) = false ↔
      d.native = true ∨ attr.name ∈ d.attributes ∨ TagDefinition.anyAttribute ∈ d.attributes := by
    simp only [TagDefinition.declares, Bool.and_eq_false_iff, Bool.not_eq_false', Bool.or_eq_true,
      List.contains_iff_mem]
  rw [harguments]
  constructor
  · rintro ⟨hcalled, hnamed⟩
    refine ⟨?_, hcalled⟩
    rcases hdefine : schema.define? tag with _ | d
    · rfl
    · exact (hdeclared d).mpr (hnamed d hdefine)
  · rintro ⟨hnamed, hcalled⟩
    refine ⟨hcalled, fun d hdefine => (hdeclared d).mp ?_⟩
    rw [hdefine] at hnamed
    exact hnamed

namespace Resolver

variable {r : Resolver} {phase : Phase} {attr : Attribute} {scope : Scope}

/-- **Validation lets pass what the schema admits**, as it is. -/
theorem validate_eq_ok_iff {left : Attribute} {scope' : Scope} :
    r.validate attr scope = .ok (some left) scope' ↔
      left = attr ∧ scope' = scope ∧ r.schema.Admits scope.tag attr := by
  rw [Schema.admits_iff, validate]
  split
  · rename_i hundeclared
    simp [hundeclared]
  rename_i hdeclared
  split
  · rename_i hcalled
    simp [hcalled]
  rename_i hcalled
  constructor
  · rintro ⟨⟩
    exact ⟨rfl, rfl, by simpa using hdeclared, by simpa using hcalled⟩
  · rintro ⟨rfl, rfl, -⟩
    rfl

/-- What the second phase leaves of an attribute: what a call put in its place, or what is kept and
admitted. -/
theorem runPhase_exit_eq_some_iff {left : Attribute} {scope' : Scope} :
    r.runPhase .exit attr scope = .ok (some left) scope' ↔
      (∃ call ∈ r.ledger .exit attr scope, call.result = .ok (.replaced left) scope') ∨
        r.applyTransforms .exit attr scope = .ok (.kept left) scope' ∧
          r.schema.Admits scope'.tag left := by
  rw [← applyTransforms_eq_replaced_iff]
  rcases htransforms : r.applyTransforms .exit attr scope with ⟨verdict, mid⟩ | ⟨d, mid⟩
  · rw [runPhase, Resolution.bind_of_ok htransforms]
    cases verdict with
    | kept kept =>
        simp only [finishPhase, validate_eq_ok_iff]
        constructor
        · rintro ⟨rfl, rfl, hadmits⟩
          exact .inr ⟨rfl, hadmits⟩
        · rintro (h | ⟨h, hadmits⟩)
          · cases h
          · cases h
            exact ⟨rfl, rfl, hadmits⟩
    | replaced replaced =>
        constructor
        · rintro ⟨⟩
          exact .inl rfl
        · rintro (h | ⟨h, -⟩)
          · cases h
            rfl
          · cases h
    | removed =>
        constructor
        · rintro ⟨⟩
        · rintro (h | ⟨h, -⟩) <;> cases h
  · rw [runPhase, Resolution.bind_of_error htransforms]
    simp

/-! ### Both phases -/

/-- How the phases of an attribute's resolution **start**: the first with the attribute where it
stands, and the second with what the first has left of it, if anything. -/
inductive Starts (r : Resolver) (attr : Attribute) (scope : Scope) :
    Phase → Attribute → Scope → Prop
  | enter : Starts r attr scope .enter attr scope
  | exit {left : Attribute} {mid : Scope} (h : r.runPhase .enter attr scope = .ok (some left) mid) :
      Starts r attr scope .exit left mid

/-- A phase that starts with a modifier that is not registered is the end. -/
theorem Starts.resolveAttribute_of_unknown {start : Attribute} {mid : Scope}
    (h : r.Starts attr scope phase start mid) {name : String} (hname : start.modifier = some name)
    (hunknown : r.registry.modifier? name = none) :
    r.resolveAttribute attr scope = .error ⟨.unknownModifier name, start.span⟩ mid := by
  have hphase : r.runPhase phase start mid = _ := runPhase_of_unknown hname hunknown
  cases h with
  | enter => rw [resolveAttribute, Resolution.bind_of_error hphase]
  | exit hleft =>
      rw [resolveAttribute, Resolution.bind_of_ok hleft]
      exact hphase

/-- What is left of an attribute is left of it by the second phase. -/
theorem resolveAttribute_eq_some_iff {left : Attribute} {scope' : Scope} :
    r.resolveAttribute attr scope = .ok (some left) scope' ↔
      ∃ start mid, r.Starts attr scope .exit start mid ∧
        r.runPhase .exit start mid = .ok (some left) scope' := by
  constructor
  · intro h
    rcases henter : r.runPhase .enter attr scope with ⟨_ | start, mid⟩ | ⟨d, mid⟩
    · rw [resolveAttribute, Resolution.bind_of_ok henter] at h
      cases h
    · rw [resolveAttribute, Resolution.bind_of_ok henter] at h
      exact ⟨start, mid, .exit henter, h⟩
    · rw [resolveAttribute, Resolution.bind_of_error henter] at h
      cases h
  · rintro ⟨start, mid, hstarts, h⟩
    cases hstarts with
    | exit henter =>
        rw [resolveAttribute, Resolution.bind_of_ok henter]
        exact h

/-- **No rule bypasses validation**, whatever the rules of the registry do, but by putting an
attribute in the place of another in the second phase. What is left of an attribute was put there
by a call of a rule in this phase, or its rules have kept it and the schema admits it on the tag as
it is at the end. And if a phase starts with a modifier that is not registered, no rule is called
in it, and the modifier is reported with nothing changed since the start of the phase. -/
theorem resolveAttribute_validated (r : Resolver) (attr : Attribute) (scope : Scope) :
    (∀ left scope', r.resolveAttribute attr scope = .ok (some left) scope' ↔
      ∃ start mid, r.Starts attr scope .exit start mid ∧
        ((∃ call ∈ r.ledger .exit start mid, call.result = .ok (.replaced left) scope') ∨
          r.applyTransforms .exit start mid = .ok (.kept left) scope' ∧
            r.schema.Admits scope'.tag left)) ∧
    ∀ phase start mid name, r.Starts attr scope phase start mid →
      start.modifier = some name → r.registry.modifier? name = none →
        r.resolveAttribute attr scope = .error ⟨.unknownModifier name, start.span⟩ mid ∧
          r.ledger phase start mid = [] := by
  constructor
  · intro left scope'
    simp only [resolveAttribute_eq_some_iff, runPhase_exit_eq_some_iff]
  · intro phase start mid name hstarts hname hunknown
    exact ⟨hstarts.resolveAttribute_of_unknown hname hunknown, ledger_of_unknown hname hunknown⟩

/-- A host's registry: a directive renames its attribute in the second phase, another insists on
its attribute there, and the third gives its attribute a modifier that is not registered. -/
def hosted : Resolver where
  registry.directives :=
    [("caption", ⟨none, some fun attr scope => .ok (.kept { attr with name := "title" }) scope⟩),
     ("raw", ⟨none, some fun attr scope => .ok (.replaced attr) scope⟩),
     ("later",
      ⟨some fun attr scope => .ok (.kept { attr with modifier := some "late" }) scope, none⟩)]
  schema := ⟨fun _ => some (.custom "my-card" ["title"])⟩

/-- A tag that declares only a title gets a renamed attribute, which is admitted, and another that
is not, because the host insists on it. The third comes with an unknown modifier to its second
phase. -/
theorem resolveAttribute_validated_hosted :
    let scope : Scope := ⟨.named "my-card", { config := {} }⟩
    hosted.resolveAttribute (.flag "caption") scope = .ok (some (.flag "title")) scope ∧
      hosted.resolveAttribute (.flag "raw") scope = .ok (some (.flag "raw")) scope ∧
      hosted.resolveAttribute (.flag "later") scope =
        .error ⟨.unknownModifier "late", none⟩ scope := by
  intro scope
  refine ⟨?_, ?_, ?_⟩
  · refine ((resolveAttribute_validated hosted (.flag "caption") scope).1 _ _).mpr
      ⟨.flag "caption", scope, .exit rfl, .inr ⟨rfl, ?_, ?_⟩⟩
    · rintro _ ⟨⟩
    · intro d hd
      obtain rfl : TagDefinition.custom "my-card" ["title"] = d := Option.some.inj hd
      exact .inr (.inl List.mem_cons_self)
  · exact ((resolveAttribute_validated hosted (.flag "raw") scope).1 _ _).mpr
      ⟨.flag "raw", scope, .exit rfl, .inl ⟨_, List.mem_singleton_self _, rfl⟩⟩
  · exact ((resolveAttribute_validated hosted (.flag "later") scope).2 .exit
      { Attribute.flag "later" with modifier := some "late" } scope "late" (.exit rfl) rfl rfl).1

end Resolver

end MarkupCompiler
