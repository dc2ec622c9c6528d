import MarkupCompiler.Proofs.Composition
import MarkupCompiler.Proofs.Lowering.Provenance
import MarkupCompiler.Proofs.Resolution.Accounting

/-!
# The Reach of Resolution

Resolution goes down a forest through bodies, and nowhere else. Lowering and emission go down
to every position. So after a compilation every tag that is reached through bodies is
**plain**, that is its attributes have neither modifiers nor arguments left; and every other
tag is emitted as it was written, whatever modifiers and arguments it has: with the attributes
of a tag that occurs aside in the source, lowered and not resolved.

## Main results

* `Tag.IsPlain`, `Tag.isPlain_resolved` — a tag without anything left to resolve, and a tag that
  is resolved without a fault is one.
* `Node.Reached.of_resolved`, `Node.Aside.of_resolved` — the two ways down a resolved forest.
* `compile_plain` — what is plain after a compilation, and what is left as it was written.
* `compile_unreached_saveButton` — a handler and a modifier that are lost.
-/

namespace MarkupCompiler

/-- An attribute with nothing left to resolve: it has no modifier and is not called with
arguments. -/
def Attribute.IsPlain (attr : Attribute) : Prop :=
  attr.modifier = none ∧ attr.hasArguments = false

/-- A **plain** tag: nothing is left to resolve in its attributes. -/
def Tag.IsPlain (tag : Tag) : Prop := ∀ attr ∈ tag.attributes, attr.IsPlain

/-! ### Resolved tags are plain -/

/-- An attribute that stays without a fault is plain. -/
theorem Attribute.isPlain_of_stays {table : TagTable} {tagName : String} {attr left : Attribute}
    {helper : Option String} (names : String → String)
    (hfate : attr.fate (table.isNative tagName) = .stays left helper)
    (h : ¬attr.Invalid table tagName) : (left.finish names helper).IsPlain := by
  obtain ⟨-, hremains⟩ := Attribute.of_fate_stays hfate
  obtain ⟨-, harguments, hmodifier, -⟩ := Resolver.remains?_fields hremains
  have hcalled : attr.hasArguments = false := by
    rw [← Bool.not_eq_true]
    exact fun hcalled => h (.stay left helper hfate (.inr hcalled))
  have hleft : left.modifier = none ∧ left.hasArguments = false := by
    refine ⟨hmodifier, ?_⟩
    rw [Attribute.hasArguments, harguments]
    exact hcalled
  cases helper <;> exact hleft

/-- **A tag that is resolved without a fault is plain.** -/
theorem Tag.isPlain_resolved {table : TagTable} {tag : Tag} (names : String → String)
    (h : tag.ownFault? table = none) : (tag.resolved table names).IsPlain := by
  intro attr' hattr'
  rw [(Tag.outcome_resolved h names).attributes_eq] at hattr'
  obtain ⟨attr, hattr, hleft⟩ := List.mem_filterMap.mp hattr'
  have hvalid : ¬attr.Invalid table tag.name := Attribute.not_invalid_of_mem h hattr
  rcases hfate : attr.fate (table.isNative tag.name) with ⟨p, condition⟩ | handler | _ |
    ⟨left, helper⟩
  · rw [hfate] at hleft
    cases hleft
  · rw [hfate] at hleft
    cases hleft
  · rw [hfate] at hleft
    cases hleft
  · rw [hfate] at hleft
    obtain rfl := Option.some.inj hleft
    exact Attribute.isPlain_of_stays names hfate hvalid

/-- A tag that is reached in a forest without a fault has none. -/
theorem Node.ownFault?_of_reached {table : TagTable} {tag : Tag} {nodes : List Node}
    (h : Node.faultIn? table nodes = none) (hreached : (Node.tag tag).Reached nodes) :
    tag.ownFault? table = none := by
  have hone : ∀ {nodes : List Node} {tag : Tag}, Node.faultIn? table nodes = none →
      Node.tag tag ∈ nodes →
        tag.ownFault? table = none ∧ Node.faultIn? table tag.body = none := by
    intro nodes tag hnone hmem
    rw [← Option.or_eq_none_iff, ← Node.fault?_tag, ← Option.not_isSome_iff_eq_none]
    intro hsome
    have hfault := (Node.faultIn?_isSome_iff table nodes).mpr ⟨tag, hmem, hsome⟩
    rw [hnone] at hfault
    cases hfault
  induction hreached with
  | root hmem => exact (hone h hmem).1
  | body hmem _ ih => exact ih (hone h hmem).2

/-! ### What stands aside of a resolved tag -/

/-- There is no tag in a name. -/
theorem Node.not_occurs_identifier (tag : Tag) (name : String) (span : Option Span) :
    ¬(Node.tag tag).Occurs (.expr (.identifier name) span) := by
  rintro (_ | ⟨hmem, _⟩)
  cases hmem

/-- A tag in the call of a function that has none is in the argument. -/
theorem Node.Occurs.of_call {tag : Tag} {callee argument : Node} {span : Option Span}
    (hcallee : ¬(Node.tag tag).Occurs callee)
    (h : (Node.tag tag).Occurs (.expr (.call callee [argument]) span)) :
    (Node.tag tag).Occurs argument := by
  rcases h with _ | ⟨hmem, hchild⟩
  rcases List.mem_cons.mp hmem with rfl | hargument
  · exact absurd hchild hcallee
  · obtain rfl := List.mem_singleton.mp hargument
    exact hchild

/-- What remains of an attribute has its value, or a text. -/
theorem Attribute.value_of_remains? {attr left : Attribute} {helper : Option String}
    (h : attr.remains? = some (left, helper)) :
    left.value = attr.value ∨ ∃ text span, left.value = .literal (.string text) span := by
  rw [Attribute.remains?] at h
  split at h
  · cases h
    exact .inl rfl
  · split at h
    · split at h
      · cases h
      · cases h
        exact .inr ⟨_, _, rfl⟩
    · cases h
      exact .inl rfl
  · cases h
    exact .inl rfl
  · cases h
    exact .inl rfl

/-- A tag in the value of an attribute that stays was in the value of the attribute. -/
theorem Attribute.occurs_value_of_stays {native : Bool} {attr left : Attribute}
    {helper : Option String} (names : String → String)
    (hfate : attr.fate native = .stays left helper) {tag : Tag}
    (h : (Node.tag tag).Occurs (left.finish names helper).value) :
    (Node.tag tag).Occurs attr.value := by
  obtain ⟨-, hremains⟩ := Attribute.of_fate_stays hfate
  have hleft : (Node.tag tag).Occurs left.value := by
    cases helper with
    | none => exact h
    | some helper => exact h.of_call (Node.not_occurs_identifier _ _ _)
  have hentered : (Node.tag tag).Occurs attr.entered.value := by
    rcases Attribute.value_of_remains? hremains with heq | ⟨text, span, heq⟩
    · rwa [heq] at hleft
    · rw [heq] at hleft
      rcases hleft with _ | ⟨hmem, _⟩
      cases hmem
  rw [Attribute.entered] at hentered
  by_cases hscoped : attr.modifier = some "scoped"
  · simp only [hscoped, if_true] at hentered
    refine hentered.of_call ?_
    rintro (_ | ⟨hmem, hname⟩)
    obtain rfl := List.mem_singleton.mp hmem
    exact Node.not_occurs_identifier _ _ _ hname
  · simpa only [hscoped, if_false] using hentered

/-- A condition that a tag is given is an argument of the attribute. -/
theorem Attribute.mem_children_of_condition? {native : Bool} {attr : Attribute}
    {condition : Node} (h : (attr.fate native).condition? = some condition) :
    condition ∈ attr.children := by
  have hentered : attr.Enters native → condition ∈ attr.children := by
    intro henters
    rw [Attribute.fate_of_enters henters] at h
    split at h <;> cases h
  rcases attr.kind native with
    ⟨modifier, hmodifier, -⟩ | ⟨p, conditional, hmodifier, hname⟩ | ⟨handler, hhandler⟩ |
      ⟨henters, -⟩
  · exact hentered (Attribute.enters_of_modifier hmodifier)
  · rw [Attribute.fate_of_directive hmodifier hname] at h
    cases conditional with
    | false => cases h
    | true =>
        obtain ⟨arguments, harguments, hhead⟩ := Option.bind_eq_some_iff.mp h
        rw [Attribute.children, harguments]
        exact List.mem_cons_of_mem _ (List.mem_of_mem_head? hhead)
  · rw [Attribute.fate_of_event hhandler] at h
    cases h
  · exact hentered henters

/-- The arguments of a handler are those of its attribute. -/
theorem Attribute.mem_children_of_handler? {native : Bool} {attr : Attribute}
    {handler : EventHandler} (h : attr.handler? native = some handler) {argument : Node}
    (hmem : argument ∈ handler.arguments) : argument ∈ attr.children := by
  rw [Attribute.handler?] at h
  split at h
  · rename_i event arguments hmodifier hevent harguments
    obtain rfl := Option.some.inj h
    rw [Attribute.children, harguments]
    exact List.mem_cons_of_mem _ hmem
  · cases h

/-- A tag that occurs aside of a resolved tag occurred aside of the tag. -/
theorem Tag.occurs_aside_of_resolved {table : TagTable} {tag inner : Tag}
    {names : String → String} (hfault : tag.ownFault? table = none) {child : Node}
    (hchild : child ∈ (tag.resolved table names).asides)
    (h : (Node.tag inner).Occurs child) :
    ∃ source ∈ tag.asides, (Node.tag inner).Occurs source := by
  have houtcome := Tag.outcome_resolved hfault names
  -- it is enough that it occurs in an attribute
  have hown : ∀ attr ∈ tag.attributes, ∀ source ∈ attr.children,
      (Node.tag inner).Occurs source → ∃ source ∈ tag.asides, (Node.tag inner).Occurs source := by
    intro attr hattr source hsource hinner
    refine ⟨source, ?_, hinner⟩
    simp only [Tag.asides, List.mem_append]
    exact .inl (.inl (List.mem_flatMap.mpr ⟨attr, hattr, hsource⟩))
  simp only [Tag.asides, List.mem_append] at hchild
  rcases hchild with (hattribute | hhandler) | hcondition
  · rw [houtcome.attributes_eq] at hattribute
    obtain ⟨attr', hattr', hchild⟩ := List.mem_flatMap.mp hattribute
    obtain ⟨attr, hattr, hleft⟩ := List.mem_filterMap.mp hattr'
    rcases hfate : attr.fate (table.isNative tag.name) with ⟨p, given⟩ | handler | _ |
      ⟨left, helper⟩
    case stays =>
      rw [hfate] at hleft
      obtain rfl := Option.some.inj hleft
      rcases List.mem_cons.mp hchild with rfl | hargument
      · exact hown attr hattr attr.value List.mem_cons_self
          (Attribute.occurs_value_of_stays names hfate h)
      · obtain ⟨-, hremains⟩ := Attribute.of_fate_stays hfate
        obtain ⟨-, harguments, -, -⟩ := Resolver.remains?_fields hremains
        obtain ⟨-, hfinish, -⟩ := Resolver.finish_fields names helper left
        rw [hfinish, harguments] at hargument
        exact hown attr hattr child (List.mem_cons_of_mem _ hargument) h
    all_goals
      rw [hfate] at hleft
      cases hleft
  · obtain ⟨handler, hmem, hargument⟩ := List.mem_flatMap.mp hhandler
    have hmem' : handler ∈ tag.handlers.getD [] ∨
        ∃ attr ∈ tag.attributes, attr.handler? (table.isNative tag.name) = some handler := by
      rw [houtcome.handlers_eq] at hmem
      rw [← List.mem_filterMap]
      split at hmem
      · exact .inl hmem
      · exact List.mem_append.mp hmem
    rcases hmem' with hold | ⟨attr, hattr, hnew⟩
    · refine ⟨child, ?_, h⟩
      simp only [Tag.asides, List.mem_append]
      exact .inl (.inr (List.mem_flatMap.mpr ⟨handler, hold, hargument⟩))
    · exact hown attr hattr child (Attribute.mem_children_of_handler? hnew hargument) h
  · rw [houtcome.condition_eq, Option.mem_toList] at hcondition
    rcases Option.or_eq_some_iff.mp hcondition with hnew | ⟨-, hold⟩
    · obtain ⟨attr, hattr, hgiven⟩ := List.mem_filterMap.mp (List.mem_of_getLast? hnew)
      exact hown attr hattr child (Attribute.mem_children_of_condition? hgiven) h
    · refine ⟨child, ?_, h⟩
      simp only [Tag.asides, List.mem_append, Option.mem_toList]
      exact .inr hold

namespace Node

section

variable {table : TagTable} {names : String → String} {nodes : List Node}

/-- What is reached in a resolved forest is a node that is reached in the forest, resolved. -/
theorem Reached.of_resolved {node : Node} (h : node.Reached (resolvedAll table names nodes)) :
    ∃ source : Node, source.Reached nodes ∧ node = source.resolved table names := by
  generalize hforest : resolvedAll table names nodes = forest at h
  induction h generalizing nodes with
  | root hmem =>
      rw [← hforest, resolvedAll_eq_map] at hmem
      obtain ⟨source, hsource, rfl⟩ := List.mem_map.mp hmem
      exact ⟨source, .root hsource, rfl⟩
  | body hmem _ ih =>
      rw [← hforest, resolvedAll_eq_map] at hmem
      obtain ⟨outer, houter, heq⟩ := List.mem_map.mp hmem
      cases outer with
      | tag outer =>
          rw [resolved_tag] at heq
          obtain rfl := Node.tag.inj heq
          obtain ⟨source, hsource, rfl⟩ := ih rfl
          exact ⟨source, .body houter hsource, rfl⟩
      | _ => cases heq

/-- **Resolution does not touch what stands aside**: a tag that occurs aside in a resolved
forest occurs aside in the forest, as it is. -/
theorem Aside.of_resolved {tag : Tag} (hfault : faultIn? table nodes = none)
    (h : (Node.tag tag).Aside (resolvedAll table names nodes)) : (Node.tag tag).Aside nodes := by
  obtain ⟨outer, houter, child, hchild, htag⟩ := h
  obtain ⟨source, hsource, rfl⟩ := houter.of_resolved
  cases source with
  | tag source =>
      rw [resolved_tag] at hchild
      obtain ⟨child', hchild', htag'⟩ :=
        Tag.occurs_aside_of_resolved (ownFault?_of_reached hfault hsource) hchild htag
      exact ⟨.tag source, hsource, child', hchild', htag'⟩
  | _ => exact ⟨_, hsource, child, hchild, htag⟩

end

end Node

/-! ### What is left to resolve after a compilation -/

/-- Lowering leaves a plain tag plain. -/
theorem Tag.IsPlain.lower {tag : Tag} (h : tag.IsPlain) (converter : String) :
    (tag.lower converter).IsPlain := by
  rw [Tag.lower_eq]
  intro attr' hattr'
  obtain ⟨attr, hattr, rfl⟩ := List.mem_map.mp hattr'
  obtain ⟨hmodifier, hcalled⟩ := h attr hattr
  refine ⟨hmodifier, ?_⟩
  simp only [Attribute.hasArguments, Attribute.lower] at hcalled ⊢
  cases harguments : attr.arguments with
  | none => rfl
  | some arguments => simpa [harguments] using hcalled

/-- A lowered tag is plain if all that it may come from is. -/
theorem Tag.LoweredOf.isPlain {converter : String} {given : Tag → Prop} {tag : Tag}
    (h : tag.LoweredOf converter given) (hgiven : ∀ source, given source → source.IsPlain) :
    tag.IsPlain := by
  obtain ⟨source, hsource, heq⟩ := h
  have hplain := (hgiven source hsource).lower converter
  rw [heq]
  exact hplain

/-- A tag that is reached in the lowered roots of a forest without a fault is plain. -/
theorem isPlain_of_reached {config : Config} {table : TagTable} {nodes : List Node} {tag : Tag}
    (hfault : Node.faultIn? table nodes = none)
    (h : (Node.tag tag).Reached (loweredRoots config table nodes)) : tag.IsPlain := by
  refine (Node.reached_lowered h).isPlain fun resolved hresolved => ?_
  obtain ⟨source, hsource, heq⟩ := hresolved.of_resolved
  cases source with
  | tag source =>
      rw [Node.resolved_tag] at heq
      obtain rfl := Node.tag.inj heq
      exact Tag.isPlain_resolved config.helperId (Node.ownFault?_of_reached hfault hsource)
  | _ => cases heq

/-- A tag that occurs aside in the lowered roots of a forest without a fault occurs aside in
the forest. -/
theorem loweredOf_of_aside {config : Config} {table : TagTable} {nodes : List Node} {tag : Tag}
    (hfault : Node.faultIn? table nodes = none)
    (h : (Node.tag tag).Aside (loweredRoots config table nodes)) :
    tag.LoweredOf (config.helperId CompileUnit.converterName) fun source =>
      (Node.tag source).Aside nodes := by
  obtain ⟨source, hsource, heq⟩ := Node.aside_lowered h
  exact ⟨source, hsource.of_resolved hfault, heq⟩

/-- **The reach of resolution.** In a compilation that succeeds, the roots that are emitted
have only plain tags where they are reached through bodies. Every other tag of the roots is a
tag that occurs aside in the source, as it was written there and lowered. So all tags of the
roots are plain if the source has only plain tags aside. -/
theorem compile_plain {config : Config} {table : TagTable} {nodes : List Node} {output : Output}
    (h : compile config table.schema nodes = .ok output) :
    ∃ resolved unit roots final,
      (∀ budget, Node.forestNesting nodes ≤ budget →
        Resolver.resolveForest ⟨Registry.builtin, table.schema⟩ budget nodes { config } =
          .ok resolved unit) ∧
      lowerRoots resolved unit = (roots, final) ∧ output.code = generate roots ∧
      (∀ tag, (Node.tag tag).Reached roots → tag.IsPlain) ∧
      (∀ tag, (Node.tag tag).Aside roots →
        tag.LoweredOf (config.helperId CompileUnit.converterName) fun source =>
          (Node.tag source).Aside nodes) ∧
      ((∀ tag, (Node.tag tag).Aside nodes → tag.IsPlain) →
        ∀ root ∈ roots, ∀ tag, (Node.tag tag).Occurs root → tag.IsPlain) := by
  rw [compile_eq] at h
  split at h
  · cases h
  · rename_i hfault
    obtain rfl := Except.ok.inj h
    refine ⟨_, _, _, _, fun _ => resolveForest_eq hfault, lowerRoots_eq config table nodes, rfl,
      fun tag => isPlain_of_reached hfault, fun tag => loweredOf_of_aside hfault, ?_⟩
    intro haside root hroot tag htag
    rcases Node.occurs_iff.mp ⟨root, hroot, htag⟩ with hreached | hbeside
    · exact isPlain_of_reached hfault hreached
    · exact (loweredOf_of_aside hfault hbeside).isPlain haside

/-- An element with another one in the value of an attribute. -/
def Tag.holding (inner : Tag) : Tag :=
  { Tag.named "div" with attributes := [{ Attribute.flag "title" with value := .tag inner }] }

/-- An element with a handler and a modifier. -/
def Tag.saveButton : Tag :=
  { Tag.named "button" with
    attributes :=
      [{ Attribute.flag "onClick" with arguments := some [.expr (.identifier "save") none] },
        { Attribute.flag "for" with
          value := .literal (.string "x") none
          modifier := some "scoped" }] }

/-- In a body, the handler and the modifier are resolved. -/
theorem compile_plain_saveButton :
    ∃ output roots,
      compile {} TagTable.builtin.schema
        [.tag { Tag.holding (.named "b") with body := [.tag .saveButton] }] = .ok output ∧
      output.code = generate roots ∧ ∀ tag, (Node.tag tag).Reached roots → tag.IsPlain := by
  have hfault : Node.faultIn? TagTable.builtin
      [.tag { Tag.holding (.named "b") with body := [.tag .saveButton] }] = none := by
    rfl
  obtain ⟨output, hcode⟩ : ∃ output, compile {} TagTable.builtin.schema
      [.tag { Tag.holding (.named "b") with body := [.tag .saveButton] }] = .ok output :=
    ⟨_, by rw [compile_eq, hfault]⟩
  obtain ⟨_, _, roots, _, _, _, hroots, hplain, -⟩ := compile_plain hcode
  exact ⟨_, roots, hcode, hroots, hplain⟩

/-- **A tag that resolution does not reach**: in the value of an attribute, the handler and the
modifier are neither resolved nor rejected, and are lost in the code. -/
theorem compile_unreached_saveButton :
    ∃ output resolved unit roots final,
      compile {} TagTable.builtin.schema [.tag (.holding .saveButton)] = .ok output ∧
      output.code =
        "out.e(\"div\", \x7b title: out.e(\"button\", " ++
          "\x7b onClick: true, \"for\": \"x\" \x7d, 0) \x7d, 0);" ∧
      (∀ budget, Node.forestNesting [.tag (.holding .saveButton)] ≤ budget →
        Resolver.resolveForest ⟨Registry.builtin, TagTable.builtin.schema⟩ budget
          [.tag (.holding .saveButton)] { config := {} } = .ok resolved unit) ∧
      lowerRoots resolved unit = (roots, final) ∧ output.code = generate roots ∧
      ∃ root ∈ roots, ∃ tag, (Node.tag tag).Occurs root ∧ ¬tag.IsPlain := by
  have hfault : Node.faultIn? TagTable.builtin [.tag (.holding .saveButton)] = none := by rfl
  have hroots : loweredRoots {} TagTable.builtin [.tag (.holding .saveButton)] =
      [.tag (.holding .saveButton)] := by
    rfl
  refine ⟨_, _, _, _, _, by rw [compile_eq, hfault], ?_, fun _ => resolveForest_eq hfault,
    lowerRoots_eq _ _ _, rfl, ?_⟩
  · rw [hroots]
    rfl
  · rw [hroots]
    refine ⟨_, List.mem_singleton_self _, .saveButton, ?_, ?_⟩
    · exact .inside List.mem_cons_self .here
    · intro hplain
      obtain ⟨-, hcalled⟩ := hplain _ List.mem_cons_self
      cases hcalled

end MarkupCompiler
