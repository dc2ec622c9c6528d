import MarkupCompiler.Proofs.Resolution.Tree

/-!
# Resolution Loses and Duplicates Nothing

Every attribute of a tag has one fate, and from the fates one can read off when a tag is
rejected and, if it is not, all of its fields after resolution. A tag is rejected if one of
its attributes is **invalid** by itself, if two handlers would **clash**, or if a tag in its
body is rejected; the unit has no say in it. Otherwise each attribute is accounted for once.

## Main results

* `Attribute.Invalid`, `Attribute.ClashIn` — why a tag is rejected for its own attributes.
* `Tag.Outcome` — what becomes of a tag whose attributes meet their fates.
* `Resolver.resolveTag_fates` — both are exact.
-/

namespace MarkupCompiler

/-! ### Attributes that are rejected -/

namespace Attribute

/-- An attribute that is **invalid** by itself, on a tag of this name. -/
inductive Invalid (table : TagTable) (tagName : String) (attr : Attribute) : Prop where
  /-- Its modifier is not known. -/
  | modifier (modifier : String) (h : attr.modifier = some modifier)
      (hunknown : ¬(modifier = "scoped" ∨ modifier = "no-update"))
  /-- It asks to leave an element alone, but has arguments or a value. -/
  | preservation (p : Preservation) (h : attr.modifier = none)
      (hname : noUpdate? attr.name = some (p, false))
      (hused : attr.hasArguments = true ∨ attr.value.isTrue = false)
  /-- It asks to do so under a condition, but its argument is not the only one. -/
  | condition (p : Preservation) (h : attr.modifier = none)
      (hname : noUpdate? attr.name = some (p, true))
      (hused : ∀ condition, attr.arguments ≠ some [condition])
  /-- It is an event attribute, but has no argument, or a value. -/
  | handler (handler : EventHandler)
      (h : attr.handler? (table.isNative tagName) = some handler)
      (hused : handler.arguments = [] ∨ attr.value.isTrue = false)
  /-- It would stay, but a custom tag does not declare it, or it has arguments. -/
  | stay (left : Attribute) (helper : Option String)
      (h : attr.fate (table.isNative tagName) = .stays left helper)
      (hused : table.undeclares tagName attr.name = true ∨ attr.hasArguments = true)

/-- The attribute stands for a handler of an event that one of these handlers is for. -/
def Clashes (native : Bool) (taken : List EventHandler) (attr : Attribute) : Prop :=
  ∃ handler, attr.handler? native = some handler ∧ ∃ other ∈ taken, other.event = handler.event

/-- One of the attributes clashes with these handlers, or with one from an attribute before
it. -/
def ClashIn (native : Bool) (taken : List EventHandler) (attrs : List Attribute) : Prop :=
  ∃ before attr after, attrs = before ++ attr :: after ∧
    attr.Clashes native (taken ++ before.filterMap (handler? native))

/-- What stays is at fault if it is not declared or has arguments. -/
theorem stayFault?_isSome_iff (table : TagTable) (tagName : String) (attr : Attribute) :
    (attr.stayFault? table tagName).isSome ↔
      attr.remains?.isSome ∧
        (table.undeclares tagName attr.name = true ∨ attr.hasArguments = true) := by
  rw [stayFault?]
  split
  · rename_i remains hremains
    by_cases hundeclared : table.undeclares tagName attr.name = true
    · simp [hundeclared, hremains]
    · by_cases hcalled : attr.hasArguments = true
      · simp [hundeclared, hcalled, hremains]
      · simp [hundeclared, hcalled, hremains]
  · rename_i hremains
    simp [hremains]

/-- A directive that leaves an element alone is at fault if it is used otherwise than it
allows. -/
theorem noUpdateFault?_isSome_iff (attr : Attribute) (conditional : Bool) :
    (attr.noUpdateFault? conditional).isSome ↔
      if conditional then ∀ condition, attr.arguments ≠ some [condition]
      else attr.hasArguments = true ∨ attr.value.isTrue = false := by
  cases conditional with
  | true =>
      rw [noUpdateFault?, if_pos rfl, if_pos rfl]
      split
      · rename_i condition harguments
        simp [harguments]
      · rename_i hnot
        simp only [Option.isSome_some, true_iff]
        exact fun condition harguments => hnot condition harguments
  | false =>
      rw [noUpdateFault?]
      by_cases hcalled : attr.hasArguments = true
      · simp [hcalled]
      · by_cases hvalue : attr.value.isTrue = true
        · simp [hcalled, hvalue]
        · simp [hcalled, hvalue]

/-- **At fault** means invalid or in a clash. -/
theorem fault?_isSome_iff (table : TagTable) (tagName : String) (taken : List EventHandler)
    (attr : Attribute) :
    (attr.fault? table tagName taken).isSome ↔
      attr.Invalid table tagName ∨ attr.Clashes (table.isNative tagName) taken := by
  constructor
  · intro h
    rcases attr.kind (table.isNative tagName) with
      ⟨modifier, hmodifier, hunknown⟩ | ⟨p, conditional, hmodifier, hname⟩ |
        ⟨handler, hhandler⟩ | ⟨henters, hknown⟩
    · exact .inl (.modifier modifier hmodifier hunknown)
    · rw [fault?_of_directive hmodifier hname, noUpdateFault?_isSome_iff] at h
      cases conditional with
      | true => exact .inl (.condition p hmodifier hname h)
      | false => exact .inl (.preservation p hmodifier hname (by simpa using h))
    · rw [fault?_of_event hhandler, handlerFault?_isSome_iff] at h
      rcases h with hused | hused | hclash
      · exact .inl (.handler handler hhandler (.inl hused))
      · exact .inl (.handler handler hhandler (.inr hused))
      · exact .inr ⟨handler, hhandler, hclash⟩
    · rw [fault?_of_enters henters hknown, stayFault?_isSome_iff] at h
      obtain ⟨hremains, hused⟩ := h
      obtain ⟨⟨left, helper⟩, hremains⟩ := Option.isSome_iff_exists.mp hremains
      have hfate := fate_of_enters henters
      rw [hremains] at hfate
      exact .inl (.stay left helper hfate hused)
  · rintro (hinvalid | ⟨handler, hhandler, hclash⟩)
    · cases hinvalid with
      | modifier modifier hmodifier hunknown =>
          rw [fault?_of_unknown hmodifier hunknown]
          rfl
      | preservation p hmodifier hname hused =>
          rw [fault?_of_directive hmodifier hname, noUpdateFault?_isSome_iff]
          simpa using hused
      | condition p hmodifier hname hused =>
          rw [fault?_of_directive hmodifier hname, noUpdateFault?_isSome_iff]
          exact hused
      | handler handler hhandler hused =>
          rw [fault?_of_event hhandler, handlerFault?_isSome_iff]
          exact hused.imp_right .inl
      | stay left helper hfate hused =>
          obtain ⟨henters, hremains⟩ := of_fate_stays hfate
          by_cases hknown : attr.KnownModifier
          · rw [fault?_of_enters henters hknown, stayFault?_isSome_iff, hremains]
            exact ⟨rfl, hused⟩
          · obtain ⟨modifier, hunknown⟩ := Classical.not_forall.mp hknown
            obtain ⟨hmodifier, hunknown⟩ := Classical.not_imp.mp hunknown
            rw [fault?_of_unknown hmodifier hunknown]
            rfl
    · rw [fault?_of_event hhandler, handlerFault?_isSome_iff]
      exact .inr (.inr hclash)

/-- A clash is one of the first attribute, or one later on. -/
theorem clashIn_cons (native : Bool) (taken : List EventHandler) (attr : Attribute)
    (rest : List Attribute) :
    ClashIn native taken (attr :: rest) ↔
      attr.Clashes native taken ∨ ClashIn native (taken ++ (attr.handler? native).toList) rest := by
  constructor
  · rintro ⟨before, other, after, heq, hclash⟩
    cases before with
    | nil =>
        obtain ⟨rfl, rfl⟩ := List.cons.inj heq
        exact .inl (by simpa using hclash)
    | cons first before =>
        obtain ⟨rfl, hrest⟩ := List.cons.inj heq
        rw [filterMap_cons_toList, ← List.append_assoc] at hclash
        exact .inr ⟨before, other, after, hrest, hclash⟩
  · rintro (hclash | ⟨before, other, after, rfl, hclash⟩)
    · exact ⟨[], attr, rest, rfl, by simpa using hclash⟩
    · refine ⟨attr :: before, other, after, rfl, ?_⟩
      rwa [filterMap_cons_toList, ← List.append_assoc]

/-- A row of attributes is at fault if one of them is invalid, or if there is a clash. -/
theorem faultIn?_isSome_iff (table : TagTable) (tagName : String) (taken : List EventHandler)
    (attrs : List Attribute) :
    (faultIn? table tagName taken attrs).isSome ↔
      (∃ attr ∈ attrs, attr.Invalid table tagName) ∨
        ClashIn (table.isNative tagName) taken attrs := by
  induction attrs generalizing taken with
  | nil =>
      simp [faultIn?, ClashIn]
  | cons attr rest ih =>
      rw [faultIn?, Option.isSome_or, Bool.or_eq_true, fault?_isSome_iff, fate_handler?, ih,
        clashIn_cons]
      simp only [List.mem_cons, exists_eq_or_imp, or_assoc, or_left_comm]

/-- No attribute of a row that is not at fault is invalid. -/
theorem not_invalid_of_mem {table : TagTable} {tagName : String} {taken : List EventHandler}
    {attrs : List Attribute} (h : faultIn? table tagName taken attrs = none) {attr : Attribute}
    (hmem : attr ∈ attrs) : ¬attr.Invalid table tagName := by
  intro hinvalid
  have hfault := (faultIn?_isSome_iff table tagName taken attrs).mpr (.inl ⟨attr, hmem, hinvalid⟩)
  rw [h] at hfault
  cases hfault

end Attribute

/-! ### What becomes of a tag -/

namespace Fate

/-- The preservation that is asked for. -/
def preservation? : Fate → Option Preservation
  | .preserves p _ => some p
  | _ => none

/-- The condition that a preservation is given. -/
def condition? : Fate → Option Node
  | .preserves _ condition => condition
  | _ => none

/-- Nothing comes of the attribute. -/
def vanished : Fate → Bool
  | .vanishes => true
  | _ => false

/-- A fate has one part. -/
theorem length_parts (fate : Fate) (names : String → String) :
    (fate.left? names).toList.length + fate.handler?.toList.length +
      fate.preservation?.toList.length + (if fate.vanished then 1 else 0) = 1 := by
  cases fate <;> rfl

end Fate

/-- The name of an attribute that is kept as first rendered. -/
def Attribute.keptName? (attr : Attribute) : Option String :=
  if attr.modifier = some "no-update" then some attr.name else none

/-- **What becomes of a tag** when its attributes meet their fates, where helpers have these
names. -/
structure Tag.Outcome (table : TagTable) (names : String → String) (tag tag' : Tag) : Prop where
  name_eq : tag'.name = tag.name
  isChild_eq : tag'.isChild = tag.isChild
  span_eq : tag'.span = tag.span
  /-- What stays does so once, and in order. -/
  attributes_eq : tag'.attributes =
    tag.attributes.filterMap fun attr => (attr.fate (table.isNative tag.name)).left? names
  /-- Each event attribute gives one handler, in order, after those that were there. -/
  handlers_eq : tag'.handlers =
    match tag.attributes.filterMap (Attribute.handler? (table.isNative tag.name)) with
    | [] => tag.handlers
    | handlers => some (tag.handlers.getD [] ++ handlers)
  /-- Preservations add up. -/
  preservation_eq : tag'.preservation =
    (tag.attributes.filterMap fun attr =>
      (attr.fate (table.isNative tag.name)).preservation?).foldl .union tag.preservation
  /-- The last condition counts. -/
  condition_eq : tag'.condition =
    (tag.attributes.filterMap fun attr =>
      (attr.fate (table.isNative tag.name)).condition?).getLast?.or tag.condition
  /-- The names of attributes that are kept as first rendered are noted once. -/
  preservedAttributes_eq : tag'.preservedAttributes =
    (tag.attributes.filterMap Attribute.keptName?).foldl withName tag.preservedAttributes
  /-- Every attribute is accounted for once. -/
  accounted : tag.attributes.length =
    tag'.attributes.length +
      (tag.attributes.filterMap (Attribute.handler? (table.isNative tag.name))).length +
      (tag.attributes.filterMap fun attr =>
        (attr.fate (table.isNative tag.name)).preservation?).length +
      tag.attributes.countP fun attr => (attr.fate (table.isNative tag.name)).vanished

/-- An attribute that asks for a preservation has no modifier. -/
theorem Attribute.modifier_of_preserves {native : Bool} {attr : Attribute} {p : Preservation}
    {condition : Option Node} (h : attr.fate native = .preserves p condition) :
    attr.modifier = none := by
  rcases hmodifier : attr.modifier with _ | modifier
  · rfl
  · rw [fate_of_enters (enters_of_modifier hmodifier)] at h
    split at h <;> cases h

namespace Tag

/-- What an attribute does to a tag, handlers apart. -/
theorem settle_fields (native : Bool) (tag : Tag) (attr : Attribute) :
    (tag.settle native attr).preservation =
        (attr.fate native).preservation?.toList.foldl .union tag.preservation ∧
      (tag.settle native attr).condition = (attr.fate native).condition?.or tag.condition ∧
      (tag.settle native attr).preservedAttributes =
        attr.keptName?.toList.foldl withName tag.preservedAttributes := by
  rcases hfate : attr.fate native with ⟨p, condition⟩ | handler | _ | ⟨left, helper⟩
  · have hkept : attr.keptName? = none := by
      simp [Attribute.keptName?, Attribute.modifier_of_preserves hfate]
    simp only [settle, hfate, hkept]
    exact ⟨rfl, rfl, rfl⟩
  · have hhandler : attr.handler? native = some handler := by
      rw [← Attribute.fate_handler?, hfate]
      rfl
    have hkept : attr.keptName? = none := by
      simp [Attribute.keptName?, (Attribute.of_handler? hhandler).1]
    simp only [settle, hfate, hkept]
    exact ⟨rfl, rfl, rfl⟩
  all_goals
    simp only [settle, hfate, Attribute.keptName?]
    split <;> exact ⟨rfl, rfl, rfl⟩

variable (native : Bool) (names : String → String) (attrs : List Attribute) (tag : Tag)

/-- Attributes in a row leave alone what they are not about. -/
theorem foldl_absorb_frame :
    (attrs.foldl (absorb native names) tag).name = tag.name ∧
      (attrs.foldl (absorb native names) tag).isChild = tag.isChild ∧
      (attrs.foldl (absorb native names) tag).span = tag.span := by
  induction attrs generalizing tag with
  | nil => exact ⟨rfl, rfl, rfl⟩
  | cons attr rest ih =>
      obtain ⟨hname, -, -, hchild, hspan⟩ := settle_frame native tag attr
      obtain ⟨hname', hchild', hspan'⟩ := ih (tag.absorb native names attr)
      exact ⟨hname'.trans hname, hchild'.trans hchild, hspan'.trans hspan⟩

/-- What is left of attributes in a row. -/
theorem attributes_foldl_absorb :
    (attrs.foldl (absorb native names) tag).attributes =
      tag.attributes ++ attrs.filterMap fun attr => (attr.fate native).left? names := by
  induction attrs generalizing tag with
  | nil => simp
  | cons attr rest ih =>
      rw [List.foldl_cons, ih, filterMap_cons_toList, ← List.append_assoc]
      rfl

/-- What attributes in a row do to the other fields of a tag, handlers apart. -/
theorem foldl_absorb_fields :
    (attrs.foldl (absorb native names) tag).preservation =
        (attrs.filterMap fun attr => (attr.fate native).preservation?).foldl .union
          tag.preservation ∧
      (attrs.foldl (absorb native names) tag).condition =
        (attrs.filterMap fun attr => (attr.fate native).condition?).getLast?.or tag.condition ∧
      (attrs.foldl (absorb native names) tag).preservedAttributes =
        (attrs.filterMap Attribute.keptName?).foldl withName tag.preservedAttributes := by
  induction attrs generalizing tag with
  | nil => exact ⟨rfl, rfl, rfl⟩
  | cons attr rest ih =>
      obtain ⟨hpreservation, hcondition, hnames⟩ := settle_fields native tag attr
      obtain ⟨hpreservation', hcondition', hnames'⟩ := ih (tag.absorb native names attr)
      simp only [List.foldl_cons, filterMap_cons_toList, List.foldl_append]
      refine ⟨?_, ?_, ?_⟩
      · rw [hpreservation', ← hpreservation]
        rfl
      · have hlast : ∀ condition : Option Node, condition.toList.getLast? = condition := by
          rintro (_ | condition) <;> rfl
        rw [hcondition', List.getLast?_append, hlast, Option.or_assoc, ← hcondition]
        rfl
      · rw [hnames', ← hnames]
        rfl

/-- Each attribute is accounted for once. -/
theorem length_eq_fates :
    attrs.length =
      (attrs.filterMap fun attr => (attr.fate native).left? names).length +
        (attrs.filterMap (Attribute.handler? native)).length +
        (attrs.filterMap fun attr => (attr.fate native).preservation?).length +
        attrs.countP fun attr => (attr.fate native).vanished := by
  induction attrs with
  | nil => rfl
  | cons attr rest ih =>
      have hone := (attr.fate native).length_parts names
      rw [Attribute.fate_handler?] at hone
      simp only [filterMap_cons_toList, List.length_append, List.length_cons, List.countP_cons]
      omega

end Tag

/-- The handlers of a tag after attributes in a row that are not at fault. -/
theorem Tag.handlers_foldl_absorb {table : TagTable} {attrs : List Attribute} {tag : Tag}
    {native : Bool} (hnative : native = table.isNative tag.name) (names : String → String)
    (h : Attribute.faultIn? table tag.name (tag.handlers.getD []) attrs = none) :
    (attrs.foldl (Tag.absorb native names) tag).handlers =
      match attrs.filterMap (Attribute.handler? native) with
      | [] => tag.handlers
      | handlers => some (tag.handlers.getD [] ++ handlers) := by
  induction attrs generalizing tag with
  | nil => rfl
  | cons attr rest ih =>
      rw [Attribute.faultIn?, Option.or_eq_none_iff] at h
      obtain ⟨hfault, hrest⟩ := h
      subst hnative
      have hhandlers := Tag.handlers_absorb names hfault
      have hnext : Attribute.faultIn? table (tag.absorb (table.isNative tag.name) names attr).name
          ((tag.absorb (table.isNative tag.name) names attr).handlers.getD []) rest = none := by
        rw [Tag.name_absorb, hhandlers]
        exact hrest
      have hsettle : (tag.absorb (table.isNative tag.name) names attr).handlers = _ :=
        Tag.handlers_settle hfault
      rw [Attribute.fate_handler?] at hhandlers hsettle
      rw [List.foldl_cons, filterMap_cons_toList, ih (by rw [Tag.name_absorb]) hnext, hhandlers,
        hsettle]
      cases attr.handler? (table.isNative tag.name) with
      | none => simp
      | some handler =>
          simp only [Option.toList_some, List.singleton_append]
          cases rest.filterMap (Attribute.handler? (table.isNative tag.name)) with
          | nil => rfl
          | cons next more => simp

/-- **A tag that is not at fault has the outcome that the fates of its attributes give.** -/
theorem Tag.outcome_resolved {table : TagTable} {tag : Tag} (h : tag.ownFault? table = none)
    (names : String → String) : tag.Outcome table names (tag.resolved table names) := by
  obtain ⟨hname, hchild, hspan⟩ := Tag.foldl_absorb_frame (table.isNative tag.name) names
    tag.attributes { tag with attributes := [] }
  obtain ⟨hpreservation, hcondition, hnames⟩ := Tag.foldl_absorb_fields
    (table.isNative tag.name) names tag.attributes { tag with attributes := [] }
  have hattributes : (tag.resolved table names).attributes = tag.attributes.filterMap
      fun attr => (attr.fate (table.isNative tag.name)).left? names :=
    Tag.attributes_foldl_absorb (table.isNative tag.name) names tag.attributes
      { tag with attributes := [] }
  refine ⟨hname, hchild, hspan, hattributes, ?_, hpreservation, hcondition, hnames, ?_⟩
  · have hfault : Attribute.faultIn? table { tag with attributes := [] }.name
        ({ tag with attributes := [] }.handlers.getD []) tag.attributes = none := h
    exact Tag.handlers_foldl_absorb rfl names hfault
  · rw [hattributes]
    exact Tag.length_eq_fates (table.isNative tag.name) names tag.attributes

/-- A forest is at fault if one of its tags is. -/
theorem Node.faultIn?_isSome_iff (table : TagTable) (nodes : List Node) :
    (Node.faultIn? table nodes).isSome ↔
      ∃ tag, Node.tag tag ∈ nodes ∧ ((Node.tag tag).fault? table).isSome := by
  induction nodes with
  | nil => simp [Node.faultIn?]
  | cons node rest ih =>
      rw [Node.faultIn?, Option.isSome_or, Bool.or_eq_true, ih]
      cases node with
      | tag tag =>
          simp only [List.mem_cons, Node.tag.injEq, or_and_right, exists_or, exists_eq_left]
      | _ =>
          show (none : Option Diagnostic).isSome = true ∨ _ ↔ _
          simp

/-- A helper that a value goes through is asked for. -/
theorem Tag.mem_requests_of_stays {table : TagTable} {tag : Tag} {attr left : Attribute}
    {helper : String} (hmem : attr ∈ tag.attributes)
    (hfate : attr.fate (table.isNative tag.name) = .stays left (some helper)) (config : Config) :
    Request.helper helper ∈ (Node.tag tag).requests table config := by
  rw [Node.requests_tag]
  refine List.mem_append_left _ (List.mem_flatMap.mpr ⟨attr, hmem, ?_⟩)
  rw [hfate]
  exact List.mem_singleton.mpr rfl

/-- **Resolution loses and duplicates nothing.** A tag is rejected exactly if one of its
attributes is invalid, if its event attributes clash, or if a tag in its body is rejected,
in whatever units. If it is not, then each attribute has met its fate, and what goes through
a helper does so by the name that the unit has given to it. One or the other is found within
every budget that is not less than the nesting of the tag. -/
theorem Resolver.resolveTag_fates (table : TagTable) {tag : Tag} {budget : Nat}
    (hbudget : (Node.tag tag).nesting ≤ budget) (unit unit₂ : CompileUnit) :
    (table.resolver.resolveTag budget tag).Finishes unit ∧
    ((∃ d unit', table.resolver.resolveTag budget tag unit = .error (.failed d) unit') ↔
      (∃ attr ∈ tag.attributes, attr.Invalid table tag.name) ∨
        Attribute.ClashIn (table.isNative tag.name) (tag.handlers.getD []) tag.attributes ∨
        ∃ child, Node.tag child ∈ tag.body ∧
          ∃ d unit', table.resolver.resolveTag budget child unit₂ = .error (.failed d) unit') ∧
    ∀ tag' unit', table.resolver.resolveTag budget tag unit = .ok tag' unit' →
      tag.Outcome table unit'.helperName tag' ∧
      tag'.body = Node.resolvedAll table unit'.helperName tag.body ∧
      ∀ attr ∈ tag.attributes, ∀ left helper,
        attr.fate (table.isNative tag.name) = .stays left (some helper) →
          unit'.helpers.lookup helper = some (unit'.helperName helper) := by
  have hfollows := resolveTag_follows table hbudget
  refine ⟨finishes_resolveTag Registry.tame_builtin hbudget unit, ?_, ?_⟩
  · rw [hfollows.fails_iff, Node.fault?_tag, Option.isSome_or, Bool.or_eq_true, Tag.ownFault?,
      Attribute.faultIn?_isSome_iff, Node.faultIn?_isSome_iff, or_assoc]
    refine or_congr_right (or_congr_right (exists_congr fun child =>
      and_congr_right fun hchild => ?_))
    have hle := Node.nesting_le_forestNesting hchild
    rw [Node.nesting_tag] at hbudget
    rw [(resolveTag_follows table (show (Node.tag child).nesting ≤ budget by omega)).fails_iff]
  · intro tag' unit' hok
    have hfault : (Node.tag tag).fault? table = none := by
      rw [← Option.not_isSome_iff_eq_none, ← hfollows.fails_iff unit, hok]
      rintro ⟨d, unit', ⟨⟩⟩
    rw [hfollows.succeeds hfault unit] at hok
    cases hok
    rw [Node.fault?_tag, Option.or_eq_none_iff] at hfault
    refine ⟨Tag.outcome_resolved hfault.1 _, rfl, ?_⟩
    intro attr hmem left helper hfate
    exact CompileUnit.nameOf?_serveAll_of_mem (Tag.mem_requests_of_stays hmem hfate _) unit

/-- An element whose attributes have four different fates: one asks for a preservation, one
becomes a handler, one vanishes though its name is noted, and one stays. -/
def Tag.ofFourFates : Tag :=
  { Tag.named "div" with
    attributes :=
      [.flag "no-update",
       { Attribute.flag "onClick" with arguments := some [.literal (.string "select") none] },
       { Attribute.flag "class" with
         value := .literal (.array []) none, modifier := some "no-update" },
       { Attribute.flag "style" with value := .expr (.identifier "look") none }] }

/-- The four fates, met in a new unit. -/
theorem Resolver.resolveTag_ofFourFates :
    (Node.tag Tag.ofFourFates).nesting ≤ 1 ∧ ∃ tag' unit',
      (TagTable.mk [.element "div"]).resolver.resolveTag 1 Tag.ofFourFates { config := {} } =
        .ok tag' unit' ∧
      tag'.preservation = .wholeElement ∧
      (tag'.handlers.getD []).map (·.event) = ["click"] ∧
      tag'.preservedAttributes = ["class"] ∧
      tag'.attributes.map (·.name) = ["style"] := by
  have hfault : (Node.tag Tag.ofFourFates).fault? (TagTable.mk [.element "div"]) = none := by
    rw [Node.fault?_tag]
    rfl
  have hnesting : (Node.tag Tag.ofFourFates).nesting ≤ 1 := Nat.le_refl 1
  have hok := (resolveTag_follows _ hnesting).succeeds hfault { config := {} }
  obtain ⟨houtcome, -, -⟩ :=
    (resolveTag_fates _ hnesting { config := {} } { config := {} }).2.2 _ _ hok
  refine ⟨hnesting, _, _, hok, ?_, ?_, ?_, ?_⟩
  · rw [houtcome.preservation_eq]
    rfl
  · rw [houtcome.handlers_eq]
    rfl
  · rw [houtcome.preservedAttributes_eq]
    rfl
  · rw [houtcome.attributes_eq]
    rfl

end MarkupCompiler
