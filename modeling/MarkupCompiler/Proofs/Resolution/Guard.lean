import MarkupCompiler.Proofs.Resolution.Accounting
import MarkupCompiler.Proofs.Resolution.Extension
import MarkupCompiler.Proofs.Resolution.Extraction

/-!
# What a Tag Is Left Alone For

Four directives ask for a tag, or its body, to be left alone when the view is rendered again, and
two of them give a condition. A tag has three flags for what they ask and room for one condition.
Together these are its **guard**. The builtin rules touch it in no other way, and each directive
adds to it: flags stay once they are set, and a condition takes the place of the one before.

So the guard of a resolved tag can be read off its directives, whatever the schema. It says too
little in two cases. If directives give different conditions, all but the last are lost. And one
flag puts everything under the condition, so what a directive asks for without a condition comes
under the condition of another.

## Main definitions

* `NoUpdate`, `Tag.noUpdates` — what a directive asks, and the directives of a tag.
* `Tag.KeepsConditions`, `Tag.KeepsUnconditional` — what a guard should do for its directives.

## Main results

* `Resolver.guard_resolveAttribute`, `Resolver.guard_resolveAttributes` — what one attribute, and
  attributes in a row, do to the guard of their tag.
* `Resolver.resolveTag_guard` — the guard of a resolved tag, and when it does what it should.
-/

namespace MarkupCompiler

/-! ### Directives and guards -/

/-- What a directive asks to leave alone, and the condition that it gives, if any. -/
structure NoUpdate where
  asked : Preservation
  condition : Option Node

/-- What of a tag is left alone, and the condition for it, if any. -/
structure Guard where
  preservation : Preservation
  condition : Option Node

/-- The guard after one more directive. -/
def Guard.heed (guard : Guard) (d : NoUpdate) : Guard where
  preservation :=
    guard.preservation.union (if d.condition.isSome then d.asked.underCondition else d.asked)
  condition := d.condition.or guard.condition

/-- The directive that an attribute is. It has no modifier, and gives its one argument as the
condition if the directive takes one. -/
def Attribute.directive? (attr : Attribute) : Option NoUpdate :=
  match attr.modifier, noUpdate? attr.name, attr.arguments with
  | none, some (p, false), _ => some ⟨p, none⟩
  | none, some (p, true), some [condition] => some ⟨p, some condition⟩
  | _, _, _ => none

namespace Tag

/-- The **guard** of a tag. -/
def guard (tag : Tag) : Guard := ⟨tag.preservation, tag.condition⟩

/-- The directives of a tag. -/
def noUpdates (tag : Tag) : List NoUpdate := tag.attributes.filterMap Attribute.directive?

/-- The conditions that the directives of a tag give. -/
def conditions (tag : Tag) : List Node := tag.noUpdates.filterMap NoUpdate.condition

/-- No condition is lost: each that a directive gives is the condition of the resolved tag. -/
def KeepsConditions (tag tag' : Tag) : Prop :=
  ∀ condition ∈ tag.conditions, tag'.condition = some condition

/-- There is something that directives ask for without a condition only. -/
def AsksUnconditionally (tag : Tag) : Prop :=
  ∃ d ∈ tag.noUpdates, ∀ d' ∈ tag.noUpdates, d'.asked = d.asked → d'.condition = none

/-- What is asked for without a condition only is not put under one. -/
def KeepsUnconditional (tag tag' : Tag) : Prop :=
  tag.AsksUnconditionally → tag'.preservation.conditional = false

end Tag

/-! ### One attribute -/

/-- A handler is not about the guard. -/
theorem guard_extractHandler (schema : Schema) (attr : Attribute) (scope : Scope) :
    Resolution.Ensures (extractHandler schema attr) scope fun left? scope' =>
      scope'.tag.guard = scope.tag.guard ∧ ∀ left ∈ left?, left = attr := by
  intro left? scope' hok
  rcases attr.exists_asksFor_or (schema.isNative scope.tag) with ⟨handler, hasks⟩ | hidle
  · rw [extractHandler_of_asksFor schema attr scope hasks] at hok
    split at hok <;> cases hok
    exact ⟨rfl, nofun⟩
  · rw [extractHandler_of_idle hidle] at hok
    cases hok
    exact ⟨rfl, fun left hleft => (Option.some.inj hleft).symm⟩

/-- A directive that is not at fault adds to the guard of its tag. -/
theorem Tag.guard_settle {attr : Attribute} {p : Preservation} {conditional : Bool}
    (hmodifier : attr.modifier = none)
    (hname : Attribute.noUpdate? attr.name = some (p, conditional))
    (hsound : attr.noUpdateFault? conditional = none) (native : Bool) (tag : Tag) :
    (tag.settle native attr).guard = attr.directive?.toList.foldl Guard.heed tag.guard := by
  have hfate : attr.fate native = _ := Attribute.fate_of_directive hmodifier hname
  cases conditional with
  | false =>
      have hdirective : attr.directive? = some ⟨p, none⟩ := by
        simp only [Attribute.directive?, hmodifier, hname]
      rw [settle, hfate, hdirective]
      rfl
  | true =>
      obtain ⟨condition, harguments⟩ : ∃ condition, attr.arguments = some [condition] := by
        by_contra hnone
        have hfault := (attr.noUpdateFault?_isSome_iff true).mpr (not_exists.mp hnone)
        rw [hsound] at hfault
        cases hfault
      have hdirective : attr.directive? = some ⟨p, some condition⟩ := by
        simp only [Attribute.directive?, hmodifier, hname, harguments]
      rw [settle, hfate, hdirective, harguments]
      rfl

namespace Resolver

open Resolution (Ensures)

variable (schema : Schema) (attr : Attribute) (scope : Scope)

/-- **The first phase**: an attribute that is a directive adds to the guard, and no other attribute
touches it. -/
theorem guard_runPhase_enter :
    Ensures (schema.resolver.runPhase .enter attr) scope fun left? scope' =>
      scope'.tag.guard = attr.directive?.toList.foldl Guard.heed scope.tag.guard ∧
        ∀ left ∈ left?, left.modifier = none := by
  intro left? scope' hok
  rcases hmodifier : attr.modifier with _ | modifier
  · rcases hname : Attribute.noUpdate? attr.name with _ | ⟨p, conditional⟩
    · have hdirective : attr.directive? = none := by
        simp only [Attribute.directive?, hmodifier, hname]
      rw [runPhase_enter_kept schema attr scope hmodifier hname] at hok
      obtain ⟨hguard, hleft⟩ := guard_extractHandler schema attr scope left? scope' hok
      rw [hdirective]
      exact ⟨hguard, fun left hmem => hleft left hmem ▸ hmodifier⟩
    · rw [runPhase_enter_noUpdate schema attr scope hmodifier hname false] at hok
      split at hok <;> cases hok
      rename_i hsound
      exact ⟨Tag.guard_settle hmodifier hname hsound false scope.tag, nofun⟩
  · have hdirective : attr.directive? = none := by
      simp only [Attribute.directive?, hmodifier]
    rw [hdirective]
    by_cases hknown : modifier = "scoped" ∨ modifier = "no-update"
    · rw [runPhase_enter_modifier schema attr scope hmodifier hknown] at hok
      cases hok
      refine ⟨?_, fun left hmem => Option.some.inj hmem ▸ rfl⟩
      dsimp only
      split <;> rfl
    · rw [runPhase_enter_unknown schema attr scope hmodifier hknown] at hok
      cases hok

/-- **The second phase** does not touch the tag. -/
theorem tag_runPhase_exit (hmodifier : attr.modifier = none) :
    Ensures (schema.resolver.runPhase .exit attr) scope fun _ scope' => scope'.tag = scope.tag := by
  intro left? scope' hok
  have htransforms := applyTransforms_exit schema attr scope hmodifier
  rcases hremains : attr.remains? with _ | ⟨left, helper⟩
  · rw [hremains] at htransforms
    rw [runPhase, Resolution.bind_of_ok htransforms] at hok
    cases hok
    rfl
  · rw [hremains] at htransforms
    rw [runPhase, Resolution.bind_of_ok htransforms] at hok
    simp only [finishPhase, validate] at hok
    split at hok
    · cases hok
    · split at hok <;> cases hok
      rfl

/-- **What one attribute does to the guard of its tag.** -/
theorem guard_resolveAttribute :
    Ensures (schema.resolver.resolveAttribute attr) scope fun _ scope' =>
      scope'.tag.guard = attr.directive?.toList.foldl Guard.heed scope.tag.guard := by
  rw [resolveAttribute]
  refine (guard_runPhase_enter schema attr scope).bind fun left? mid h => ?_
  obtain ⟨hguard, hleft⟩ := h
  cases left? with
  | none => exact .pure hguard
  | some left =>
      intro last? scope' hok
      rw [Tag.guard, tag_runPhase_exit schema left mid (hleft left rfl) last? scope' hok]
      exact hguard

/-! ### All attributes of a tag -/

/-- What attributes in a row do to the guard of their tag. -/
theorem guard_resolveAttributes (attrs : List Attribute) :
    Ensures (schema.resolver.resolveAttributes attrs) scope fun _ scope' =>
      scope'.tag.guard =
        (attrs.filterMap Attribute.directive?).foldl Guard.heed scope.tag.guard := by
  induction attrs generalizing scope with
  | nil => exact .pure rfl
  | cons attr rest ih =>
      rw [resolveAttributes]
      refine (guard_resolveAttribute schema attr scope).bind fun left? mid hguard => ?_
      intro _ scope' hok
      rw [filterMap_cons_toList, List.foldl_append, ← hguard]
      exact ih (mid.putBack left?) _ scope' hok

/-- The guard of a resolved tag. -/
theorem guard_resolveTag (budget : Nat) (tag : Tag) (unit : CompileUnit) :
    Ensures (schema.resolver.resolveTag budget tag) unit fun tag' _ =>
      tag'.guard = tag.noUpdates.foldl Guard.heed tag.guard := by
  cases budget with
  | zero => rintro _ _ ⟨⟩
  | succ budget =>
      have hown : Ensures (schema.resolver.resolveOwn tag) unit fun tag' _ =>
          tag'.guard = tag.noUpdates.foldl Guard.heed tag.guard := by
        intro tag' unit' hok
        rw [resolveOwn] at hok
        split at hok <;> cases hok
        rename_i scope hscope
        exact guard_resolveAttributes schema _ tag.attributes _ _ hscope
      rw [resolveTag]
      refine hown.bind fun own _ hguard => ?_
      refine Ensures.bind (Q := fun _ _ => True) (fun _ _ _ => trivial) fun body _ _ => ?_
      exact .pure hguard

end Resolver

/-! ### What the guard says -/

namespace Guard

variable (guard : Guard) (directives : List NoUpdate)

/-- The last condition counts. -/
theorem condition_foldl_heed :
    (directives.foldl heed guard).condition =
      (directives.filterMap NoUpdate.condition).getLast?.or guard.condition := by
  induction directives generalizing guard with
  | nil => rfl
  | cons d rest ih =>
      rw [List.foldl_cons, ih, filterMap_cons_toList, List.getLast?_append, Option.or_assoc]
      have hlast : d.condition.toList.getLast? = d.condition := by cases d.condition <;> rfl
      rw [hlast]
      rfl

/-- Flags add up, and a condition sets the last of them. -/
theorem preservation_foldl_heed :
    (directives.foldl heed guard).preservation =
      { element := guard.preservation.element || directives.any (·.asked.element)
        body := guard.preservation.body || directives.any (·.asked.body)
        conditional := guard.preservation.conditional ||
          directives.any fun d => d.asked.conditional || d.condition.isSome } := by
  induction directives generalizing guard with
  | nil => simp
  | cons d rest ih =>
      rw [List.foldl_cons, ih]
      rcases hcondition : d.condition with _ | condition
      · simp [heed, hcondition, Preservation.union, Bool.or_assoc]
      · simp [heed, hcondition, Preservation.union, Preservation.underCondition, Bool.or_assoc]

end Guard

namespace Tag

variable {tag tag' : Tag}

/-- Directives ask for the whole element or for its body. -/
theorem asked_of_mem_noUpdates {d : NoUpdate} (h : d ∈ tag.noUpdates) :
    d.asked = .wholeElement ∨ d.asked = .bodyOnly := by
  obtain ⟨attr, -, hattr⟩ := List.mem_filterMap.mp h
  have hasked : ∀ {p : Preservation} {conditional : Bool},
      Attribute.noUpdate? attr.name = some (p, conditional) →
        p = .wholeElement ∨ p = .bodyOnly := by
    intro p conditional hname
    rcases Attribute.name_of_noUpdate? hname with hattr | hattr | hattr | hattr
    all_goals
      rw [hattr] at hname
      cases hname
      simp
  rw [Attribute.directive?] at hattr
  split at hattr
  · rename_i hname
    cases hattr
    exact hasked hname
  · rename_i hname _
    cases hattr
    exact hasked hname
  · cases hattr

/-- The directives that give conditions set the last flag. -/
theorem any_condition_eq :
    (tag.noUpdates.any fun d => d.asked.conditional || d.condition.isSome) =
      !tag.conditions.isEmpty := by
  have hplain : ∀ d ∈ tag.noUpdates, d.asked.conditional = false := by
    intro d hd
    rcases asked_of_mem_noUpdates hd with h | h <;> rw [h] <;> rfl
  rw [Bool.eq_iff_iff, conditions, Bool.not_eq_true', ← Bool.not_eq_true, List.isEmpty_iff,
    List.filterMap_eq_nil_iff, List.any_eq_true, Classical.not_forall]
  refine exists_congr fun d => ?_
  rw [Classical.not_imp]
  refine and_congr_right fun hd => ?_
  rw [hplain d hd, Bool.false_or, Option.isSome_iff_ne_none]

/-- **Conditions are kept** exactly if they are all the same. -/
theorem keepsConditions_iff (h : tag'.condition = tag.conditions.getLast?.or tag.condition) :
    tag.KeepsConditions tag' ↔ ∀ c ∈ tag.conditions, ∀ c' ∈ tag.conditions, c = c' := by
  constructor
  · intro hkeeps c hc c' hc'
    exact Option.some.inj ((hkeeps c hc).symm.trans (hkeeps c' hc'))
  · intro hsame c hc
    have hne : tag.conditions ≠ [] := List.ne_nil_of_mem hc
    rw [h, List.getLast?_eq_some_getLast hne, Option.some_or,
      hsame c hc _ (List.getLast_mem hne)]

/-- **What is asked for without a condition only stays so** exactly if there is no condition. -/
theorem keepsUnconditional_iff
    (h : tag'.preservation.conditional =
      (tag.preservation.conditional || !tag.conditions.isEmpty)) :
    tag.KeepsUnconditional tag' ↔
      (tag.AsksUnconditionally → tag.preservation.conditional = false ∧ tag.conditions = []) := by
  refine imp_congr_right fun _ => ?_
  rw [h, Bool.or_eq_false_iff, Bool.not_eq_false', List.isEmpty_iff]

end Tag

/-! ### Resolved tags -/

namespace Resolver

/-- **The guard of a resolved tag.** The last condition counts. The flags are those that the
directives ask for, and one of them is set by any condition. So conditions are kept exactly if they
are all the same, and what is asked for without a condition only stays so exactly if there is no
condition. -/
theorem resolveTag_guard {schema : Schema} {budget : Nat} {tag tag' : Tag}
    {unit unit' : CompileUnit} (h : schema.resolver.resolveTag budget tag unit = .ok tag' unit') :
    tag'.condition = tag.conditions.getLast?.or tag.condition ∧
    tag'.preservation =
      { element := tag.preservation.element || tag.noUpdates.any (·.asked.element)
        body := tag.preservation.body || tag.noUpdates.any (·.asked.body)
        conditional := tag.preservation.conditional || !tag.conditions.isEmpty } ∧
    (tag.KeepsConditions tag' ↔ ∀ c ∈ tag.conditions, ∀ c' ∈ tag.conditions, c = c') ∧
    (tag.KeepsUnconditional tag' ↔
      (tag.AsksUnconditionally →
        tag.preservation.conditional = false ∧ tag.conditions = [])) := by
  have hguard := guard_resolveTag schema _ tag unit tag' unit' h
  have hcondition : tag'.condition = tag.conditions.getLast?.or tag.condition :=
    (congrArg Guard.condition hguard).trans (tag.guard.condition_foldl_heed tag.noUpdates)
  have hpreservation : tag'.preservation = _ :=
    (congrArg Guard.preservation hguard).trans (tag.guard.preservation_foldl_heed tag.noUpdates)
  rw [Tag.any_condition_eq] at hpreservation
  exact ⟨hcondition, hpreservation, Tag.keepsConditions_iff hcondition,
    Tag.keepsUnconditional_iff (congrArg Preservation.conditional hpreservation)⟩

end Resolver

/-! ### Some guards -/

/-- A directive of this name with a variable as its condition. -/
def Attribute.flagIf (name condition : String) : Attribute :=
  { Attribute.flag name with arguments := some [.expr (.identifier condition) none] }

/-- A tag that is left alone while it is frozen, as a whole and for its body. -/
def Tag.frozen : Tag :=
  { Tag.named "div" with
    attributes := [.flagIf "no-update-if" "frozen", .flagIf "no-update-body-if" "frozen"] }

/-- Its condition is kept. -/
theorem Resolver.resolveTag_guard_frozen :
    ∃ tag' unit',
      (Schema.mk fun _ => none).resolver.resolveTag 1 .frozen { config := {} } = .ok tag' unit' ∧
        Tag.frozen.KeepsConditions tag' ∧ tag'.preservation = ⟨true, true, true⟩ := by
  obtain ⟨tag', unit', hok⟩ : ∃ tag' unit',
      (Schema.mk fun _ => none).resolver.resolveTag 1 .frozen { config := {} } = .ok tag' unit' :=
    ⟨_, _, rfl⟩
  obtain ⟨-, hpreservation, hconditions, -⟩ := resolveTag_guard hok
  have hgiven : Tag.frozen.conditions =
      [.expr (.identifier "frozen") none, .expr (.identifier "frozen") none] := rfl
  refine ⟨tag', unit', hok, hconditions.mpr ?_, hpreservation⟩
  simp [hgiven]

/-- A tag that is left alone while it is frozen, and its body while it is busy. -/
def Tag.frozenOrBusy : Tag :=
  { Tag.named "div" with
    attributes := [.flagIf "no-update-if" "frozen", .flagIf "no-update-body-if" "busy"] }

/-- A tag that is always left alone, and its body while it is busy. -/
def Tag.pinnedOrBusy : Tag :=
  { Tag.named "div" with attributes := [.flag "no-update", .flagIf "no-update-body-if" "busy"] }

/-- A condition can be lost, and what is always left alone can come under a condition. -/
theorem Resolver.not_keeps_busy :
    (∃ tag' unit',
      (Schema.mk fun _ => none).resolver.resolveTag 1 .frozenOrBusy { config := {} } =
          .ok tag' unit' ∧
        Tag.frozenOrBusy.condition = none ∧ ¬Tag.frozenOrBusy.KeepsConditions tag') ∧
    ∃ tag' unit',
      (Schema.mk fun _ => none).resolver.resolveTag 1 .pinnedOrBusy { config := {} } =
          .ok tag' unit' ∧
        Tag.pinnedOrBusy.condition = none ∧ ¬Tag.pinnedOrBusy.KeepsUnconditional tag' := by
  refine ⟨⟨_, _, rfl, rfl, fun hkeeps => ?_⟩, ⟨_, _, rfl, rfl, fun hkeeps => ?_⟩⟩
  · have hlost : some (Node.expr (.identifier "busy") none) =
        some (.expr (.identifier "frozen") none) := hkeeps _ List.mem_cons_self
    simp at hlost
  · have hdirectives : Tag.pinnedOrBusy.noUpdates =
        [⟨.wholeElement, none⟩, ⟨.bodyOnly, some (.expr (.identifier "busy") none)⟩] := rfl
    have hasks : Tag.pinnedOrBusy.AsksUnconditionally := by
      rw [Tag.AsksUnconditionally, hdirectives]
      refine ⟨⟨.wholeElement, none⟩, List.mem_cons_self, ?_⟩
      simp [Preservation.bodyOnly, Preservation.wholeElement]
    cases hkeeps hasks

end MarkupCompiler
