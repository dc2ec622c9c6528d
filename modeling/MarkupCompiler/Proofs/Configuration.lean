import MarkupCompiler.Config
import MarkupCompiler.Proofs.Json.Grammar

/-!
# Reading Configurations

A configuration is written as an object with its settings among the members. The members stand in
any order, with blanks anywhere between the parts, and members of other names may have values of
any depth. The reader goes over the members once and keeps what it found; here each setting is
followed on its own, over the values of its name alone. A value is taken for a setting that has
none yet, so a second value of the same name is refused, whatever it is.

## Main definitions

* `Config.Entry`, `Config.Document` — a configuration as it is written.
* `Config.Document.settings` — what is written for a name.
* `Config.fill?` — one more value for a setting.

## Main results

* `Config.foldlM_add?` — the settings are found independently of each other.
* `Config.Document.foldlM_fill?_values` — a setting that is written once, or left out, is found.
* `Config.read?_document` — the configuration of a document, and the refusal of repetitions.
-/

namespace MarkupCompiler.Config

open Json (Gap Written WrittenMember)

/-! ### Written configurations -/

/-- A member of a written configuration, with blanks around its name and its value. The name denotes
a text, in any spelling. -/
structure Entry where
  before : Gap
  name : Written String
  after : Gap
  ahead : Gap
  value : Written Json
  behind : Gap
  spells : Json.Spells name.text (some name.meaning)
  writes : Json.Writes value.text value.meaning

/-- The member, with the blanks around its value. -/
def Entry.member (entry : Entry) : WrittenMember where
  before := entry.before
  name := ⟨entry.name.text, some entry.name.meaning⟩
  after := entry.after
  value := ⟨entry.ahead.chars ++ (entry.value.text ++ entry.behind.chars), entry.value.meaning⟩
  spells := entry.spells

/-- A written configuration: its members, and the blanks around the object and behind its opening
brace. -/
structure Document where
  before : Gap
  gap : Gap
  entries : List Entry
  after : Gap

namespace Document

/-- The text of a written configuration. -/
def text (document : Document) : String :=
  String.ofList (document.before.chars ++
    (Json.bracketed '\x7b' document.gap
        ((document.entries.map Entry.member).map WrittenMember.written) '\x7d' ++
      document.after.chars))

/-- What is written for a name, member by member, without the blanks around it. -/
def settings (document : Document) (name : String) : List String :=
  (document.entries.filter (·.name.meaning = name)).map fun entry => String.ofList entry.value.text

/-- The members with their names and values. -/
def members (document : Document) : List (String × Json) :=
  document.entries.map fun entry => (entry.name.meaning, entry.value.meaning)

/-- A written configuration is read as an object with its members. -/
theorem json_read?_text (document : Document) :
    Json.read? document.text =
      some (.object (document.members.map fun member => (some member.1, member.2))) := by
  have hvalues : ∀ member ∈ document.entries.map Entry.member,
      Json.Writes member.value.text member.value.meaning := by
    intro member hmember
    obtain ⟨entry, _, rfl⟩ := List.mem_map.mp hmember
    exact .spaced entry.ahead entry.behind entry.writes
  have hobject := Json.Writes.object document.gap hvalues
  rw [text, Json.read?_of_writes (.spaced document.before document.after hobject)]
  simp [members, Function.comp_def, WrittenMember.written, Entry.member]

end Document

/-! ### The settings found -/

/-- One more value for a setting, which must not have one. -/
def fill? {α : Type} (ofJson? : Json → Option α) (slot : Option α) (value : Json) :
    Option (Option α) :=
  match slot with
  | some _ => none
  | none => (ofJson? value).map some

/-- A second value is refused, whatever the two are. -/
theorem foldlM_fill?_of_two_le {α : Type} (ofJson? : Json → Option α) {values : List Json}
    (h : 2 ≤ values.length) : values.foldlM (fill? ofJson?) none = none := by
  rcases values with _ | ⟨first, _ | ⟨second, rest⟩⟩
  · simp at h
  · simp at h
  · cases hfirst : ofJson? first <;> simp [fill?, hfirst]

theorem Found.add?_output (found : Found) (value : Json) :
    found.add? (some "output", value) =
      (fill? Target.ofJson? found.output value).map fun output => { found with output } := by
  rcases found with ⟨_ | _, _⟩ <;> simp [add?, fill?, Function.comp_def]

theorem Found.add?_helperPrefix (found : Found) (value : Json) :
    found.add? (some "helperPrefix", value) =
      (fill? helperPrefixOfJson? found.helperPrefix value).map fun helperPrefix =>
        { found with helperPrefix } := by
  rcases found with ⟨_, _ | _⟩ <;> simp [add?, fill?, Function.comp_def]

theorem Found.add?_other (found : Found) {name : String} (houtput : name ≠ "output")
    (hhelper : name ≠ "helperPrefix") (value : Json) :
    found.add? (some name, value) = some found := by
  simp [add?, houtput, hhelper]

/-- The values of a name among members. -/
def valuesOf (name : String) (members : List (String × Json)) : List Json :=
  (members.filter (·.1 = name)).map Prod.snd

theorem valuesOf_cons_self (name : String) (value : Json) (members : List (String × Json)) :
    valuesOf name ((name, value) :: members) = value :: valuesOf name members := by
  simp [valuesOf]

theorem valuesOf_cons_ne {name other : String} (h : other ≠ name) (value : Json)
    (members : List (String × Json)) :
    valuesOf name ((other, value) :: members) = valuesOf name members := by
  simp [valuesOf, h]

/-- **The settings are found independently of each other**, each among the values of its name. -/
theorem foldlM_add? (members : List (String × Json)) (found : Found) :
    (members.map fun member => (some member.1, member.2)).foldlM Found.add? found =
      ((valuesOf "output" members).foldlM (fill? Target.ofJson?) found.output).bind fun output =>
        ((valuesOf "helperPrefix" members).foldlM (fill? helperPrefixOfJson?)
          found.helperPrefix).map fun helperPrefix => ⟨output, helperPrefix⟩ := by
  induction members generalizing found with
  | nil => rfl
  | cons member members ih =>
      obtain ⟨name, value⟩ := member
      simp only [List.map_cons, List.foldlM_cons, Option.bind_eq_bind]
      by_cases houtput : name = "output"
      · subst houtput
        rw [Found.add?_output, valuesOf_cons_self, valuesOf_cons_ne (by decide), List.foldlM_cons]
        cases fill? Target.ofJson? found.output value with
        | none => rfl
        | some output =>
            rw [Option.map_some, Option.bind_some, ih]
            rfl
      · by_cases hhelper : name = "helperPrefix"
        · subst hhelper
          rw [Found.add?_helperPrefix, valuesOf_cons_self, valuesOf_cons_ne (by decide),
            List.foldlM_cons]
          cases fill? helperPrefixOfJson? found.helperPrefix value with
          | none => simp
          | some helperPrefix =>
              rw [Option.map_some, Option.bind_some, ih]
              rfl
        · rw [Found.add?_other found houtput hhelper, valuesOf_cons_ne houtput,
            valuesOf_cons_ne hhelper, Option.bind_some, ih]

/-! ### The configuration of a document -/

namespace Document

theorem valuesOf_members (document : Document) (name : String) :
    valuesOf name document.members =
      (document.entries.filter (·.name.meaning = name)).map (·.value.meaning) := by
  simp [valuesOf, members, List.filter_map, Function.comp_def]

/-- A document is read as what is found in its members, each setting on its own. -/
theorem config_read?_text (document : Document) :
    Config.read? document.text =
      (((valuesOf "output" document.members).foldlM (fill? Target.ofJson?) none).bind fun output =>
        ((valuesOf "helperPrefix" document.members).foldlM (fill? helperPrefixOfJson?) none).map
          fun helperPrefix => (⟨output, helperPrefix⟩ : Found)).map Found.complete := by
  rw [Config.read?, json_read?_text, Option.bind_some, ofJson?, foldlM_add?]

/-- The value of a member with the written form of a text is that text. -/
theorem meaning_of_quote {entry : Entry} {text : String}
    (h : String.ofList entry.value.text = Text.quote text) :
    entry.value.meaning = .string (some text) := by
  have hread := Json.read?_of_writes entry.writes
  rw [h, Json.read?_quote] at hread
  exact (Option.some.inj hread).symm

theorem length_valuesOf_members (document : Document) (name : String) :
    (valuesOf name document.members).length = (document.settings name).length := by
  rw [valuesOf_members, settings, List.length_map, List.length_map]

/-- **A setting that is written once, or left out, is found.** -/
theorem foldlM_fill?_values {α : Type} {ofJson? : Json → Option α} {spelling : α → String}
    (hspelling : ∀ a, ofJson? (.string (some (spelling a))) = some a) (document : Document)
    {name : String} {setting : Option α}
    (h : document.settings name = setting.toList.map fun a => Text.quote (spelling a)) :
    (valuesOf name document.members).foldlM (fill? ofJson?) none = some setting := by
  rw [valuesOf_members]
  cases setting with
  | none =>
      have hnone := List.map_eq_nil_iff.mp h
      rw [hnone]
      rfl
  | some a =>
      obtain ⟨entry, hentry, htext⟩ := List.map_eq_singleton_iff.mp h
      rw [hentry, List.map_singleton, meaning_of_quote htext]
      simp [fill?, hspelling]

end Document

theorem ofJson?_targetName (target : Target) :
    Target.ofJson? (.string (some target.name)) = some target := by
  cases target <;> decide

/-- **Reading undoes writing.** Where a target and the beginning of helper names are each written
once or left out, they are read, with the default for what is left out. The other members, their
values, the order and the blanks do not matter. A document that repeats one of the two is
refused. -/
theorem read?_document (document : Document) :
    (∀ (target : Option Target) (helperPrefix : Option String),
        document.settings "output" = target.toList.map (fun t => Text.quote t.name) →
        document.settings "helperPrefix" = helperPrefix.toList.map Text.quote →
        read? document.text =
          some { output := target.getD .vdom, helperPrefix := helperPrefix.getD "rt_" }) ∧
      ∀ name ∈ ["output", "helperPrefix"], 2 ≤ (document.settings name).length →
        read? document.text = none := by
  rw [Document.config_read?_text]
  constructor
  · intro target helperPrefix houtput hhelper
    have htarget := Document.foldlM_fill?_values ofJson?_targetName document houtput
    have htext := @Document.foldlM_fill?_values String helperPrefixOfJson? id (fun _ => rfl)
      document _ _ hhelper
    rw [htarget, htext]
    rfl
  · intro name hname hrepeated
    rw [← Document.length_valuesOf_members] at hrepeated
    have hcases : name = "output" ∨ name = "helperPrefix" := by simpa using hname
    rcases hcases with rfl | rfl
    · rw [foldlM_fill?_of_two_le _ hrepeated]
      rfl
    · rw [foldlM_fill?_of_two_le _ hrepeated]
      simp

/-- One blank. -/
def oneBlank : Gap := ⟨[' '], List.forall_mem_singleton.mpr rfl⟩

/-- A member with a blank at each place for one. -/
def Entry.spaced (name : String) (value : Written Json)
    (writes : Json.Writes value.text value.meaning) : Entry where
  before := oneBlank
  name := ⟨(Text.quote name).toList, name⟩
  after := oneBlank
  ahead := oneBlank
  value := value
  behind := oneBlank
  spells := by dsimp only; exact Json.spells_quote name
  writes := writes

/-- A member that is a text. -/
def Entry.ofText (name text : String) : Entry :=
  .spaced name ⟨(Text.quote text).toList, .string (some text)⟩
    (by dsimp only; exact .string (Json.spells_quote text))

/-- A member of an object within, without content. -/
def emptyMember (name : String) : WrittenMember where
  before := oneBlank
  name := ⟨(Text.quote name).toList, some name⟩
  after := oneBlank
  value := ⟨"null".toList, .null⟩
  spells := by dsimp only; exact Json.spells_quote name

/-- A member that holds an object with one member without content. -/
def Entry.nested (name inner : String) : Entry :=
  .spaced name
    ⟨Json.bracketed '\x7b' oneBlank [(emptyMember inner).written] '\x7d',
      .object [(some inner, .null)]⟩
    (.object oneBlank (List.forall_mem_singleton.mpr (.null : Json.Writes
      (emptyMember inner).value.text (emptyMember inner).value.meaning)))

/-- A document whose settings stand around an object that names one of them. -/
def nestedDocument : Document :=
  ⟨oneBlank, oneBlank,
    [.ofText "helperPrefix" "é\n\"", .nested "note" "output", .ofText "output" "html"], oneBlank⟩

/-- A document with two values for one setting, of which the first is no target. -/
def repeatedDocument : Document :=
  ⟨oneBlank, oneBlank, [.nested "output" "note", .ofText "output" "html"], oneBlank⟩

/-- The settings of the nested document are read, although an object within names one of them, and
the document with two values for one setting is not read. -/
theorem read?_document_nested_repeated :
    (nestedDocument.settings "output" = [Text.quote "html"] ∧
      nestedDocument.settings "helperPrefix" = [Text.quote "é\n\""] ∧
      read? nestedDocument.text = some { output := .html, helperPrefix := "é\n\"" }) ∧
    2 ≤ (repeatedDocument.settings "output").length ∧ read? repeatedDocument.text = none := by
  have houtput : nestedDocument.settings "output" = [Text.quote "html"] := by decide
  have hhelper : nestedDocument.settings "helperPrefix" = [Text.quote "é\n\""] := by decide
  have hrepeated : 2 ≤ (repeatedDocument.settings "output").length := by decide
  exact ⟨⟨houtput, hhelper,
      (read?_document nestedDocument).1 (some .html) (some "é\n\"") houtput hhelper⟩,
    hrepeated, (read?_document repeatedDocument).2 "output" List.mem_cons_self hrepeated⟩

end MarkupCompiler.Config
