import Mathlib.Data.List.Chain
import Mathlib.Data.List.DropRight
import MarkupCompiler.Proofs.ClassList

/-!
# Declarations in Style Texts

A style text is a row of **declarations**, what stands between its semicolons. The text of an
array is made of the texts of its items, one after the other, and nothing is put between them.
So the last declaration of an item and the first of the next are one declaration of the array,
unless a semicolon ends the one text or begins the other. Objects end their declarations with
semicolons, but strings need not.

## Main definitions

* `Style.declarations` — the declarations of a text.
* `Style.Apart` — two texts whose declarations stay apart when joined.
* `Node.declarations` — the declarations of an array's item.

## Main results

* `Style.segments_append_of_apart`, `Style.exists_fused` — the declarations of two texts in a row.
* `Style.segments_flatten_iff` — when the declarations of texts in a row stay apart.
* `Literal.closed_styleText?` — if strings end with semicolons, all style texts do.
* `Literal.declarations_styleText?_iff` — when an array keeps the declarations of its items apart.
-/

namespace MarkupCompiler

/-! ### Texts in a row -/

namespace Style

/-- The parts of a text between semicolons that are not empty. -/
def segments (text : List Char) : List (List Char) := (text.splitOn ';').filter (· ≠ [])

/-- The declarations of a style text. -/
def declarations (text : String) : List String := (segments text.toList).map String.ofList

/-- There is a semicolon between the last declaration of one text and the first of the other. -/
def Apart (s t : List Char) : Prop := s.getLast? = some ';' ∨ t.head? = some ';'

instance (s t : List Char) : Decidable (Apart s t) :=
  inferInstanceAs (Decidable (_ ∨ _))

theorem segments_semicolon (s t : List Char) :
    segments (s ++ ';' :: t) = segments s ++ segments t := by
  rw [segments, List.splitOn_append_cons_self, List.filter_append]
  rfl

theorem segments_eq_singleton {s : List Char} (hne : s ≠ []) (h : ';' ∉ s) : segments s = [s] := by
  rw [segments, List.splitOn_eq_singleton h]
  simp [hne]

/-- With a semicolon between them, texts keep their declarations. -/
theorem segments_append_of_apart {s t : List Char} (h : Apart s t) :
    segments (s ++ t) = segments s ++ segments t := by
  rcases h with hlast | hfirst
  · obtain ⟨init, rfl⟩ := List.getLast?_eq_some_iff.mp hlast
    rw [List.append_assoc, List.singleton_append, segments_semicolon, segments_semicolon]
    simp [segments]
  · obtain ⟨rest, rfl⟩ := List.head?_eq_some_iff.mp hfirst
    have hrest : segments (';' :: rest) = segments rest := segments_semicolon [] rest
    rw [segments_semicolon, hrest]

/-- A text that does not end with a semicolon has a last declaration, to which what follows is
added. -/
theorem exists_last {s : List Char} (hne : s ≠ []) (h : s.getLast? ≠ some ';') :
    ∃ before last, last ≠ [] ∧ ';' ∉ last ∧
      ∀ more, segments (s ++ more) = before ++ segments (last ++ more) := by
  obtain ⟨init, hinit⟩ : ∃ init, init = s.rdropWhile (· ≠ ';') := ⟨_, rfl⟩
  obtain ⟨last, hlast⟩ : ∃ last, last = s.rtakeWhile (· ≠ ';') := ⟨_, rfl⟩
  have hsplit : s = init ++ last := by
    rw [hinit, hlast, List.rdropWhile_append_rtakeWhile]
  have hfree : ';' ∉ last := by
    intro hmem
    rw [hlast] at hmem
    simpa using List.mem_rtakeWhile_imp hmem
  have hpresent : last ≠ [] := by
    rw [hlast, Ne, List.rtakeWhile_eq_nil_iff, Classical.not_forall]
    rw [List.getLast?_eq_some_getLast hne] at h
    exact ⟨hne, by simpa using h⟩
  rcases List.eq_nil_or_concat init with hnil | ⟨rest, c, hconcat⟩
  · refine ⟨[], last, hpresent, hfree, fun more => ?_⟩
    rw [hsplit, hnil, List.nil_append, List.nil_append]
  · -- what stands before the last declaration ends with a semicolon
    have hc : c = ';' := by
      have hstop := List.rdropWhile_last_not (fun c => decide (c ≠ ';')) s
      rw [← hinit, hconcat] at hstop
      simpa using hstop (by simp)
    refine ⟨segments rest, last, hpresent, hfree, fun more => ?_⟩
    rw [hsplit, hconcat, hc, List.concat_eq_append, List.append_assoc, List.append_assoc,
      List.singleton_append, segments_semicolon]

/-- A text that does not begin with a semicolon has a first declaration, which what stands before
it is added to. -/
theorem exists_first {t : List Char} (hne : t ≠ []) (h : t.head? ≠ some ';') :
    ∃ first after, first ≠ [] ∧ ';' ∉ first ∧
      ∀ more, segments (more ++ t) = segments (more ++ first) ++ after := by
  obtain ⟨first, hfirst⟩ : ∃ first, first = t.takeWhile (· ≠ ';') := ⟨_, rfl⟩
  have hsplit : t = first ++ t.dropWhile (· ≠ ';') := by
    rw [hfirst, List.takeWhile_append_dropWhile]
  have hfree : ';' ∉ first := by
    intro hmem
    rw [hfirst] at hmem
    simpa using List.mem_takeWhile_imp hmem
  have hpresent : first ≠ [] := by
    obtain ⟨c, rest, rfl⟩ := List.exists_cons_of_ne_nil hne
    have hc : c ≠ ';' := by simpa using h
    simp [hfirst, hc]
  rcases hrest : t.dropWhile (· ≠ ';') with _ | ⟨c, rest⟩
  · refine ⟨first, [], hpresent, hfree, fun more => ?_⟩
    rw [hsplit, hrest, List.append_nil, List.append_nil]
  · have hc : c = ';' := by
      have hstop := List.head?_dropWhile_not (fun c => decide (c ≠ ';')) t
      rw [hrest] at hstop
      simpa using hstop
    refine ⟨first, segments rest, hpresent, hfree, fun more => ?_⟩
    rw [hsplit, hrest, hc, ← List.append_assoc, segments_semicolon]

/-- **Without a semicolon between them**, the last declaration of a text and the first of the next
become one. -/
theorem exists_fused {s t : List Char} (hs : s ≠ []) (ht : t ≠ []) (h : ¬Apart s t) :
    ∃ before last first after, segments s = before ++ [last] ∧ segments t = first :: after ∧
      segments (s ++ t) = before ++ (last ++ first) :: after := by
  rw [Apart, not_or] at h
  obtain ⟨before, last, hlast, hlastFree, hs⟩ := exists_last hs h.1
  obtain ⟨first, after, hfirst, hfirstFree, ht⟩ := exists_first ht h.2
  refine ⟨before, last, first, after, ?_, ?_, ?_⟩
  · simpa [segments_eq_singleton hlast hlastFree] using hs []
  · simpa [segments_eq_singleton hfirst hfirstFree] using ht []
  · have hboth : segments (last ++ first) = [last ++ first] :=
      segments_eq_singleton (by simp [hlast]) (by simp [hlastFree, hfirstFree])
    rw [hs, ht, hboth, List.singleton_append]

/-- Texts in a row have no more declarations than they have one by one. -/
theorem length_segments_append_le (s t : List Char) :
    (segments (s ++ t)).length ≤ (segments s).length + (segments t).length := by
  by_cases hs : s = []
  · simp [hs]
  by_cases ht : t = []
  · simp [ht]
  by_cases h : Apart s t
  · rw [segments_append_of_apart h, List.length_append]
  · obtain ⟨before, last, first, after, hs', ht', hboth⟩ := exists_fused hs ht h
    rw [hs', ht', hboth]
    simp

theorem length_segments_flatten_le (texts : List (List Char)) :
    (segments texts.flatten).length ≤ (texts.flatMap segments).length := by
  induction texts with
  | nil => simp [segments]
  | cons t rest ih =>
      have happend := length_segments_append_le t rest.flatten
      rw [List.flatten_cons, List.flatMap_cons, List.length_append]
      omega

/-- **When the declarations of texts in a row stay apart**: if there is a semicolon between any two
neighbours. -/
theorem segments_flatten_iff {texts : List (List Char)} (hne : ∀ t ∈ texts, t ≠ []) :
    segments texts.flatten = texts.flatMap segments ↔ texts.IsChain Apart := by
  induction texts with
  | nil => simp [segments]
  | cons s rest ih =>
      cases rest with
      | nil => simp
      | cons t rest =>
          have hs : s ≠ [] := hne s List.mem_cons_self
          have ht : t ≠ [] := hne t (by simp)
          have hrest := ih fun u hu => hne u (List.mem_cons_of_mem s hu)
          have hflat : (t :: rest).flatten ≠ [] := by simp [ht]
          have hfirst : (t :: rest).flatten.head? = t.head? := by
            rw [List.flatten_cons, List.head?_append_of_ne_nil _ ht]
          have hapart : Apart s (t :: rest).flatten ↔ Apart s t := by rw [Apart, hfirst, Apart]
          rw [List.isChain_cons_cons, List.flatten_cons, List.flatMap_cons]
          by_cases h : Apart s t
          · rw [segments_append_of_apart (hapart.mpr h), List.append_cancel_left_eq, hrest]
            simp [h]
          · -- one declaration less, so the lists differ in length
            obtain ⟨before, last, first, after, hs', ht', hboth⟩ :=
              exists_fused hs hflat (hapart.not.mpr h)
            refine iff_of_false (fun heq => ?_) fun hchain => h hchain.1
            have hlength := congrArg List.length heq
            have hle := length_segments_flatten_le (t :: rest)
            simp only [hboth, hs', List.length_append, List.length_cons, List.length_nil] at hlength
            rw [ht', List.length_cons] at hle
            omega

/-- Empty texts have no declarations and keep none apart. -/
theorem leaveOutEmpty (texts : List String) :
    (texts.map String.toList).flatten = ((texts.filter (· ≠ "")).map String.toList).flatten ∧
      texts.flatMap declarations = (texts.filter (· ≠ "")).flatMap declarations := by
  induction texts with
  | nil => exact ⟨rfl, rfl⟩
  | cons text rest ih =>
      by_cases hempty : text = ""
      · subst hempty
        exact ih
      · rw [List.filter_cons_of_pos (by simpa using hempty), List.map_cons, List.flatten_cons,
          List.flatMap_cons, ih.1, ih.2]
        exact ⟨rfl, rfl⟩

/-- The same for strings, of which some may be empty. -/
theorem declarations_join_iff {texts : List String} {out : String}
    (h : out.toList = (texts.map String.toList).flatten) :
    declarations out = texts.flatMap declarations ↔
      (texts.filter (· ≠ "")).IsChain fun s t => Apart s.toList t.toList := by
  obtain ⟨hflatten, hflatMap⟩ := leaveOutEmpty texts
  rw [hflatten] at h
  have hne : ∀ chars ∈ (texts.filter (· ≠ "")).map String.toList, chars ≠ [] := by
    intro chars hchars
    obtain ⟨text, htext, rfl⟩ := List.mem_map.mp hchars
    simpa using (List.mem_filter.mp htext).2
  have hdeclarations : (texts.filter (· ≠ "")).flatMap declarations =
      (((texts.filter (· ≠ "")).map String.toList).flatMap segments).map String.ofList := by
    rw [List.map_flatMap, List.flatMap_map]
    rfl
  rw [hflatMap, hdeclarations, declarations, h,
    List.map_inj_right fun _ _ => String.ofList_injective, segments_flatten_iff hne,
    List.isChain_map]

/-- A text that is empty or ends with a semicolon. -/
def Closed (text : List Char) : Prop := ∀ c ∈ text.getLast?, c = ';'

theorem closed_nil : Closed [] := by simp [Closed]

theorem closed_concat (text : List Char) : Closed (text ++ [';']) := by simp [Closed]

theorem Closed.append {s t : List Char} (hs : Closed s) (ht : Closed t) : Closed (s ++ t) := by
  intro c hc
  rw [List.getLast?_append] at hc
  rcases Option.or_eq_some_iff.mp (Option.mem_def.mp hc) with hlast | ⟨-, hlast⟩
  · exact ht c hlast
  · exact hs c hlast

theorem Closed.getLast?_eq {text : List Char} (h : Closed text) (hne : text ≠ []) :
    text.getLast? = some ';' := by
  rw [List.getLast?_eq_some_getLast hne, Option.some_inj]
  exact h _ (List.getLast?_eq_some_getLast hne)

end Style

/-! ### Style texts of data -/

/-- The style text of an array's item. -/
def Node.styleText? (node : Node) : Option String := node.literal?.bind Literal.styleText?

/-- The declarations of an array's item. -/
def Node.declarations (node : Node) : List String :=
  (node.styleText?.map Style.declarations).getD []

theorem Node.flatMap_declarations (items : List Node) :
    items.flatMap declarations = (items.filterMap styleText?).flatMap Style.declarations := by
  induction items with
  | nil => rfl
  | cons item rest ih =>
      rw [List.flatMap_cons, ih, List.filterMap_cons, declarations]
      cases item.styleText? <;> rfl

namespace Literal

/-- An array has a text if all of its items have one, and then its text is theirs in a row. -/
theorem of_itemStyleTexts? {items : List Node} {out : String}
    (h : itemStyleTexts? items = some out) :
    (∀ item ∈ items, item.styleText?.isSome = true) ∧
      out.toList = ((items.filterMap Node.styleText?).map String.toList).flatten := by
  induction items generalizing out with
  | nil =>
      obtain rfl : "" = out := Option.some.inj h
      simp
  | cons item rest ih =>
      cases item with
      | literal value span =>
          rw [itemStyleTexts?.eq_def] at h
          have hitem : (Node.literal value span).styleText? = value.styleText? := rfl
          rcases htext : value.styleText? with _ | text
          · simp [htext] at h
          · rcases hrest : itemStyleTexts? rest with _ | more
            · simp [htext, hrest] at h
            · obtain rfl : text ++ more = out := by simpa [htext, hrest] using h
              obtain ⟨hsome, hmore⟩ := ih hrest
              rw [htext] at hitem
              constructor
              · intro other hother
                rcases List.mem_cons.mp hother with rfl | hother
                · rw [hitem]
                  rfl
                · exact hsome other hother
              · rw [String.toList_append, hmore, List.filterMap_cons, hitem]
                rfl
      | expr _ _ => cases h
      | text _ => cases h
      | tag _ => cases h

/-- The declaration of a field ends with a semicolon. -/
theorem closed_declaration? {key : String} {value : Literal} {text : String}
    (h : declaration? key value = some text) : Style.Closed text.toList := by
  rw [declaration?] at h
  split at h
  · obtain rfl := Option.some.inj h
    exact Style.closed_nil
  · obtain ⟨written, -, hwritten⟩ := Option.map_eq_some_iff.mp h
    split at hwritten
    · subst hwritten
      exact Style.closed_nil
    · subst hwritten
      rw [String.toList_append]
      exact Style.closed_concat _

/-- The declarations of an object end with a semicolon. -/
theorem closed_declarations? {fields : List (String × Node)} {text : String}
    (h : declarations? fields = some text) : Style.Closed text.toList := by
  induction fields generalizing text with
  | nil =>
      obtain rfl : "" = text := Option.some.inj h
      exact Style.closed_nil
  | cons field rest ih =>
      obtain ⟨key, value⟩ := field
      rw [declarations?.eq_def] at h
      rcases hfirst : value.literal?.bind (declaration? key) with _ | first
      · simp [hfirst] at h
      · rcases hrest : declarations? rest with _ | more
        · simp [hfirst, hrest] at h
        · obtain rfl : first ++ more = text := by simpa [hfirst, hrest] using h
          obtain ⟨literal, -, hliteral⟩ := Option.bind_eq_some_iff.mp hfirst
          rw [String.toList_append]
          exact (closed_declaration? hliteral).append (ih hrest)

mutual

/-- **If strings end with semicolons**, at every depth, the whole style text does. -/
theorem closed_styleText? (span : Option Span) : ∀ {value : Literal} {text : String},
    value.styleText? = some text →
    (∀ s place, .literal (.string s) place ∈ value.leaves span → Style.Closed s.toList) →
    Style.Closed text.toList
  | .array _, _, h, hstrings => closed_itemStyleTexts? h hstrings
  | .object _, _, h, _ => closed_declarations? h
  | .string s, text, h, hstrings => by
      obtain rfl : s = text := Option.some.inj h
      exact hstrings s span List.mem_cons_self
  | .undefined, _, h, _ => by
      obtain rfl := Option.some.inj h
      exact Style.closed_nil
  | .null, _, h, _ => by
      obtain rfl := Option.some.inj h
      exact Style.closed_nil
  | .bool false, _, h, _ => by
      obtain rfl := Option.some.inj h
      exact Style.closed_nil
  | .bool true, _, h, _ => by cases h
  | .number _, _, h, _ => by cases h
  | .regExp _ _, _, h, _ => by cases h

/-- The same for an array's items. -/
theorem closed_itemStyleTexts? : ∀ {items : List Node} {text : String},
    itemStyleTexts? items = some text →
    (∀ s place, .literal (.string s) place ∈ Node.leavesOf items → Style.Closed s.toList) →
    Style.Closed text.toList
  | [], _, h, _ => by
      obtain rfl := Option.some.inj h
      exact Style.closed_nil
  | .literal value span :: rest, text, h, hstrings => by
      rw [itemStyleTexts?.eq_def] at h
      rcases hfirst : value.styleText? with _ | first
      · simp [hfirst] at h
      · rcases hrest : itemStyleTexts? rest with _ | more
        · simp [hfirst, hrest] at h
        · obtain rfl : first ++ more = text := by simpa [hfirst, hrest] using h
          rw [String.toList_append]
          refine (closed_styleText? span hfirst fun s place hmem => ?_).append
            (closed_itemStyleTexts? hrest fun s place hmem => ?_)
          · exact hstrings s place (List.mem_append_left _ hmem)
          · exact hstrings s place (List.mem_append_right _ hmem)
  | .expr _ _ :: _, _, h, _ => by cases h
  | .text _ :: _, _, h, _ => by cases h
  | .tag _ :: _, _, h, _ => by cases h

end

/-- The leaves of an item are among those of the array. -/
theorem mem_leavesOf {items : List Node} {item leaf : Node} (hitem : item ∈ items)
    (hleaf : leaf ∈ item.leaves) : leaf ∈ Node.leavesOf items := by
  induction items with
  | nil => cases hitem
  | cons first rest ih =>
      rw [Node.leavesOf, List.mem_append]
      rcases List.mem_cons.mp hitem with rfl | hrest
      · exact .inl hleaf
      · exact .inr (ih hrest)

/-- **When an array keeps the declarations of its items apart**: of any two neighbours among the
texts of its items, empty ones left out, the first ends or the second begins with a semicolon.
It is enough that every string in it, at any depth, is empty or ends with a semicolon. -/
theorem declarations_styleText?_iff {items : List Node} {out : String}
    (h : (Literal.array items).styleText? = some out) :
    (∀ item ∈ items, item.styleText?.isSome = true) ∧
      (Style.declarations out = items.flatMap Node.declarations ↔
        ((items.filterMap Node.styleText?).filter (· ≠ "")).IsChain
          fun s t => Style.Apart s.toList t.toList) ∧
      ((∀ s place, .literal (.string s) place ∈ Node.leavesOf items → Style.Closed s.toList) →
        Style.declarations out = items.flatMap Node.declarations) := by
  obtain ⟨hsome, hout⟩ := of_itemStyleTexts? h
  have hiff : Style.declarations out = items.flatMap Node.declarations ↔ _ :=
    Node.flatMap_declarations items ▸ Style.declarations_join_iff hout
  refine ⟨hsome, hiff, fun hstrings => hiff.mpr ?_⟩
  refine (List.pairwise_of_forall_mem_list fun s hs _ _ => .inl ?_).isChain
  obtain ⟨hs, hne⟩ := List.mem_filter.mp hs
  obtain ⟨item, hitem, hs⟩ := List.mem_filterMap.mp hs
  obtain ⟨value, hvalue, hs⟩ := Option.bind_eq_some_iff.mp hs
  cases item with
  | literal value' span =>
      obtain rfl : value' = value := Option.some.inj hvalue
      refine (closed_styleText? span hs fun s place hleaf => ?_).getLast?_eq (by simpa using hne)
      exact hstrings s place (mem_leavesOf hitem hleaf)
  | expr _ _ => cases hvalue
  | text _ => cases hvalue
  | tag _ => cases hvalue

/-- Two strings, each of one declaration without a semicolon. -/
def twoStyles : List Node :=
  [.literal (.string "color:red") none, .literal (.string "margin:0") none]

/-- Arrays do not always keep declarations apart: two strings become one declaration. -/
theorem not_declarations_apart_twoStyles :
    ¬∀ items out, (Literal.array items).styleText? = some out →
      Style.declarations out = items.flatMap Node.declarations := by
  intro hapart
  have hfused := hapart twoStyles "color:redmargin:0" rfl
  exact absurd hfused (by decide)

/-- Strings and an object, some nested or empty, with a semicolon between any two. -/
def spacedStyles : List Node :=
  [.literal (.string "color:red;") none,
    .literal (.array
      [.literal (.object [("backgroundColor", .literal (.string "blue") none)]) none,
        .literal (.string "") none]) none,
    .literal .null none, .literal (.string "top:0") none, .literal (.string ";left:0") none]

/-- They keep their declarations. -/
theorem declarations_styleText?_iff_spacedStyles :
    (Literal.array spacedStyles).styleText? =
        some "color:red;background-color:blue;top:0;left:0" ∧
      Style.declarations "color:red;background-color:blue;top:0;left:0" =
        spacedStyles.flatMap Node.declarations := by
  have htext : (Literal.array spacedStyles).styleText? =
      some "color:red;background-color:blue;top:0;left:0" := by decide
  exact ⟨htext, (declarations_styleText?_iff htext).2.1.mpr (by decide)⟩

end Literal

end MarkupCompiler
