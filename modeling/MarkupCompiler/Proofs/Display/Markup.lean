import MarkupCompiler.Proofs.Display.Calls
import MarkupCompiler.Proofs.Display.Roots

/-!
# Emitted Markup Reads Back

A tag is **static** if all the calls of its chain are. A reader for the display of such a tag
splits its tokens at closing parentheses into calls, reads each call on its own and builds the
tree from the numbers of children. So the display determines the markup, and it shows nothing
else of the tag.

## Main results

* `Display.markup?` — the markup that a text displays.
* `Tag.markup?_display` — the display of a static tag reads back.
* `Tag.toList_code_eq_markup` — the code of a static tag is that of its markup.
* `Tag.lowerIn_display_iff` — the display of a lowered tag determines its markup.
-/

namespace MarkupCompiler

/-! ### The reader -/

namespace Display

/-- The calls of a complete token sequence, each with its closing parenthesis. -/
def calls? (tokens : List Token) : Option (List Call) :=
  (tokens.splitOn closing).dropLast.mapM call?

/-- The markup that a text displays. -/
def markup? (text : String) : Option Markup :=
  match ((tokens? text.toList).bind calls?).map (·.foldr Call.apply []) with
  | some [markup] => some markup
  | _ => none

end Display

/-! ### Chains of static calls -/

/-- Where lines are not indented, a call continues a chain one step in. -/
theorem Node.callLine_empty (node : Node) :
    node.callLine "" = '\n' :: ' ' :: ' ' :: (node.callCode "").toList := by
  simp [Node.callLine, CodeBuffer.indentUnit]

namespace Display

/-- No word goes on in the lines of calls. -/
theorem stops_callLines (nodes : List Node) {rest : List Char} (h : Stops rest) :
    Stops (nodes.flatMap (Node.callLine "") ++ rest) := by
  cases nodes with
  | nil => exact h
  | cons node nodes =>
      rw [List.flatMap_cons, Node.callLine_empty]
      exact Stops.cons (by decide) _

variable {nodes : List Node} (h : ∀ node ∈ nodes, node.IsStaticCall)

include h

/-- The lines of static calls lex as the tokens of the calls. -/
theorem lexes_callLines :
    Lexes (nodes.flatMap (Node.callLine ""))
      (nodes.flatMap fun node => node.callTokens ++ [closing]) := by
  induction nodes with
  | nil => exact Lexes.nil
  | cons node rest ih =>
      have hline : Lexes (node.callLine "") (node.callTokens ++ [closing]) := by
        rw [Node.callLine_empty]
        exact (Node.lexes_callCode (h node List.mem_cons_self)).cons_blank.cons_blank.cons_of_isBlank
          (by decide)
      rw [List.flatMap_cons, List.flatMap_cons]
      exact hline.append (ih fun other hmem => h other (List.mem_cons_of_mem node hmem))
        fun _ => stops_callLines rest

/-- The calls of a chain read back. -/
theorem calls?_flatMap_callTokens :
    calls? (nodes.flatMap fun node => node.callTokens ++ [closing]) =
      some (nodes.map Node.call) := by
  have hsplit : (nodes.flatMap fun node => node.callTokens ++ [closing]).splitOn closing =
      nodes.map Node.callTokens ++ [[]] := by
    induction nodes with
    | nil => rfl
    | cons node rest ih =>
        rw [List.flatMap_cons, List.append_assoc, List.singleton_append,
          List.splitOn_append_cons_self_of_not_mem
            (Node.closing_notMem_callTokens (h node List.mem_cons_self)),
          ih fun other hmem => h other (List.mem_cons_of_mem node hmem), List.map_cons,
          List.cons_append]
  rw [calls?, hsplit, List.dropLast_concat]
  exact mapM_map_eq_some fun node hmem => Node.call?_callTokens (h node hmem)

end Display

/-! ### The display of a static tag -/

/-- A static call is one of a text run or a tag. -/
theorem Node.IsStaticCall.isPart {node : Node} (h : node.IsStaticCall) : node.IsPart := by
  cases h <;> trivial

/-- A static tag is displayed as its code. -/
theorem Tag.display_eq_code {tag : Tag} (hroot : (Node.tag tag).IsStaticCall)
    (hbody : ∀ node ∈ Node.chain tag.body, node.IsStaticCall) : tag.display = tag.code "" := by
  have hbelow : ∀ part ∈ (Node.tag tag).followers, part.IsPart := by
    rw [Node.followers_tag]
    exact fun part hpart => (hbody part hpart).isPart
  have hdisplay := Node.display_eq_code hroot.isPart hbelow
  rw [Node.display, Node.code] at hdisplay
  exact hdisplay

/-- **The display of a static tag reads back.** -/
theorem Tag.markup?_display {tag : Tag} (hroot : (Node.tag tag).IsStaticCall)
    (hbody : ∀ node ∈ Node.chain tag.body, node.IsStaticCall) :
    Display.markup? tag.display = some tag.markup := by
  have hcode := Node.toList_code_eq_chain "" (.tag tag)
  rw [Node.code, Node.followers_tag] at hcode
  have hlexes : Display.Lexes (tag.code "").toList
      ((.tag tag :: Node.chain tag.body).flatMap fun node =>
        node.callTokens ++ [Display.closing]) := by
    rw [hcode, List.flatMap_cons]
    exact (Node.lexes_callCode hroot).append (Display.lexes_callLines hbody)
      fun _ => Display.stops_callLines _
  have hcalls := Display.calls?_flatMap_callTokens (List.forall_mem_cons.mpr ⟨hroot, hbody⟩)
  have hbuild : ((Node.tag tag :: Node.chain tag.body).map Node.call).foldr Call.apply [] =
      [tag.markup] := by
    rw [← Node.followers_tag, Node.map_call_followers]
    exact Markup.foldr_apply_calls [] tag.markup
  rw [Display.markup?, Tag.display_eq_code hroot hbody, hlexes.tokens?_eq, Option.bind_some,
    hcalls, Option.map_some, hbuild]

/-! ### The display of markup -/

theorem Binary64.text_canonical (x : Binary64) : x.canonical.text = x.text := by
  cases x.kind with
  | nan hnan htext =>
      rw [htext, Binary64.canonical, if_pos hnan]
      rfl
  | infinite negative hx htext =>
      rw [hx]
      cases negative <;> rfl
  | zero hnan hzero htext =>
      rw [htext, Binary64.canonical]
      simp only [hnan, hzero, Bool.false_eq_true, if_false, if_true]
      rfl
  | digits hnan hinfinite hzero =>
      rw [Binary64.canonical]
      simp only [hnan, hzero, Bool.false_eq_true, if_false]

/-- What the display of data shows has this display. -/
theorem Node.display_datum {node : Node} (h : node.Everywhere Node.IsDatum) :
    node.datum.display = node.display := by
  induction node using Node.induction with
  | step node ih =>
    obtain ⟨htop, hbelow⟩ := Node.everywhere_iff.mp h
    have hchildren : ∀ child ∈ node.children, child.canonical.display = child.display := by
      intro child hmem
      rw [Node.canonical_of_isDatum (hbelow child hmem child .here), Node.display]
      exact ih child hmem (hbelow child hmem)
    cases node with
    | literal value span =>
        rw [Node.datum, Node.display]
        cases value with
        | number value =>
            rw [Literal.canonical, Literal.display, Literal.display, Binary64.text_canonical]
        | array items =>
            have hitems : items.map (Node.display ∘ Node.canonical) = items.map Node.display :=
              List.map_congr_left hchildren
            rw [Literal.canonical, Literal.display, Literal.display, Literal.itemDisplays_eq_map,
              Literal.itemDisplays_eq_map, Literal.canonicalItems_eq_map, List.map_map, hitems]
        | object fields =>
            have hfields : ((fields.map fun field => (field.1, field.2.canonical)).map fun field =>
                  Text.propertyKey field.1 ++ ": " ++ field.2.display) =
                fields.map fun field => Text.propertyKey field.1 ++ ": " ++ field.2.display := by
              rw [List.map_map]
              exact List.map_congr_left fun field hmem => congrArg (_ ++ ·)
                (hchildren field.2 (List.mem_map_of_mem hmem))
            rw [Literal.canonical, Literal.canonicalFields_eq_map]
            cases fields with
            | nil => rfl
            | cons field fields =>
                rw [List.map_cons, Literal.display, Literal.display, Literal.fieldDisplays_eq_map,
                  Literal.fieldDisplays_eq_map, ← hfields]
                rfl
        | regExp pattern flags => exact absurd htop id
        | _ => rfl
    | expr value span => exact absurd htop id
    | text run => exact absurd htop id
    | tag tag => exact absurd htop id

/-- The code of a call, where a chain starts with `out` and goes on with nothing. -/
def Call.code (start : String) : Call → String
  | .text escape arguments =>
    start ++ (if escape then ".t" else ".h") ++ "(" ++
      " +\n  ".intercalate (arguments.map Literal.display) ++ ")"
  | .element name attributes count =>
    start ++ ".e(" ++ Text.quote name ++ ", " ++
      (if attributes.isEmpty then "null"
       else "\x7b " ++ ", ".intercalate (attributes.map fun field =>
        Text.propertyKey field.1 ++ ": " ++ field.2.display) ++ " \x7d") ++
      ", " ++ toString count ++ ")"

/-- The code of markup: a chain of calls. -/
def Markup.code (markup : Markup) : List Char :=
  match markup.calls with
  | [] => []
  | call :: rest =>
    (call.code "out").toList ++ rest.flatMap fun call => '\n' :: ' ' :: ' ' :: (call.code "").toList

/-- The code of a static tag's call is given by the call. -/
theorem Tag.callCode_eq {tag : Tag}
    (hshown : ∀ value ∈ (Node.tag tag).shown, value.Everywhere Node.IsDatum) :
    (Node.tag tag).callCode "" = (Node.tag tag).call.code (if tag.isChild then "" else "out") := by
  have hcodes : (tag.attributes.map fun attr =>
        Text.propertyKey attr.name ++ ": " ++ attr.value.code "") =
      (tag.attributes.map fun attr => (attr.name, attr.value.datum)).map fun field =>
        Text.propertyKey field.1 ++ ": " ++ field.2.display := by
    rw [List.map_map]
    refine List.map_congr_left fun attr hmem => ?_
    have hvalue := hshown attr.value (List.mem_map_of_mem hmem)
    rw [Node.code_of_isDatum (hvalue _ .here), ← Node.display_datum hvalue]
    rfl
  rw [Node.callCode, Tag.attributeCodes_eq_map, hcodes, Node.call, Call.code, List.isEmpty_map]
  cases tag.isChild <;> simp

/-- So is the code of a static call that continues a chain. -/
theorem Node.callCode_eq {node : Node} (h : node.IsStaticCall) (hchild : node.IsChildPart) :
    node.callCode "" = node.call.code "" := by
  cases h with
  | @tag t hshown =>
      have ht : t.isChild = true := hchild
      rw [Tag.callCode_eq hshown, if_pos ht]
  | @text run hchild hshown =>
      have hdisplays : run.arguments.map Node.display =
          (run.arguments.map Node.datum).map Literal.display := by
        rw [List.map_map]
        exact List.map_congr_left fun argument hmem =>
          (Node.display_datum (hshown argument hmem)).symm
      rw [TextRun.callCode_of_isChild hchild fun argument hmem => hshown argument hmem _ .here,
        hdisplays, Node.call, Call.code, String.empty_append]

/-- **The code of a static tag is that of its markup.** -/
theorem Tag.toList_code_eq_markup {tag : Tag} (htag : tag.isChild = false)
    (hroot : (Node.tag tag).IsStaticCall)
    (hbody : ∀ node ∈ Node.chain tag.body, node.IsStaticCall ∧ node.IsChildPart) :
    (tag.code "").toList = tag.markup.code := by
  have hcode := Node.toList_code_eq_chain "" (.tag tag)
  have hlines : (Node.chain tag.body).flatMap (Node.callLine "") =
      ((Node.chain tag.body).map Node.call).flatMap fun call =>
        '\n' :: ' ' :: ' ' :: (call.code "").toList := by
    rw [List.flatMap_map, List.flatMap_def, List.flatMap_def]
    refine congrArg List.flatten (List.map_congr_left fun node hmem => ?_)
    obtain ⟨hcall, hchild⟩ := hbody node hmem
    rw [Node.callLine_empty, Node.callCode_eq hcall hchild]
  have hcall : (Node.tag tag).callCode "" = (Node.tag tag).call.code "out" := by
    cases hroot with
    | tag hshown => rw [Tag.callCode_eq hshown, htag, if_neg Bool.false_ne_true]
  rw [Node.code, Node.followers_tag, hlines, hcall] at hcode
  rw [hcode, Markup.code, Tag.markup, ← Node.map_call_followers, Node.followers_tag,
    List.map_cons]

/-! ### Lowered tags -/

/-- The tag is **static**: attribute values and text arguments are data, in the tag and in all
that is reached from it through bodies. -/
def Tag.IsStatic (tag : Tag) : Prop :=
  ∀ node : Node, node.Reached [.tag tag] → ∀ value ∈ node.shown, value.Everywhere Node.IsDatum

/-- The calls of a lowered tag are static, if it is, and continue its chain. -/
theorem Tag.IsStatic.isStaticCall {tag : Tag} {converter : String}
    (h : (tag.lower converter).IsStatic) :
    (Node.tag (tag.lower converter)).IsStaticCall ∧
      ∀ node ∈ Node.chain (tag.lower converter).body, node.IsStaticCall ∧ node.IsChildPart := by
  have hlowered := Node.everywhere_lowered converter (.tag tag)
  rw [Node.lower] at hlowered
  have hbody : Node.IsBody (tag.lower converter).body := hlowered _ .here
  refine ⟨.tag (h _ (.root List.mem_cons_self)), fun node hnode => ?_⟩
  have hreached := Node.mem_chain_iff.mp hnode
  have hchild : node.IsChildPart := hreached.isChildPart fun root hroot =>
    ⟨hbody.isChildPart root hroot, fun part hpart =>
      hlowered part (.inside (Tag.mem_children_iff.mpr (.inr hroot)) hpart)⟩
  have hshown := h node (.body List.mem_cons_self hreached)
  refine ⟨?_, hchild⟩
  cases node with
  | text run => exact .text hchild hshown
  | tag t => exact .tag hshown
  | literal value span => exact absurd hchild id
  | expr value span => exact absurd hchild id

/-- **The display of a lowered tag determines its markup.** For roots that are static once they
are lowered, the display reads back as the markup: the names, attributes and bodies of all
elements, and the escaping and the arguments of all text, in order and in their nesting. So two
such displays are the same exactly if the markup is. -/
theorem Tag.lowerIn_display_iff {tag tag' : Tag} {unit unit' : CompileUnit}
    (htag : tag.isChild = false) (htag' : tag'.isChild = false)
    (hstatic : (tag.lowerIn unit).1.IsStatic) (hstatic' : (tag'.lowerIn unit').1.IsStatic) :
    Display.markup? (tag.lowerIn unit).1.display = some (tag.lowerIn unit).1.markup ∧
      ((tag.lowerIn unit).1.display = (tag'.lowerIn unit').1.display ↔
        (tag.lowerIn unit).1.markup = (tag'.lowerIn unit').1.markup) := by
  have hread : ∀ {tag : Tag} {converter : String}, (tag.lower converter).IsStatic →
      Display.markup? (tag.lower converter).display = some (tag.lower converter).markup := by
    intro tag converter h
    obtain ⟨hroot, hbody⟩ := h.isStaticCall
    exact Tag.markup?_display hroot fun node hmem => (hbody node hmem).1
  have hcode : ∀ {tag : Tag} {converter : String}, tag.isChild = false →
      (tag.lower converter).IsStatic →
      (tag.lower converter).display.toList = (tag.lower converter).markup.code := by
    intro tag converter htag h
    obtain ⟨hroot, hbody⟩ := h.isStaticCall
    rw [Tag.display_eq_code hroot fun node hmem => (hbody node hmem).1]
    exact Tag.toList_code_eq_markup (by rw [Tag.lower_eq]; exact htag) hroot hbody
  refine ⟨hread hstatic, fun heq => ?_, fun heq => ?_⟩
  · have hsame := hread hstatic
    have hdisplay : (tag.lower unit.converter).display = (tag'.lower unit'.converter).display := heq
    rw [hdisplay, hread hstatic'] at hsame
    exact (Option.some.inj hsame).symm
  · refine String.toList_inj.mp ?_
    exact (hcode htag hstatic).trans ((congrArg Markup.code heq).trans (hcode htag' hstatic').symm)

/-- A list of two items, with an attribute and a text that look like calls. -/
def Tag.trickyList : Tag :=
  { Tag.named "ul" with
    attributes := [{ Attribute.flag "title" with value := .literal (.string "\", null, 1)") none }]
    body :=
      [.tag { Tag.named "li" with
          body := [.literal (.string ")\n  .e(\"li\", null, 0)") none] },
        .tag (Tag.named "li")] }

theorem Tag.isStatic_trickyList : (Tag.trickyList.lowerIn { config := {} }).1.IsStatic := by
  intro node hnode value hvalue
  have hshown : (Node.chain [.tag (Tag.trickyList.lowerIn { config := {} }).1]).flatMap
      Node.shown = [.literal (.string "\", null, 1)") none,
        .literal (.string ")\n  .e(\"li\", null, 0)") none] := rfl
  have hmem := List.mem_flatMap.mpr ⟨node, Node.mem_chain_iff.mpr hnode, hvalue⟩
  rw [hshown, List.mem_cons, List.mem_singleton] at hmem
  rcases hmem with rfl | rfl <;> exact Node.everywhere_iff.mpr ⟨trivial, nofun⟩

/-- Its display reads back as the list, with the text in the first item. -/
theorem Tag.lowerIn_display_iff_trickyList :
    (Tag.trickyList.lowerIn { config := {} }).1.IsStatic ∧
      Display.markup? (Tag.trickyList.lowerIn { config := {} }).1.display =
        some (.element "ul" [("title", .string "\", null, 1)")]
          [.element "li" [] [.text true [.string ")\n  .e(\"li\", null, 0)"]],
            .element "li" [] []]) :=
  ⟨Tag.isStatic_trickyList, (Tag.lowerIn_display_iff rfl rfl Tag.isStatic_trickyList
    Tag.isStatic_trickyList).1⟩

end MarkupCompiler
