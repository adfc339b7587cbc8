import Scaffold.Fragment
import Scaffold.Proofs.Element.Listing
import Scaffold.Proofs.Element.Precedence
import Scaffold.Proofs.Sketch.Reading

/-!
# From the style sheet of a sketch to its markup

The fragment of the style sheet of a page is the markup of the page (`fragment_sheet`).  The proof
follows the library: the sheet is read into one rule for each node, every rule becomes the bare
element of its node, the elements are the listing of a forest whose paths tell its shape and so
nest into that forest, and the forest is rendered as the sketches are.
-/

namespace Scaffold

open Scaffold.Css Scaffold.Text

/-! ## From text to rules -/

namespace Mark

/-- The rule that is read for a mark. -/
def read (above : List Mark) (m : Mark) : Rule :=
  .style (selector (above ++ [m])) (m.bodies.map .comment)

theorem lex_compound (m : Mark) {t : Text} (h : Follows t) :
    ∃ rest, lex (m.compound ++ t) = some (.ident m.tag.text, rest) := by
  obtain ⟨-, hfollows⟩ := findBlock?_classes m.classes h
  rw [compound, List.append_assoc, List.append_assoc]
  cases m.id with
  | none => exact ⟨_, lex_plainName m.tag hfollows⟩
  | some id => exact ⟨_, lex_plainName m.tag ⟨'#', _, rfl, Or.inl rfl⟩⟩

/-- A selector starts with the tag of its first mark. -/
theorem lex_selector {path : List Mark} (h : path ≠ []) (t : Text) :
    ∃ n rest, lex (selector path ++ ' ' :: t) = some (.ident n, rest) := by
  cases path with
  | nil => exact absurd rfl h
  | cons m path =>
    cases path with
    | nil =>
      rw [selector_singleton]
      exact ⟨_, m.lex_compound ⟨' ', _, rfl, Or.inr (Or.inr rfl)⟩⟩
    | cons k path =>
      rw [selector_cons_cons, List.append_assoc, List.cons_append]
      exact ⟨_, m.lex_compound ⟨' ', _, rfl, Or.inr (Or.inr rfl)⟩⟩

end Mark

/-- The rule of a mark is the first item of a sheet that starts with it. -/
theorem readItems_rule (above : List Mark) (m : Mark) (t : Text) :
    readItems (.start (m.rule above ++ t)) =
      Prod.map (Item.style [Mark.selector (above ++ [m])]
        (m.bodies.map fun body => .declaration (.comment body)) :: ·) id
        (readItems (.start t)) := by
  have hne : above ++ [m] ≠ [] := by simp
  have htext : m.rule above ++ t =
      Mark.selector (above ++ [m]) ++ ' ' :: '{' :: (m.remarks ++ ' ' :: '}' :: t) := by
    simp [Mark.rule]
  have hstretch : upTo (m.rule above ++ t) ('{' :: (m.remarks ++ ' ' :: '}' :: t)) =
      Mark.selector (above ++ [m]) ++ [' '] := by
    have := upTo_append (Mark.selector (above ++ [m]) ++ [' '])
      ('{' :: (m.remarks ++ ' ' :: '}' :: t))
    rwa [List.append_assoc, List.singleton_append, ← htext] at this
  obtain ⟨n, rest, hlex⟩ := Mark.lex_selector hne ('{' :: (m.remarks ++ ' ' :: '}' :: t))
  have hblock := findBlock?_selector hne (m.remarks ++ ' ' :: '}' :: t)
  rw [← htext] at hlex hblock
  rw [readItems_style hlex rfl rfl hblock (m.readBlock_remarks t), hstretch,
    splitSelectors_selector hne]

/-- The item that is read for a mark is its rule. -/
theorem rule_style (above : List Mark) (m : Mark) :
    Item.rule (.style [Mark.selector (above ++ [m])]
      (m.bodies.map fun body => .declaration (.comment body))) = m.read above := by
  simp only [Item.rule, Mark.read, Rule.style, declarations, Rule.mk.injEq, true_and,
    List.filterMap_map]
  induction m.bodies with
  | nil => rfl
  | cons body bodies ih => rw [List.filterMap_cons, List.map_cons, ih]; rfl

namespace Sketch

mutual

/-- The rules that are read for a sketch below the given marks. -/
def rules (above : List Mark) : Sketch → List Rule
  | .node m children => m.read above :: rulesAll (above ++ [m]) children

/-- The rules that are read for a list of sketches. -/
def rulesAll (above : List Mark) : List Sketch → List Rule
  | [] => []
  | s :: ss => s.rules above ++ rulesAll above ss

end

mutual

/-- A sketch in front of a sheet is read as its rules, in front of those of the sheet. -/
theorem readItems_css (t : Text) : ∀ (above : List Mark) (s : Sketch),
    ((readItems (.start (s.css above ++ t))).1.map Item.rule,
      (readItems (.start (s.css above ++ t))).2) =
      (s.rules above ++ (readItems (.start t)).1.map Item.rule, (readItems (.start t)).2)
  | above, .node m children => by
    have ih := readItems_cssAll t (above ++ [m]) children
    rw [Prod.mk.injEq] at ih
    rw [css, rules, List.append_assoc, readItems_rule]
    simp only [Prod.map_fst, Prod.map_snd, List.map_cons, id_eq, rule_style, ih,
      List.cons_append]

/-- The style sheet of sketches is read as their rules, whatever follows it. -/
theorem readItems_cssAll (t : Text) : ∀ (above : List Mark) (ss : List Sketch),
    ((readItems (.start (cssAll above ss ++ t))).1.map Item.rule,
      (readItems (.start (cssAll above ss ++ t))).2) =
      (rulesAll above ss ++ (readItems (.start t)).1.map Item.rule, (readItems (.start t)).2)
  | _, [] => rfl
  | above, s :: ss => by
    have ih := readItems_cssAll t above ss
    rw [Prod.mk.injEq] at ih
    rw [cssAll, rulesAll, List.append_assoc, readItems_css (cssAll above ss ++ t) above s, ih.1,
      ih.2, List.append_assoc]

end

theorem parse_sheet (roots : List Sketch) : Css.parse (sheet roots) = .ok (rulesAll [] roots) := by
  have h := readItems_cssAll [] [] roots
  rw [List.append_nil, readItems_nil, List.map_nil, List.append_nil, Prod.mk.injEq] at h
  rw [Css.parse, Css.read, sheet]
  obtain ⟨hrules, herror⟩ := h
  cases hread : readItems (.start (cssAll [] roots)) with
  | mk items error =>
    rw [hread] at hrules herror
    simp only at hrules herror
    rw [herror, ← hrules]
    rfl

end Sketch

/-! ## From rules to elements -/

/-- The comment of a note gives its text to the place of its label. -/
theorem labelled?_body (n : Note) {label : Text} {slot : Slot}
    (h : label ++ ":".toList = slot.label) : labelled? (n.body label) = some (slot, n.text) := by
  refine labelled?_eq_some_iff.2 ⟨[' '], slot.label, n.text ++ [' '], ?_, ?_, slot.lower_label,
    Or.inl rfl⟩
  · rw [← h, Note.body]
    simp
  · simp [isBlank]

namespace Mark

/-- The texts of a mark, in their places. -/
def slots (m : Mark) : Slots where
  before := m.before.map Note.text
  inside := m.inside.map Note.text
  after := m.after.map Note.text

theorem comments_read (above : List Mark) (m : Mark) : (m.read above).comments = m.bodies := by
  simp only [Rule.comments, read, Rule.style, List.filterMap_map, Function.comp_def,
    List.filterMap_some]

theorem properties_read (above : List Mark) (m : Mark) : (m.read above).properties = [] := by
  simp [Rule.properties, read, Rule.style, List.filterMap_map]

/-- The comments of a mark fill its places. -/
theorem slots_read (above : List Mark) (m : Mark) : Slots.ofRule (m.read above) = m.slots := by
  have hdeclared : declaredSlots (m.read above) = {} := by
    rw [declaredSlots, Rule.value?, properties_read]
    rfl
  have hbefore (n : Note) : labelled? (n.body "text-before".toList) = some (.before, n.text) :=
    labelled?_body n rfl
  have hinside (n : Note) : labelled? (n.body "text".toList) = some (.inside, n.text) :=
    labelled?_body n rfl
  have hafter (n : Note) : labelled? (n.body "text-after".toList) = some (.after, n.text) :=
    labelled?_body n rfl
  rw [Slots.ofRule, hdeclared, comments_read, bodies, slots]
  cases m.before <;> cases m.inside <;> cases m.after <;>
    simp only [Option.toList_none, Option.toList_some, List.map_nil, List.map_cons,
      List.nil_append, List.cons_append, List.foldl_nil, List.foldl_cons, hbefore, hinside,
      hafter] <;> rfl

theorem declaredAttributes_read (above : List Mark) (m : Mark) :
    declaredAttributes (m.read above) = [] := by
  rw [declaredAttributes, properties_read, List.flatMap_nil]

theorem isSupported_read (above : List Mark) (m : Mark) : (m.read above).isSupported = true := by
  have hchars : (selector (above ++ [m])).any unsupportedChars.contains = false := by
    rw [List.any_eq_false]
    intro c hc
    rcases mem_selector hc with rfl | h | rfl | rfl
    · decide
    · show ¬ [':', '*', '+', '>', '~', '|'].contains c = true
      rw [List.contains_iff_mem]
      simp only [List.mem_cons, List.not_mem_nil, or_false, not_or]
      refine ⟨?_, ?_, ?_, ?_, ?_, ?_⟩ <;>
        exact ne_of_apply_ne isPlainChar (h.trans_ne (by decide))
    · decide
    · decide
  exact Rule.isSupported_style hchars _

/-- The element of a mark. -/
def element (above : List Mark) (m : Mark) (children : List Element) : Element where
  path := ⟨selector (above ++ [m])⟩
  tag := m.tag.text
  id := m.id.map PlainName.text
  classes := m.classes.map PlainName.text
  attributes := []
  slots := m.slots
  children := children
  rendered := none

/-- The rule of a mark makes the element of the mark. -/
theorem ofRule?_read (above : List Mark) (m : Mark) :
    Element.ofRule? (m.read above) = some (m.element above []) := by
  have hselector : (m.read above).selector? = some (selector (above ++ [m])) := rfl
  rw [Element.ofRule?, hselector, Option.map_some]
  simp only [own_selector, parse_compound, slots_read, declaredAttributes_read]
  rfl

end Mark

namespace Sketch

mutual

/-- The element of a sketch, with the elements below it. -/
def element (above : List Mark) : Sketch → Element
  | .node m children => m.element above (elementAll (above ++ [m]) children)

/-- The elements of a list of sketches. -/
def elementAll (above : List Mark) : List Sketch → List Element
  | [] => []
  | s :: ss => s.element above :: elementAll above ss

end

theorem elements_read (above : List Mark) (m : Mark) (rules : List Rule) :
    elements (m.read above :: rules) = m.element above [] :: elements rules := by
  rw [elements, supported, List.filter_cons_of_pos (m.isSupported_read above),
    List.filterMap_cons_some (m.ofRule?_read above), elements, supported]

mutual

/-- The elements of a sketch's rules are the listing of its tree. -/
theorem elements_rules : ∀ (above : List Mark) (s : Sketch),
    elements (s.rules above) = (s.element above).listing
  | above, .node m children => by
    rw [rules, elements_read, elements_rulesAll (above ++ [m]) children, element,
      Element.listing_eq]
    rfl

/-- The elements of the rules are the listing of the forest. -/
theorem elements_rulesAll : ∀ (above : List Mark) (ss : List Sketch),
    elements (rulesAll above ss) = Element.listingAll (elementAll above ss)
  | _, [] => rfl
  | above, s :: ss => by
    rw [rulesAll, elements_append, elements_rules above s, elements_rulesAll above ss, elementAll,
      Element.listingAll]

end

end Sketch

/-! ## From elements to the forest -/

theorem Mark.isParentOf_selector {above : List Mark} (h : above ≠ []) (m : Mark) :
    Selector.Path.isParentOf ⟨selector above⟩ ⟨selector (above ++ [m])⟩ = true := by
  rw [Selector.Path.isParentOf, own_selector, beq_iff_eq, selector_concat h]

namespace Sketch

mutual

/-- The paths of the elements of a sketch tell its shape. -/
theorem nested_element : ∀ (above : List Mark) (s : Sketch), (s.element above).Nested
  | above, .node m children => by
    rw [element, Mark.element, Element.Nested]
    exact nestedUnder_elementAll (by simp) children

theorem nestedUnder_elementAll {above : List Mark} (h : above ≠ []) : ∀ ss : List Sketch,
    Element.NestedUnder ⟨Mark.selector above⟩ (elementAll above ss)
  | [] => by rw [elementAll, Element.NestedUnder]; trivial
  | .node m children :: ss => by
    rw [elementAll, Element.NestedUnder]
    refine ⟨?_, nested_element above _, nestedUnder_elementAll h ss⟩
    rw [element]
    exact Mark.isParentOf_selector h m

end

theorem mem_elementAll {above : List Mark} {ss : List Sketch} {e : Element}
    (h : e ∈ elementAll above ss) : ∃ s ∈ ss, e = s.element above := by
  induction ss with
  | nil => simp [elementAll] at h
  | cons s ss ih =>
    rw [elementAll] at h
    rcases List.mem_cons.1 h with rfl | h
    · exact ⟨s, List.mem_cons_self, rfl⟩
    · obtain ⟨r, hr, rfl⟩ := ih h
      exact ⟨r, List.mem_cons_of_mem _ hr, rfl⟩

/-- The rules of a page nest into its forest. -/
theorem nest_elements (roots : List Sketch) :
    nest (elements (rulesAll [] roots)) = elementAll [] roots := by
  rw [elements_rulesAll]
  refine nest_listingAll fun e he => ?_
  obtain ⟨s, -, rfl⟩ := mem_elementAll he
  refine ⟨nested_element [] s, ?_⟩
  obtain ⟨m, children⟩ := s
  rw [element]
  show Mark.selector [m] ≠ [] ∧ ' ' ∉ Mark.selector [m]
  rw [Mark.selector_singleton]
  exact ⟨m.compound_ne_nil, m.space_notMem_compound⟩

end Sketch

/-! ## From the forest to the markup -/

namespace Mark

theorem openTag_element (above : List Mark) (m : Mark) (children : List Element) :
    (m.element above children).openTag = m.openTag := by
  have hclasses : (m.classes.map PlainName.text).isEmpty = m.classes.isEmpty := by
    cases m.classes <;> rfl
  unfold Element.openTag openTag Element.isSelfClosing element
  dsimp only
  rw [hclasses, List.append_nil]
  cases m.id with
  | none => rfl
  | some id => rw [Option.toList_some, List.flatMap_singleton]; rfl

theorem closeTag_element (above : List Mark) (m : Mark) (children : List Element) :
    (m.element above children).closeTag?.getD [] = m.closeTag := by
  unfold Element.closeTag? closeTag Element.isSelfClosing element
  cases isVoid m.tag.text <;> rfl

end Mark

namespace Sketch

theorem hasTextBefore_element (above : List Mark) (s : Sketch) :
    (s.element above).hasTextBefore = !(Mark.noteText s.mark.before).isEmpty := by
  obtain ⟨m, children⟩ := s
  rw [element, Element.hasTextBefore, Mark.element, Mark.slots, mark, Mark.noteText]
  cases m.before <;> rfl

/-- The first child stands on a line of its own unless it has a text in front of it. -/
theorem childLines_element (above : List Mark) (m : Mark) (s : Sketch) (ss : List Sketch)
    (markups : List Text) :
    (m.element above (elementAll (above ++ [m]) (s :: ss))).childLines markups =
      lineBreak (s :: ss) ++ markups.flatMap asLine := by
  have hfirst : (m.element above (elementAll (above ++ [m]) (s :: ss))).children.head? =
      some (s.element (above ++ [m])) := by
    show (elementAll (above ++ [m]) (s :: ss)).head? = _
    rw [elementAll, List.head?_cons]
  rw [Element.childLines, hfirst, Option.any_some, hasTextBefore_element, lineBreak]
  cases Mark.noteText s.mark.before <;> rfl

theorem markupLines_eq (ss : List Sketch) : markupLines ss = (ss.map markup).flatMap asLine := by
  induction ss with
  | nil => rfl
  | cons s ss ih => rw [markupLines, ih, List.map_cons, List.flatMap_cons]

theorem plan_children_element (above : List Mark) (m : Mark) (children : List Sketch) :
    ((m.element above (elementAll (above ++ [m]) children)).plan
        (children.map markup)).children.getD [] =
      lineBreak children ++ markupLines children := by
  cases children with
  | nil => rfl
  | cons s ss =>
    rw [markupLines_eq, ← childLines_element]
    rfl

/-- An element is put together as its sketch is, once its children are. -/
theorem markup_plan_element (above : List Mark) (m : Mark) (children : List Sketch) :
    ((m.element above (elementAll (above ++ [m]) children)).plan
      (children.map markup)).markup = (node m children).markup := by
  have hchildren := plan_children_element above m children
  have hafter : (m.slots.after.map fun text => text ++ ['\n']).getD [] = m.trailer := by
    rw [Mark.slots, Mark.trailer]
    cases m.after <;> simp
  generalize hes : elementAll (above ++ [m]) children = es at hchildren
  have hmarkup : ((m.element above es).plan (children.map markup)).markup =
      Mark.noteText m.before ++ ((m.element above es).openTag ++ (Mark.noteText m.inside ++
        (((m.element above es).plan (children.map markup)).children.getD [] ++
          ((m.element above es).closeTag?.getD [] ++
            ((m.slots.after.map fun text => text ++ ['\n']).getD [] ++ []))))) := rfl
  rw [hmarkup, hchildren, hafter, Mark.openTag_element, Mark.closeTag_element, markup]
  simp only [List.append_assoc, List.append_nil]

mutual

/-- An element that was not rendered is rendered as its sketch is written. -/
theorem render_element : ∀ (above : List Mark) (s : Sketch),
    (s.element above).render.1 = s.markup
  | above, .node m children => by
    have ih := renderAll_elementAll (above ++ [m]) children
    rw [← markup_plan_element above, ← ih, element, Mark.element, Element.render]

/-- The elements of sketches are rendered as the sketches are. -/
theorem renderAll_elementAll : ∀ (above : List Mark) (ss : List Sketch),
    (Element.renderAll (elementAll above ss)).map Prod.fst = ss.map markup
  | _, [] => rfl
  | above, s :: ss => by
    rw [elementAll, Element.renderAll, List.map_cons, render_element above s,
      renderAll_elementAll above ss, List.map_cons]

end

theorem renderRoots_elementAll (roots : List Sketch) :
    (renderRoots (elementAll [] roots)).1 = page roots := by
  have hpage : page roots = (roots.map markup).flatMap fun t => t ++ "\n".toList := by
    rw [page, List.flatMap_map]
  rw [hpage, ← renderAll_elementAll [] roots, List.flatMap_map]
  rfl

end Sketch

/-! ## The fragment of a page's style sheet -/

/-- The fragment of the style sheet of a page with at least one root is the page itself. -/
theorem fragment_sheet {roots : List Sketch} (h : roots ≠ []) :
    fragment (Sketch.sheet roots) = .ok (some (Sketch.page roots)) := by
  have hpage : page? (Sketch.rulesAll [] roots) =
      some (renderRoots (Sketch.elementAll [] roots)).1 := by
    rw [page?, Sketch.nest_elements]
    cases roots with
    | nil => exact absurd rfl h
    | cons s roots => rw [Sketch.elementAll]
  rw [fragment, Sketch.parse_sheet]
  show Except.ok (page? (Sketch.rulesAll [] roots)) = _
  rw [hpage, Sketch.renderRoots_elementAll]

/-- Two lists with one selector, whose items have one selector too.  The texts hold what would
mean something outside a comment. -/
def twinLists : List Sketch :=
  let note (text : Text) (h : ¬ "*/".toList <:+: text) : Option Note := some ⟨text, h⟩
  let menu : Mark :=
    { tag := ⟨"ul".toList, by decide⟩, id := none
      classes := [⟨"m-1".toList, by decide⟩, ⟨"m2".toList, by decide⟩]
      before := none, inside := none, after := none, distinct := by decide }
  let item : Mark :=
    { tag := ⟨"li".toList, by decide⟩, id := some ⟨"x".toList, by decide⟩, classes := []
      before := note "\x7d/*".toList (by decide), inside := note "*".toList (by decide)
      after := none, distinct := by decide }
  let rule : Mark :=
    { tag := ⟨"hr".toList, by decide⟩, id := none, classes := []
      before := none, inside := none, after := note [] (by decide), distinct := by decide }
  [.node menu [.node item [], .node item [.node rule []]], .node menu [.node rule []]]

set_option maxRecDepth 2000 in
theorem fragment_sheet_twinLists :
    twinLists ≠ [] ∧
      (twinLists.map fun s => String.ofList s.markup) =
      ["<ul class=\"m-1 m2\">\x7d/*<li id=\"x\">*</li>\n\x7d/*<li id=\"x\">*\n<hr />\n</li>\n</ul>",
        "<ul class=\"m-1 m2\">\n<hr />\n</ul>"] ∧
      fragment (Sketch.sheet twinLists) = .ok (some (Sketch.page twinLists)) :=
  ⟨List.cons_ne_nil _ _, rfl, fragment_sheet (List.cons_ne_nil _ _)⟩

end Scaffold
