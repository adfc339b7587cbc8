import Scaffold.Fragment
import Scaffold.Proofs.Css.Display
import Scaffold.Proofs.Html.Flatten
import Scaffold.Proofs.Html.Format
import Scaffold.Proofs.Html.Unescaped
import Scaffold.Proofs.Selector.Compound

/-!
# Quoted values on their way to the markup

The value of an attribute comes from a quoted string, either in a test of the selector or in a
declaration, and it is written between double quotes without being escaped.

* In a test nothing between the quotes counts but a space: with one the selector is read as a path,
  whose last segment stands below something that no rule describes, so that nothing is rendered
  (`fragment_test`).
* In a declaration nothing counts, and the value is always written (`fragment_declaration`).  It is
  read back as it was if no double quote stands in it; otherwise it is cut there.
-/

namespace Scaffold

open Scaffold.Text

/-! ## The fragment of one rule -/

/-- An element alone is kept if it is a root. -/
theorem nest_singleton {e : Element} (h : e.children = []) :
    nest [e] = if e.path.isRoot then [e] else [] := by
  have htrees : trees [e] = [e] := by
    cases e
    cases h
    rfl
  rw [nest, htrees, List.filter_cons]
  rfl

/-- One rule describes a page if its element is a root. -/
theorem page?_singleton {rule : Css.Rule} (hsupported : rule.isSupported = true) {e : Element}
    (h : Element.ofRule? rule = some e) :
    page? [rule] = if e.path.isRoot then some (e.render.1 ++ ['\n']) else none := by
  have helements : elements [rule] = [e] := by
    rw [elements, Css.supported, List.filter_cons_of_pos hsupported,
      List.filterMap_cons_some h]
    rfl
  rw [page?, helements, nest_singleton (Element.bare_of_ofRule? h).1]
  cases e.path.isRoot with
  | false => rfl
  | true =>
    show some (e.render.1 ++ ['\n'] ++ []) = _
    rw [List.append_nil]
    rfl

theorem fragment_of_readItems {css : Text} {items : List Css.Item}
    (h : Css.readItems (.start css) = (items, none)) :
    fragment css = .ok (page? (items.map Css.Item.rule)) := by
  rw [fragment, Css.parse, Css.read, h]
  rfl

/-! ## An anchor with a title -/

/-- The markup of an anchor whose title is written as it stands. -/
def titled (value : Text) : Text :=
  "<a title=\"".toList ++ value ++ "\"></a>\n".toList

theorem titled_eq (value : Text) :
    titled value = "<a title=\"".toList ++ (value ++ '"' :: "></a>\n".toList) := by
  have hend : "\"></a>\n".toList = '"' :: "></a>\n".toList := by decide
  exact (List.append_assoc _ _ _).trans
    (congrArg (fun t => "<a title=\"".toList ++ (value ++ t)) hend)

/-- An anchor with nothing in it. -/
def anchor (selector attributes : Text) : Element where
  path := ⟨selector⟩
  tag := "a".toList
  id := none
  classes := []
  attributes := attributes
  slots := {}
  children := []
  rendered := none

@[simp] theorem anchor_path (selector attributes : Text) :
    (anchor selector attributes).path = ⟨selector⟩ := rfl

theorem render_anchor (selector attributes : Text) :
    (anchor selector attributes).render.1 = "<a".toList ++ attributes ++ "></a>".toList := by
  have hvoid : isVoid ['a'] = false := by decide
  rw [anchor, Element.render]
  simp [Element.renderAll, Element.plan, Plan.markup, Plan.parts, Element.openTag,
    Element.closeTag?, Element.isSelfClosing, hvoid]

/-- A rule whose element is a root anchor with a title describes the page with that anchor. -/
theorem page?_anchor {rule : Css.Rule} (hsupported : rule.isSupported = true)
    {selector v : Text} (hspace : ' ' ∉ selector)
    (h : Element.ofRule? rule = some (anchor selector (" title=\"".toList ++ v ++ "\"".toList))) :
    page? [rule] = some (titled v) := by
  have hroot : Selector.Path.isRoot ⟨selector⟩ = true := Selector.Path.isRoot_of_notMem hspace
  have htitled : titled v = "<a".toList ++ (" title=\"".toList ++ v ++ "\"".toList) ++
      "></a>".toList ++ ['\n'] := by
    simp only [List.append_assoc]
    rfl
  rw [page?_singleton hsupported h, anchor_path, if_pos hroot, render_anchor, htitled]

/-! ## Values in tests -/

/-- A selector that tests an attribute for a quoted value. -/
def titleTest (value : Text) : Text :=
  "a".toList ++ ('[' :: "title".toList ++ "=\"".toList ++ value ++ "\"]".toList)

/-- The value of a test is all that stands between its quotes. -/
theorem parse_titleTest {v : Text} (h : '"' ∉ v) :
    Selector.Compound.parse (titleTest v) =
      { tag := some "a".toList
        id := none
        classes := []
        attributes := [{ name := "title".toList, value := some (.equals, v) }] } := by
  let test : Selector.AttributeTest := { name := "title".toList, value := some (.equals, v) }
  have hwritten : titleTest v = Selector.Compound.written (some "a".toList) [.attr test] := by
    simp [titleTest, test, Selector.Compound.written, Selector.Component.written,
      Selector.AttributeTest.display, Selector.Comparison.symbol]
  have htag : ∀ name ∈ some "a".toList, Selector.isComponentName name = true := by
    intro name hname
    obtain rfl := Option.some.inj hname
    rfl
  have htest : ∀ c ∈ [Selector.Component.attr test], c.isWritable = true := by
    intro c hc
    rw [List.mem_singleton.1 hc]
    refine Selector.AttributeTest.isWritable_iff.2 ⟨?_, ?_, ?_⟩
    · simp [test]
    · simp [test, Selector.endsAttributeName, Selector.isComparisonChar, isBlank]
    · intro value hvalue
      obtain rfl := Option.some.inj hvalue
      exact h
  rw [hwritten, Selector.Compound.parse_written_eq htag htest]
  rfl

theorem isSelector_titleTest {v : Text}
    (h : ∀ c ∈ v, c ≠ '"' ∧ c ≠ '\\' ∧ Css.isNewline c = false) : Css.IsSelector (titleTest v) :=
  .segment (.test (.base (by decide) (List.all_eq_true.1 (by decide)))
    (.equality (by decide) (List.all_eq_true.1 (by decide)) h))

theorem isSupported_titleTest {v : Text} (h : ∀ c ∈ v, c ∉ Css.unsupportedChars) :
    (Css.Rule.style (titleTest v) []).isSupported = true := by
  have hvalue : v.any Css.unsupportedChars.contains = false := by
    rw [List.any_eq_false]
    exact fun c hc => by simpa using h c hc
  refine Css.Rule.isSupported_style ?_ []
  rw [titleTest, List.any_append, List.any_append, List.any_append, List.any_append, hvalue]
  decide

/-- A rule with a test for the title makes an anchor with that title. -/
theorem ofRule?_titleTest {v : Text} (hquote : '"' ∉ v) (hspace : ' ' ∉ v) :
    Element.ofRule? (.style (titleTest v) []) =
      some (anchor (titleTest v) (" title=\"".toList ++ v ++ "\"".toList)) := by
  have hown : Selector.Path.own ⟨titleTest v⟩ = titleTest v :=
    Selector.Path.own_of_notMem (by simp [titleTest, hspace])
  have hselector : (Css.Rule.style (titleTest v) []).selector? = some (titleTest v) := rfl
  rw [Element.ofRule?, hselector, Option.map_some]
  dsimp only
  rw [hown, parse_titleTest hquote]
  have hattributes : ' ' :: ("title".toList ++ "=".toList ++ '"' :: v ++ ['"']) ++ [] ++ [] =
      " title=\"".toList ++ v ++ "\"".toList := by simp
  rw [anchor, ← hattributes]
  rfl

/-- What stands between the quotes of a test is one value, unless a space stands in it: then the
rule is lost. -/
theorem fragment_test {v : Text}
    (h : ∀ c ∈ v, c ≠ '"' ∧ c ≠ '\\' ∧ Css.isNewline c = false ∧ c ∉ Css.unsupportedChars) :
    fragment (titleTest v ++ " \x7b\x7d".toList) =
      .ok (if ' ' ∈ v then none else some (titled v)) := by
  have hselector : Css.IsSelector (titleTest v) := isSelector_titleTest fun c hc =>
    ⟨(h c hc).1, (h c hc).2.1, (h c hc).2.2.1⟩
  have hread : Css.readItems (.start (titleTest v ++ " \x7b\x7d".toList)) =
      ([.style [titleTest v] []], none) := by
    have := Css.readItems_selectors (List.cons_ne_nil (titleTest v) [])
      (fun selector hmem => List.mem_singleton.1 hmem ▸ hselector) (Css.readBlock_closeCurly [])
    rw [List.intercalate_singleton, Css.readItems_nil] at this
    exact this
  have hsupported := isSupported_titleTest fun c hc => (h c hc).2.2.2
  have hquote : '"' ∉ v := fun hmem => (h _ hmem).1 rfl
  rw [fragment_of_readItems hread]
  refine congrArg Except.ok ?_
  show page? [Css.Rule.style (titleTest v) []] = _
  by_cases hspace : ' ' ∈ v
  · -- whatever the last segment is read as, its element is no root
    have hroot : Selector.Path.isRoot ⟨titleTest v⟩ = false := by
      rw [← Bool.not_eq_true, Selector.Path.isRoot_iff (by simp [titleTest])]
      simp [titleTest, hspace]
    rw [page?_singleton hsupported rfl, if_pos hspace]
    dsimp only
    rw [hroot]
    rfl
  · rw [page?_anchor hsupported (by simp [titleTest, hspace]) (ofRule?_titleTest hquote hspace),
      if_neg hspace]

/-- A value of characters that mean something in a selector outside quotes. -/
def crowdedTitle : Text :=
  "x,y]\t[.#'(\x7b".toList

theorem isTestValue_crowdedTitle : ∀ c ∈ crowdedTitle,
    c ≠ '"' ∧ c ≠ '\\' ∧ Css.isNewline c = false ∧ c ∉ Css.unsupportedChars := by
  have hall : crowdedTitle.all (fun c => c != '"' && c != '\\' && !Css.isNewline c &&
      !Css.unsupportedChars.contains c) = true := by
    decide
  intro c hc
  simpa [and_assoc] using List.all_eq_true.1 hall c hc

theorem fragment_test_crowdedTitle :
    (∀ c ∈ crowdedTitle,
      c ≠ '"' ∧ c ≠ '\\' ∧ Css.isNewline c = false ∧ c ∉ Css.unsupportedChars) ∧
    fragment "a[title=\"x,y]\t[.#'(\x7b\"] \x7b\x7d".toList =
      .ok (some "<a title=\"x,y]\t[.#'(\x7b\"></a>\n".toList) := by
  have hsheet : titleTest crowdedTitle ++ " \x7b\x7d".toList =
      "a[title=\"x,y]\t[.#'(\x7b\"] \x7b\x7d".toList := by decide
  have hpage : titled crowdedTitle = "<a title=\"x,y]\t[.#'(\x7b\"></a>\n".toList := by decide
  have h := fragment_test isTestValue_crowdedTitle
  rw [if_neg (by decide), hsheet, hpage] at h
  exact ⟨isTestValue_crowdedTitle, h⟩

/-- A space between the quotes of a test divides the selector. -/
theorem fragment_spacedTitle :
    fragment "a[title=\"x y\"] \x7b\x7d".toList = .ok none ∧
      Selector.Path.segments ⟨"a[title=\"x y\"]".toList⟩ =
        ["a[title=\"x".toList, "y\"]".toList] := by
  decide +kernel

/-! ## Values in declarations -/

/-- A value at the end of a block is read up to the bracket that closes it. -/
theorem Css.readChunks_value_end {value : Text} (h : IsValue value) (chunk back : Text) :
    readChunks chunk (.start (value ++ '}' :: back)) =
      (upTo chunk ('}' :: back), .start ('}' :: back)) := by
  have hends : TokensEnd ('}' :: back) := by
    rintro _ ⟨rfl⟩
    rfl
  rw [(skipsNeutral_readChunks chunk).value h hends, readChunks_eq,
    Cursor.nextInBlock?_closeCurly, Cursor.settle, Cursor.settled_start]
  rfl

/-- The block of a rule with a title in quotes, behind its opening bracket. -/
def titleBlock (value : Text) : Text :=
  ' ' :: ("--attr-title".toList ++ ": '".toList ++ value ++ "' \x7d".toList)

/-- A value in single quotes. -/
def quotedTitle (value : Text) : Text :=
  '\x27' :: value ++ ['\x27']

theorem trim_quotedTitle (v : Text) : trim (' ' :: (quotedTitle v ++ [' '])) = quotedTitle v := by
  have hblank : ∀ c ∈ [' '], isBlank c = true := by simp; decide
  have htrimmed : Trimmed (quotedTitle v) :=
    ⟨by rintro _ ⟨rfl⟩; rfl, by rw [quotedTitle, List.getLast?_concat]; rintro _ ⟨rfl⟩; rfl⟩
  have hleft := trim_append_left (t := quotedTitle v ++ [' ']) hblank
  rw [trim_append_right hblank, trim_eq_self htrimmed] at hleft
  exact hleft

/-- A value in single quotes is read up to the closing one, whatever stands in between. -/
theorem readValue_quotedTitle {v : Text}
    (h : ∀ c ∈ v, c ≠ '\x27' ∧ c ≠ '\\' ∧ Css.isNewline c = false) :
    Css.readValue (.start (':' :: (' ' :: (quotedTitle v ++ [' ']) ++ ['}']))) =
      (some (quotedTitle v), .start ['}']) := by
  have hvalue : Css.IsValue (' ' :: (quotedTitle v ++ [' '])) := by
    rw [quotedTitle, List.append_assoc]
    exact .char rfl (.string (Or.inr rfl) h (.char rfl .nil))
  have hlex : Css.lex (':' :: (' ' :: (quotedTitle v ++ [' ']) ++ ['}'])) =
      some (.colon, ' ' :: (quotedTitle v ++ [' ']) ++ ['}']) := rfl
  rw [Css.readValue_eq, Css.Cursor.nextInBlock?_start hlex rfl (by simp)]
  show Prod.map (fun value => some (trim value)) id
    (Css.readChunks (' ' :: (quotedTitle v ++ [' ']) ++ ['}'])
      (.start (' ' :: (quotedTitle v ++ [' ']) ++ ['}']))) = _
  rw [Css.readChunks_value_end hvalue, upTo_append, Prod.map_apply, trim_quotedTitle]
  rfl

theorem readBlock_titleBlock {v : Text}
    (h : ∀ c ∈ v, c ≠ '\x27' ∧ c ≠ '\\' ∧ Css.isNewline c = false) :
    Css.readBlock (.start (titleBlock v)) =
      ([.declaration (.property "--attr-title".toList (quotedTitle v))], ['}']) := by
  have htext : titleBlock v = ' ' :: ("--attr-title".toList ++
      ':' :: (' ' :: (quotedTitle v ++ [' ']) ++ ['}'])) := by
    have hvalue : ": '".toList ++ (v ++ "' \x7d".toList) =
        ':' :: (' ' :: (quotedTitle v ++ [' ']) ++ ['}']) := by
      simp [quotedTitle]
    rw [titleBlock, List.append_assoc, List.append_assoc, hvalue]
  have hname : Css.IsPropertyName "--attr-title".toList :=
    @Css.IsPropertyName.custom "attr-title".toList (List.all_eq_true.1 (by decide))
  rw [htext, Css.readBlock_space (Css.lex_space (by rintro _ ⟨rfl⟩; rfl)) (by simp),
    Css.readBlock_property (hname.isIdent.lex_eq _) (by simp) (readValue_quotedTitle h),
    Css.readBlock_closeCurly]
  rfl

theorem stripQuotes_quotedTitle (v : Text) : stripQuotes (quotedTitle v) = v := by
  rw [quotedTitle, List.cons_append, stripQuotes, List.getLast?_concat, if_pos ⟨rfl, rfl⟩,
    List.dropLast_concat]

/-- A rule for an anchor that declares a title. -/
def titleRule (value : Text) : Css.Rule :=
  .style "a".toList [.property "--attr-title".toList (quotedTitle value)]

theorem declaredAttributes_titleRule (v : Text) :
    declaredAttributes (titleRule v) = " title=\"".toList ++ v ++ "\"".toList := by
  have hrender : renderAttribute "--attr-title".toList (quotedTitle v) =
      some ("title".toList ++ "=\"".toList ++ v ++ ['"']) := by
    have hname : attributeName? "--attr-title".toList = some "title".toList := by decide
    rw [renderAttribute, if_neg (by decide), hname, stripQuotes_quotedTitle]
    rfl
  have hproperties : (titleRule v).properties =
      [("--attr-title".toList, quotedTitle v)] := rfl
  rw [declaredAttributes, hproperties, List.flatMap_singleton, hrender]
  simp

theorem ofRule?_titleRule (v : Text) :
    Element.ofRule? (titleRule v) =
      some (anchor "a".toList (" title=\"".toList ++ v ++ "\"".toList)) := by
  have hselector : (titleRule v).selector? = some "a".toList := rfl
  have hcompound : Selector.Compound.parse (Selector.Path.own ⟨"a".toList⟩) =
      { tag := some "a".toList, id := none, classes := [], attributes := [] } := by
    decide +kernel
  have hslots : Slots.ofRule (titleRule v) = {} := rfl
  rw [Element.ofRule?, hselector, Option.map_some]
  dsimp only
  rw [hcompound, hslots, declaredAttributes_titleRule]
  rfl

/-- A declared title comes out between double quotes, as it is. -/
theorem fragment_titleRule {v : Text}
    (h : ∀ c ∈ v, c ≠ '\x27' ∧ c ≠ '\\' ∧ Css.isNewline c = false) :
    fragment ("a \x7b".toList ++ titleBlock v) = .ok (some (titled v)) := by
  have hselector : ∀ selector ∈ ["a".toList], Css.IsSelector selector := by
    rintro _ hmem
    rw [List.mem_singleton.1 hmem]
    exact .segment (.base (by decide) (List.all_eq_true.1 (by decide)))
  have hread : Css.readItems (.start ("a \x7b".toList ++ titleBlock v)) =
      ([.style ["a".toList] [.declaration
        (.property "--attr-title".toList (quotedTitle v))]], none) := by
    have := Css.readItems_selectors (List.cons_ne_nil _ []) hselector (readBlock_titleBlock h)
    rw [List.intercalate_singleton, Css.readItems_nil] at this
    exact this
  have hsupported : (titleRule v).isSupported = true :=
    Css.Rule.isSupported_style (by decide) _
  rw [fragment_of_readItems hread]
  exact congrArg Except.ok (page?_anchor hsupported (by decide) (ofRule?_titleRule v))

/-! ## Reading a title back -/

namespace Html

/-- A value without quotes and ampersands is written as it is, escaped or not. -/
theorem escapeValue_eq_self {v : Text} (hquote : '"' ∉ v) (hamp : '&' ∉ v) : escapeValue v = v := by
  have hchar : ∀ c ∈ v, escapeValueChar c = [c] := by
    intro c hc
    have hne : c ≠ '&' ∧ c ≠ '"' := ⟨fun h => hamp (h ▸ hc), fun h => hquote (h ▸ hc)⟩
    rw [escapeValueChar, if_neg hne.1, if_neg hne.2]
  rw [escapeValue, List.flatMap_congr hchar]
  exact List.flatMap_singleton' v

/-- The title of an anchor as it is read. -/
def titleOf (value : Text) : Attribute where
  name := "title".toList
  value := value

/-- A title is read up to the first double quote in it, and the tag goes on behind that. -/
theorem readTag?_title {v : Text} (hquote : '"' ∉ v) (hamp : '&' ∉ v) (hnul : nul ∉ v)
    (t : Text) :
    readTag? ("a title=\"".toList ++ (v ++ '"' :: t)) =
      (readTagRest? t).map fun tag =>
        { name := "a".toList
          attributes := titleOf v :: (distinct tag.attributes).filter (·.name != "title".toList)
          selfClosing := tag.selfClosing
          rest := tag.rest } := by
  have hattribute : readAttribute? 't' ("itle=\"".toList ++ (v ++ '"' :: t)) =
      some (titleOf v, t) := by
    have hvalue := quotedValue?_escapeValue hnul t
    rw [escapeValue_eq_self hquote hamp] at hvalue
    show (quotedValue? '"' (v ++ '"' :: t)).map (Prod.map titleOf id) = _
    rw [hvalue]
    rfl
  have hrest : readTagRest? (" title=\"".toList ++ (v ++ '"' :: t)) =
      (readTagRest? t).map fun tag => { tag with attributes := titleOf v :: tag.attributes } :=
    (readTagRest?_space _).trans (readTagRest?_attribute (by decide) hattribute)
  have hname : IsTagName "a".toList := isTagName_of_isWord (by decide)
  obtain ⟨htake, hdrop⟩ := @cut_name endsTagName "a".toList
    (" title=\"".toList ++ (v ++ '"' :: t)) hname.ends ⟨' ', _, rfl, rfl⟩
  have htext : "a title=\"".toList ++ (v ++ '"' :: t) =
      "a".toList ++ (" title=\"".toList ++ (v ++ '"' :: t)) := rfl
  rw [htext, readTag?, htake, hdrop, hrest, Option.map_map]
  rfl

/-- A title without quotes and references is read back, whatever the rest of the tag is. -/
theorem tokens_title {v : Text} (hquote : '"' ∉ v) (hamp : '&' ∉ v) (hnul : nul ∉ v)
    (t : Text) :
    tokens ("<a title=\"".toList ++ (v ++ '"' :: t)) =
      (readTagRest? t).elim [openTagProblem, .endOfInput] fun tag =>
        .startTag "a".toList
          (titleOf v :: (distinct tag.attributes).filter (·.name != "title".toList))
          tag.selfClosing :: tokens tag.rest := by
  have hread := readTag?_title hquote hamp hnul t
  have hmarkup : markup ("a title=\"".toList ++ (v ++ '"' :: t)) =
      startTag ("a title=\"".toList ++ (v ++ '"' :: t)) := rfl
  have htext : "<a title=\"".toList ++ (v ++ '"' :: t) =
      '<' :: ("a title=\"".toList ++ (v ++ '"' :: t)) := rfl
  have hcontent : contentOf? "a".toList = none := by decide
  rw [htext, tokens, if_pos rfl, hmarkup, startTag, hread]
  cases readTagRest? t with
  | none =>
    show [openTagProblem] ++ tokens [] = _
    rw [tokens]
    rfl
  | some tag =>
    simp only [Option.map_some, hcontent, ite_self, Option.elim_some]
    rfl

/-- A tree of tokens that start with a start tag starts with its element. -/
theorem exists_element_ofTokens (name : Text) (as : List Attribute) (selfClosing : Bool)
    (ts : List Token) :
    ∃ selfClosing' closed children later,
      ofTokens (.startTag name as selfClosing :: ts) =
        .element name as selfClosing' closed children :: later := by
  have hflat := flattenAll_ofTokens (.startTag name as selfClosing :: ts)
  rw [Token.tidy_cons_of_hasContent rfl, Token.join_of_ne_text (by simp), List.map_cons,
    Token.plain] at hflat
  cases hnodes : ofTokens (.startTag name as selfClosing :: ts) with
  | nil =>
    rw [hnodes] at hflat
    cases hflat
  | cons node later =>
    rw [hnodes, flattenAll] at hflat
    cases node with
    | element name' as' selfClosing' closed children =>
      rw [Node.flatten] at hflat
      obtain ⟨rfl, rfl, -⟩ := Token.startTag.inj (List.cons.inj hflat).1
      exact ⟨selfClosing', closed, children, later, rfl⟩
    | _ => cases hflat

theorem prepare_title {v t : Text} (hv : '\r' ∉ v) (ht : '\r' ∉ t) :
    prepare ("<a title=\"".toList ++ (v ++ '"' :: t)) =
      "<a title=\"".toList ++ (v ++ '"' :: t) := by
  have hhead : ("<a title=\"".toList ++ (v ++ '"' :: t)).head? = some '<' := rfl
  refine prepare_eq_self ?_ (by rw [hhead]; decide)
  rw [List.mem_append, List.mem_append, List.mem_cons]
  rintro (h | h | h | h)
  · exact absurd h (by decide)
  · exact hv h
  · cases h
  · exact ht h

/-- The first node that is read has the title up to the first double quote in it, if a node is read
at all. -/
theorem parse_title_cut {v : Text} (hquote : '"' ∉ v) (hamp : '&' ∉ v) (hnul : nul ∉ v)
    (hv : '\r' ∉ v) {t : Text} (ht : '\r' ∉ t) :
    parse ("<a title=\"".toList ++ (v ++ '"' :: t)) = [] ∨
      ∃ as selfClosing closed children later,
        parse ("<a title=\"".toList ++ (v ++ '"' :: t)) =
          .element "a".toList (titleOf v :: as) selfClosing closed children :: later := by
  rw [parse, prepare_title hv ht, tokens_title hquote hamp hnul]
  cases readTagRest? t with
  | none => exact Or.inl rfl
  | some tag => exact Or.inr ⟨_, exists_element_ofTokens _ _ _ _⟩

/-- A title without a double quote is read as it is. -/
theorem parse_titled {v : Text} (hquote : '"' ∉ v) (hamp : '&' ∉ v) (hnul : nul ∉ v)
    (hv : '\r' ∉ v) :
    parse (titled v) = [.element "a".toList [titleOf v] false true [], .text ['\n']] := by
  have hrest : readTagRest? "></a>\n".toList =
      some { attributes := [], selfClosing := false, rest := "</a>\n".toList } := by
    decide +kernel
  have htokens : tokens "</a>\n".toList = [.endTag "a".toList, .text ['\n'], .endOfInput] := by
    decide +kernel
  rw [titled_eq, parse, prepare_title hv (by decide), tokens_title hquote hamp hnul, hrest,
    Option.elim_some, htokens]
  rfl

end Html

/-- A declared title is written as it stands.  Read back, it is the title of the only element if no
double quote stands in it; otherwise the first element, if any is read, has the title up to
there. -/
theorem fragment_declaration {v : Text}
    (h : ∀ c ∈ v, c ≠ '\x27' ∧ c ≠ '\\' ∧ Css.isNewline c = false ∧ c ≠ nul ∧ c ≠ '&') :
    fragment ("a \x7b".toList ++ titleBlock v) = .ok (some (titled v)) ∧
      ('"' ∉ v → Html.parse (titled v) =
        [.element "a".toList [Html.titleOf v] false true [], .text ['\n']]) ∧
      ∀ front back, v = front ++ '"' :: back → '"' ∉ front →
        Html.parse (titled v) = [] ∨
          ∃ as selfClosing closed children later, Html.parse (titled v) =
            .element "a".toList (Html.titleOf front :: as) selfClosing closed children ::
              later := by
  have hnot : ∀ {u : Text}, u ⊆ v → '&' ∉ u ∧ nul ∉ u ∧ '\r' ∉ u := fun hu =>
    ⟨fun hmem => (h _ (hu hmem)).2.2.2.2 rfl, fun hmem => (h _ (hu hmem)).2.2.2.1 rfl,
      fun hmem => absurd (h _ (hu hmem)).2.2.1 (by decide)⟩
  refine ⟨fragment_titleRule fun c hc => ⟨(h c hc).1, (h c hc).2.1, (h c hc).2.2.1⟩, ?_, ?_⟩
  · intro hquote
    obtain ⟨hamp, hnul, hreturn⟩ := hnot (List.Subset.refl v)
    exact Html.parse_titled hquote hamp hnul hreturn
  -- the first double quote ends the value, and what follows is read as more of the tag
  · rintro front back rfl hquote
    obtain ⟨hamp, hnul, hfront⟩ := hnot (List.subset_append_left front ('"' :: back))
    have hback := (hnot fun c hc => List.mem_append_right front (List.mem_cons_of_mem _ hc)).2.2
    have htext : titled (front ++ '"' :: back) =
        "<a title=\"".toList ++ (front ++ '"' :: (back ++ '"' :: "></a>\n".toList)) := by
      rw [titled_eq, List.append_assoc]
      rfl
    rw [htext]
    refine Html.parse_title_cut hquote hamp hnul hfront ?_
    rw [List.mem_append, not_or]
    exact ⟨hback, by decide⟩

/-- A value of characters that mean something in a block or in markup outside quotes. -/
def tangledTitle : Text :=
  "; \x7d </a> /* (x".toList

theorem isDeclaredValue_tangledTitle : ∀ c ∈ tangledTitle,
    c ≠ '\x27' ∧ c ≠ '\\' ∧ Css.isNewline c = false ∧ c ≠ nul ∧ c ≠ '&' := by
  have hall : tangledTitle.all (fun c => c != '\x27' && c != '\\' && !Css.isNewline c &&
      c != nul && c != '&') = true := by
    decide
  intro c hc
  simpa [and_assoc] using List.all_eq_true.1 hall c hc

theorem fragment_declaration_tangledTitle :
    (∀ c ∈ tangledTitle,
      c ≠ '\x27' ∧ c ≠ '\\' ∧ Css.isNewline c = false ∧ c ≠ nul ∧ c ≠ '&') ∧
    '"' ∉ tangledTitle ∧
    fragment "a \x7b --attr-title: '; \x7d </a> /* (x' \x7d".toList =
      .ok (some "<a title=\"; \x7d </a> /* (x\"></a>\n".toList) ∧
    Html.parse "<a title=\"; \x7d </a> /* (x\"></a>\n".toList =
      [.element "a".toList [Html.titleOf "; \x7d </a> /* (x".toList] false true [],
        .text ['\n']] := by
  have hsheet : "a \x7b".toList ++ titleBlock tangledTitle =
      "a \x7b --attr-title: '; \x7d </a> /* (x' \x7d".toList := by decide
  have hpage : titled tangledTitle = "<a title=\"; \x7d </a> /* (x\"></a>\n".toList := by decide
  have hquote : '"' ∉ tangledTitle := by decide
  obtain ⟨hfragment, hparse, -⟩ := fragment_declaration isDeclaredValue_tangledTitle
  have hparse := hparse hquote
  rw [hsheet, hpage] at hfragment
  rw [hpage] at hparse
  exact ⟨isDeclaredValue_tangledTitle, hquote, hfragment, hparse⟩

/-- A double quote in a declared title ends it in the markup, and the rest is read as a further
attribute. -/
theorem fragment_quotedTitle :
    fragment "a \x7b --attr-title: 'x\"y' \x7d".toList =
        .ok (some "<a title=\"x\"y\"></a>\n".toList) ∧
      Html.parse "<a title=\"x\"y\"></a>\n".toList =
        [.element "a".toList [Html.titleOf "x".toList, { name := "y\"".toList, value := [] }]
          false true [], .text ['\n']] := by
  have htokens : Html.tokens (Html.prepare "<a title=\"x\"y\"></a>\n".toList) =
      [.startTag "a".toList [Html.titleOf "x".toList, { name := "y\"".toList, value := [] }] false,
        .endTag "a".toList, .text ['\n'], .endOfInput] := by
    decide +kernel
  refine ⟨by decide +kernel, ?_⟩
  rw [Html.parse, htokens]
  rfl

end Scaffold
