import Mathlib.Data.List.Induction
import Mathlib.Data.List.Sort
import Scaffold.Proofs.Text.Cut
import Scaffold.Proofs.Text.Trim
import Scaffold.Selector.Compound

/-!
# Compounds are read back from what they are written with

A compound can be written from a tag and any components in any order (`Component.written`).  Every
component leaves the reader exactly behind itself.  For an attribute test this is the place behind
its closing bracket, although brackets, quotes of the other kind and starts of components may all
stand in its value (`readAttribute_display`).  So the components come back one by one
(`components_flatMap_written`).

What they say together is told by `Compound.Gathers`, without a reader: the last id, every class
once at its first place, and all attribute tests.  `Gathers.concat` is what one more component
changes.
-/

namespace Scaffold

namespace Selector

open Scaffold.Text

/-! ## Writing components -/

/-- Whether a text can be a tag, an id or a class: it holds something, and no component starts in
it. -/
def isComponentName (name : Text) : Bool :=
  !name.isEmpty && !name.any startsComponent

/-- Whether an attribute test can be written: it has a name that nothing ends early, and no double
quote stands in its value. -/
def AttributeTest.isWritable (a : AttributeTest) : Bool :=
  !a.name.isEmpty && !a.name.any endsAttributeName && a.value.all fun value => '"' ∉ value.2

namespace Component

/-- A component as it is written. -/
def written : Component → Text
  | .id name => '#' :: name
  | .className name => '.' :: name
  | .attr test => '[' :: test.display ++ [']']

/-- The attribute test that a component is, if it is one. -/
def test? : Component → Option AttributeTest
  | .id _ => none
  | .className _ => none
  | .attr test => some test

/-- Whether a component can be written. -/
def isWritable : Component → Bool
  | .id name => isComponentName name
  | .className name => isComponentName name
  | .attr test => test.isWritable

end Component

theorem isComponentName_iff {name : Text} :
    isComponentName name = true ↔ name ≠ [] ∧ ∀ c ∈ name, startsComponent c = false := by
  simp [isComponentName]

theorem AttributeTest.isWritable_iff {a : AttributeTest} :
    a.isWritable = true ↔ a.name ≠ [] ∧ (∀ c ∈ a.name, endsAttributeName c = false) ∧
      ∀ value ∈ a.value, '"' ∉ value.2 := by
  simp [AttributeTest.isWritable, Option.all_eq_true, and_assoc]

theorem startsComponent_head_flatMap_written (cs : List Component) :
    ∀ c ∈ (cs.flatMap Component.written).head?, startsComponent c = true := by
  cases cs with
  | nil => simp
  | cons c cs => cases c <;> simp [Component.written, startsComponent]

/-! ## Reading an attribute test -/

theorem Comparison.ofSymbol?_symbol (c : Comparison) : ofSymbol? c.symbol = some c := by
  cases c <;> rfl

theorem Comparison.isComparisonChar_of_mem_symbol (c : Comparison) :
    ∀ d ∈ c.symbol, isComparisonChar d = true := by
  apply List.all_eq_true.1
  cases c <;> rfl

theorem readTestValue_quoted {v : Text} (h : '"' ∉ v) (t : Text) :
    readTestValue ('"' :: (v ++ '"' :: t)) = (v, t) := by
  have hall : ∀ c ∈ v, (c != '"') = true := by
    intro c hc
    simpa using fun heq : c = '"' => h (heq ▸ hc)
  have hstop : ∀ c ∈ ('"' :: t).head?, (c != '"') = false := by simp
  rw [readTestValue, if_pos (Or.inl rfl), dropThrough, takeWhile_append_stop hall hstop,
    dropWhile_append_stop hall hstop, List.tail_cons]

/-- A comparison with a quoted value is read up to the closing quote. -/
theorem readTest_quoted (c : Comparison) {v : Text} (h : '"' ∉ v) (t : Text) :
    readTest (c.symbol ++ '"' :: (v ++ '"' :: t)) = (some (c, v), t) := by
  have hstop : ∀ d ∈ ('"' :: (v ++ '"' :: t)).head?, isComparisonChar d = false := by
    simp [isComparisonChar]
  have hquote : trimStart ('"' :: (v ++ '"' :: t)) = '"' :: (v ++ '"' :: t) := rfl
  rw [readTest, takeWhile_append_stop c.isComparisonChar_of_mem_symbol hstop,
    dropWhile_append_stop c.isComparisonChar_of_mem_symbol hstop, c.ofSymbol?_symbol]
  simp only [hquote, readTestValue_quoted h]

/-- What stands behind the name of a test ends the name and is read as the value of the test. -/
theorem AttributeTest.exists_display_eq {a : AttributeTest}
    (h : ∀ value ∈ a.value, '"' ∉ value.2) (t : Text) :
    ∃ rest, a.display ++ ']' :: t = a.name ++ rest ∧
      (∀ c ∈ rest.head?, endsAttributeName c = true ∧ isBlank c = false) ∧
      readTest rest = (a.value, ']' :: t) := by
  obtain ⟨name, value⟩ := a
  cases value with
  | none => exact ⟨']' :: t, rfl, by simp [endsAttributeName, isBlank], rfl⟩
  | some value =>
    obtain ⟨comparison, v⟩ := value
    have hquote : '"' ∉ v := h (comparison, v) rfl
    refine ⟨comparison.symbol ++ '"' :: (v ++ '"' :: ']' :: t), ?_, ?_, readTest_quoted _ hquote _⟩
    · simp [AttributeTest.display]
    · cases comparison <;> simp [Comparison.symbol, endsAttributeName, isComparisonChar, isBlank]

/-- A test is read up to the bracket that closes it. -/
theorem readAttribute_display {a : AttributeTest} (h : a.isWritable = true) (t : Text) :
    readAttribute (a.display ++ ']' :: t) = (some a, t) := by
  obtain ⟨hne, hends, hquote⟩ := AttributeTest.isWritable_iff.1 h
  obtain ⟨rest, htext, hrest, htest⟩ := AttributeTest.exists_display_eq hquote t
  obtain ⟨htake, hdrop⟩ := cut_at_end hends fun c hc => (hrest c hc).1
  have hfront : trimStart (a.name ++ rest) = a.name ++ rest := by
    apply trimStart_of_head
    intro c hc
    rw [List.head?_append_of_ne_nil _ hne] at hc
    have hc := hends c (List.mem_of_mem_head? hc)
    simp only [endsAttributeName, Bool.or_eq_false_iff] at hc
    exact hc.1.2
  have hbehind : trimStart rest = rest := trimStart_of_head fun c hc => (hrest c hc).2
  have hempty : a.name.isEmpty = false := by simp [hne]
  simp only [readAttribute, htext, hfront, htake, hdrop, hbehind, htest, hempty,
    Bool.false_eq_true, if_false]
  rfl

/-! ## Reading components one by one -/

/-- A component is read up to the next one. -/
theorem components_written_append {c : Component} (h : c.isWritable = true) {t : Text}
    (ht : ∀ d ∈ t.head?, startsComponent d = true) :
    components (c.written ++ t) = c :: components t := by
  cases c with
  | id name =>
    obtain ⟨hne, hname⟩ := isComponentName_iff.1 h
    obtain ⟨htake, hdrop⟩ := cut_at_end hname ht
    rw [Component.written, List.cons_append, components, if_pos rfl, htake, hdrop]
    simp [named, hne]
  | className name =>
    obtain ⟨hne, hname⟩ := isComponentName_iff.1 h
    obtain ⟨htake, hdrop⟩ := cut_at_end hname ht
    rw [Component.written, List.cons_append, components, if_neg (by decide), if_pos rfl, htake,
      hdrop]
    simp [named, hne]
  | attr test =>
    have htext : Component.written (.attr test) ++ t = '[' :: (test.display ++ ']' :: t) := by
      simp [Component.written]
    rw [htext, components, if_neg (by decide), if_neg (by decide), if_pos rfl,
      readAttribute_display h]
    rfl

/-- Components come back as they were written. -/
theorem components_flatMap_written {cs : List Component} (h : ∀ c ∈ cs, c.isWritable = true) :
    components (cs.flatMap Component.written) = cs := by
  induction cs with
  | nil => rw [List.flatMap_nil, components]
  | cons c cs ih =>
    obtain ⟨hc, hcs⟩ := List.forall_mem_cons.1 h
    rw [List.flatMap_cons,
      components_written_append hc (startsComponent_head_flatMap_written cs), ih hcs]

namespace Compound

/-- A tag and components as they are written. -/
def written (tag : Option Text) (cs : List Component) : Text :=
  tag.getD [] ++ cs.flatMap Component.written

/-- What was written is read as the components that it was written from. -/
theorem parse_written_eq {tag : Option Text} {cs : List Component}
    (htag : ∀ name ∈ tag, isComponentName name = true) (hcs : ∀ c ∈ cs, c.isWritable = true) :
    parse (written tag cs) = ofComponents tag cs := by
  have hname : ∀ c ∈ tag.getD [], startsComponent c = false := by
    cases tag with
    | none => simp
    | some name => exact (isComponentName_iff.1 (htag name rfl)).2
  have hself : (if (tag.getD []).isEmpty then none else some (tag.getD [])) = tag := by
    cases tag with
    | none => rfl
    | some name => simp [(isComponentName_iff.1 (htag name rfl)).1]
  obtain ⟨htake, hdrop⟩ := cut_at_end hname (startsComponent_head_flatMap_written cs)
  simp only [parse, written, htake, hdrop, components_flatMap_written hcs, hself]

/-! ## What components say together -/

/-- Whether one class is first written in front of where another is. -/
def ClassBefore (cs : List Component) (name other : Text) : Prop :=
  cs.idxOf (.className name) < cs.idxOf (.className other)

/-- What a compound has to say for its tag and its components. -/
structure Gathers (compound : Compound) (tag : Option Text) (cs : List Component) : Prop where
  tag_eq : compound.tag = tag
  id_iff : ∀ name, compound.id = some name ↔ LastGives (fun c name => c = .id name) cs name
  mem_classes_iff : ∀ name, name ∈ compound.classes ↔ .className name ∈ cs
  /-- Every class stands once, in front of those that are first written behind it. -/
  classes_sorted : compound.classes.Pairwise (ClassBefore cs)
  attributes_eq : compound.attributes = cs.filterMap Component.test?

/-- What one more component changes. -/
def add (compound : Compound) : Component → Compound
  | .id name => { compound with id := some name }
  | .className name =>
    if name ∈ compound.classes then compound
    else { compound with classes := compound.classes ++ [name] }
  | .attr test => { compound with attributes := compound.attributes ++ [test] }

theorem eraseDups_concat (names : List Text) (name : Text) :
    (names ++ [name]).eraseDups =
      if name ∈ names.eraseDups then names.eraseDups else names.eraseDups ++ [name] := by
  have hone : [name].eraseDups = [name] := rfl
  by_cases h : name ∈ names
  · simp [List.eraseDups_append, List.cons_removeAll, h]
  · simp [List.eraseDups_append, List.cons_removeAll, h, hone]

/-- Components are taken up one by one. -/
theorem ofComponents_concat (tag : Option Text) (cs : List Component) (c : Component) :
    ofComponents tag (cs ++ [c]) = (ofComponents tag cs).add c := by
  cases c with
  | id name => simp [ofComponents, add]
  | className name =>
    simp only [ofComponents, add, List.filterMap_append, List.filterMap_cons, List.filterMap_nil,
      List.append_nil, eraseDups_concat]
    split
    · next hmem => exact (if_pos hmem).symm
    · next hmem => exact (if_neg hmem).symm
  | attr test => simp [ofComponents, add]

theorem gathers_nil (tag : Option Text) : (ofComponents tag []).Gathers tag [] where
  tag_eq := rfl
  id_iff := by simp [ofComponents, lastGives_nil]
  mem_classes_iff := by simp [ofComponents]
  classes_sorted := by simp [ofComponents]
  attributes_eq := by simp [ofComponents]

namespace Gathers

variable {compound : Compound} {tag : Option Text} {cs : List Component}

/-- The first places of the classes stay where they are. -/
theorem classes_sorted_append (h : compound.Gathers tag cs) (more : List Component) :
    compound.classes.Pairwise (ClassBefore (cs ++ more)) := by
  refine h.classes_sorted.imp_of_mem ?_
  intro name other hname hother hlt
  rwa [ClassBefore, List.idxOf_append_of_mem ((h.mem_classes_iff name).1 hname),
    List.idxOf_append_of_mem ((h.mem_classes_iff other).1 hother)]

/-- One more component is gathered by adding it. -/
theorem concat (h : compound.Gathers tag cs) (c : Component) :
    (compound.add c).Gathers tag (cs ++ [c]) := by
  have hsorted := h.classes_sorted_append [c]
  cases c with
  | id name =>
    exact {
      tag_eq := h.tag_eq
      id_iff := fun other => by simp [add, lastGives_concat]
      mem_classes_iff := fun other => by simp [add, h.mem_classes_iff]
      classes_sorted := hsorted
      attributes_eq := by simp [add, h.attributes_eq, Component.test?] }
  | className name =>
    have hid (other : Text) : compound.id = some other ↔
        LastGives (fun c name => c = .id name) (cs ++ [.className name]) other := by
      simp [lastGives_concat, h.id_iff]
    rw [add]
    split
    · next hmem =>
      -- the class was written before, and the compound stays as it is
      have hwritten := (h.mem_classes_iff name).1 hmem
      exact {
        tag_eq := h.tag_eq
        id_iff := hid
        mem_classes_iff := fun other => by
          rw [h.mem_classes_iff, List.mem_append]
          refine ⟨Or.inl, ?_⟩
          rintro (hother | hother)
          · exact hother
          · rw [List.mem_singleton.1 hother]
            exact hwritten
        classes_sorted := hsorted
        attributes_eq := by simp [h.attributes_eq, Component.test?] }
    · next hmem =>
      -- a new class stands behind all that were written before
      have hnew : Component.className name ∉ cs := fun hwritten =>
        hmem ((h.mem_classes_iff name).2 hwritten)
      exact {
        tag_eq := h.tag_eq
        id_iff := hid
        mem_classes_iff := fun other => by simp [h.mem_classes_iff]
        classes_sorted := by
          refine List.pairwise_append.2 ⟨hsorted, List.pairwise_singleton _ _, ?_⟩
          intro other hother last hlast
          have hmem := (h.mem_classes_iff other).1 hother
          rw [List.mem_singleton.1 hlast, ClassBefore, List.idxOf_append_of_mem hmem,
            List.idxOf_append_of_notMem hnew]
          exact Nat.lt_of_lt_of_le (List.idxOf_lt_length_iff.2 hmem) (Nat.le_add_right _ _)
        attributes_eq := by simp [h.attributes_eq, Component.test?] }
  | attr test =>
    exact {
      tag_eq := h.tag_eq
      id_iff := fun other => by simp [add, lastGives_concat, h.id_iff]
      mem_classes_iff := fun other => by simp [add, h.mem_classes_iff]
      classes_sorted := hsorted
      attributes_eq := by simp [add, h.attributes_eq, Component.test?] }

/-- There is one such compound. -/
theorem unique (h : compound.Gathers tag cs) {other : Compound} (hother : other.Gathers tag cs) :
    compound = other := by
  have hid : compound.id = other.id := by
    apply Option.ext
    intro name
    rw [h.id_iff, hother.id_iff]
  have hclasses : compound.classes = other.classes := by
    have hirrefl : Std.Irrefl (ClassBefore cs) := ⟨fun name => Nat.lt_irrefl _⟩
    have hantisymm : Std.Antisymm (ClassBefore cs) :=
      ⟨fun name other hlt hgt => absurd hlt (Nat.lt_asymm hgt)⟩
    apply List.Pairwise.eq_of_mem_iff h.classes_sorted hother.classes_sorted
    intro name
    rw [h.mem_classes_iff, hother.mem_classes_iff]
  have htag : compound.tag = other.tag := h.tag_eq.trans hother.tag_eq.symm
  have hattributes : compound.attributes = other.attributes :=
    h.attributes_eq.trans hother.attributes_eq.symm
  cases compound
  cases other
  simp_all

end Gathers

/-- The reader gathers what the components say. -/
theorem gathers_ofComponents (tag : Option Text) (cs : List Component) :
    (ofComponents tag cs).Gathers tag cs := by
  induction cs using List.reverseRecOn with
  | nil => exact gathers_nil tag
  | append_singleton cs c ih =>
    rw [ofComponents_concat]
    exact ih.concat c

/-- A compound that is written from a tag and components in any order is read as the one compound
that gathers them. -/
theorem parse_written {tag : Option Text} {cs : List Component}
    (htag : ∀ name ∈ tag, isComponentName name = true) (hcs : ∀ c ∈ cs, c.isWritable = true)
    (compound : Compound) :
    parse (written tag cs) = compound ↔ compound.Gathers tag cs := by
  rw [parse_written_eq htag hcs]
  constructor
  · rintro rfl
    exact gathers_ofComponents tag cs
  · intro h
    exact (gathers_ofComponents tag cs).unique h

/-- Components in mixed order: an id and a class stand twice, and the value of the first test holds
whatever could end it or start another component. -/
def tangledComponents : List Component :=
  [.attr ⟨"data-x".toList, some (.startsWith, "]#.[ 'y'=".toList)⟩, .className "b".toList,
    .id "x".toList, .className "c".toList, .attr ⟨"[\"".toList, none⟩, .className "b".toList,
    .id "z".toList]

theorem parse_written_tangledComponents :
    isComponentName "a".toList = true ∧ tangledComponents.all Component.isWritable = true ∧
      String.ofList (written (some "a".toList) tangledComponents) =
        "a[data-x^=\"]#.[ 'y'=\"].b#x.c[[\"].b#z" ∧
      parse (written (some "a".toList) tangledComponents) =
        { tag := some "a".toList
          id := some "z".toList
          classes := ["b".toList, "c".toList]
          attributes := [⟨"data-x".toList, some (.startsWith, "]#.[ 'y'=".toList)⟩,
            ⟨"[\"".toList, none⟩] } := by
  have htag : ∀ name ∈ some "a".toList, isComponentName name = true := by
    intro name hname
    obtain rfl := Option.some.inj hname
    rfl
  have hcs : ∀ c ∈ tangledComponents, c.isWritable = true := List.all_eq_true.1 (by decide)
  exact ⟨rfl, by decide, by decide,
    (parse_written htag hcs _).2 (gathers_ofComponents (some "a".toList) tangledComponents)⟩

end Compound

end Selector

end Scaffold
