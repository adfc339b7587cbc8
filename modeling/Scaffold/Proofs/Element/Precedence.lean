import Mathlib.Data.List.Induction
import Scaffold.Element.Basic
import Scaffold.Proofs.Text.Cut
import Scaffold.Proofs.Text.Trim

/-!
# Which text fills a place

A rule can name the text of a place in three ways, and `Fills` says which of them counts: the last
comment with the label of the place, else the part for the place in the first value of `--text`,
else, if that value has no such part, the first value of the place's own property.  Without `--text`
the properties fill nothing.

The library comes to the same text in another order: it fills the places from the properties and
goes over the comments afterwards.  The labels cannot be taken for each other, because none of them
starts another (`Slot.eq_of_label_prefix`), so a comment has one reading (`labelled?_eq_some_iff`).
-/

namespace Scaffold

open Scaffold.Text

/-! ## What a rule says -/

/-- The label of a place. -/
def Slot.label : Slot → Text
  | .before => "text-before:".toList
  | .inside => "text:".toList
  | .after => "text-after:".toList

/-- The property of a place alone. -/
def Slot.property? : Slot → Option Text
  | .before => some "--text-before".toList
  | .inside => none
  | .after => some "--text-after".toList

/-- The places that a list of texts is for, by the number of texts. -/
def slotOrder : Nat → List Slot
  | 0 => []
  | 1 => [.inside]
  | 2 => [.inside, .after]
  | _ + 3 => [.before, .inside, .after]

/-- A comment gives a place its text: behind blanks stand the label in some spelling, a space, and
the text with a space behind it or without one. -/
def Labels (slot : Slot) (comment text : Text) : Prop :=
  ∃ blanks label body, comment = blanks ++ (label ++ ' ' :: body) ∧
    (∀ c ∈ blanks, isBlank c = true) ∧ lower label = slot.label ∧
    (body = text ++ [' '] ∨ body = text ∧ body.getLast? ≠ some ' ')

/-- A text is a value without the pair of equal quotes around it, if there is one. -/
def Unquotes (value text : Text) : Prop :=
  (∃ quote, isQuote quote = true ∧ value = quote :: (text ++ [quote])) ∨
    value = text ∧ ∀ quote inner, isQuote quote = true → value ≠ quote :: (inner ++ [quote])

/-- The first value of a property. -/
def IsFirstValue (rule : Css.Rule) (name value : Text) : Prop :=
  ∃ front back, rule.properties = front ++ (name, value) :: back ∧
    ∀ property ∈ front, property.1 ≠ name

/-- The texts that a rule fills its places with. -/
inductive Fills (rule : Css.Rule) (slot : Slot) (text : Text) : Prop
  | comment : LastGives (Labels slot) rule.comments text → Fills rule slot text
  | part {list part : Text} :
      (∀ comment ∈ rule.comments, ∀ other, ¬ Labels slot comment other) →
      IsFirstValue rule "--text".toList list →
      (slot, part) ∈ (slotOrder (list.splitOn ',').length).zip (list.splitOn ',') →
      Unquotes (trim part) text → Fills rule slot text
  | property {list name value : Text} :
      (∀ comment ∈ rule.comments, ∀ other, ¬ Labels slot comment other) →
      IsFirstValue rule "--text".toList list → slot ∉ slotOrder (list.splitOn ',').length →
      slot.property? = some name → IsFirstValue rule name value →
      Unquotes value text → Fills rule slot text

/-! ## Comments -/

theorem dropFinalSpace_eq_iff {body text : Text} :
    dropFinalSpace body = text ↔
      body = text ++ [' '] ∨ body = text ∧ body.getLast? ≠ some ' ' := by
  rw [dropFinalSpace]
  split
  · next h =>
    obtain ⟨front, rfl⟩ := List.getLast?_eq_some_iff.1 h
    simp
  · next h =>
    constructor
    · intro heq
      exact Or.inr ⟨heq, h⟩
    · rintro (rfl | ⟨rfl, -⟩)
      · simp at h
      · rfl

/-- No label starts another. -/
theorem Slot.eq_of_label_prefix {slot other : Slot} (h : slot.label <+: other.label) :
    slot = other := by
  rw [← List.isPrefixOf_iff_prefix] at h
  revert h
  cases slot <;> cases other <;> decide +kernel

theorem Slot.lower_label (slot : Slot) : lower slot.label = slot.label := by
  cases slot <;> decide +kernel

theorem labels_eq :
    labels = [Slot.before, Slot.after, Slot.inside].map fun slot => (slot.label, slot) := rfl

theorem mem_labels (slot : Slot) : (slot.label, slot) ∈ labels := by
  rw [labels_eq]
  apply List.mem_map_of_mem
  cases slot <;> simp

theorem eq_label_of_mem_labels {entry : Text × Slot} (h : entry ∈ labels) :
    entry.1 = entry.2.label := by
  rw [labels_eq] at h
  obtain ⟨slot, -, rfl⟩ := List.mem_map.1 h
  rfl

/-- The place whose label a text starts with, and what stands behind the label. -/
def findLabel? (t : Text) : Option (Slot × Text) :=
  labels.findSome? fun label => (dropWord? label.1 t).map fun rest => (label.2, rest)

theorem exists_of_findLabel? {t rest : Text} {slot : Slot} (h : findLabel? t = some (slot, rest)) :
    ∃ label, t = label ++ rest ∧ lower label = slot.label := by
  obtain ⟨entry, hentry, hword⟩ := List.exists_of_findSome?_eq_some h
  obtain ⟨rest, hrest, heq⟩ := Option.map_eq_some_iff.1 hword
  obtain ⟨rfl, rfl⟩ := Prod.mk.inj heq
  obtain ⟨label, ht, hlower⟩ := exists_of_dropWord? hrest
  refine ⟨label, ht, ?_⟩
  rw [hlower, eq_label_of_mem_labels hentry, Slot.lower_label]

/-- A label is found in any spelling, and none of the others before it. -/
theorem findLabel?_append {label : Text} {slot : Slot} (h : lower label = slot.label)
    (rest : Text) : findLabel? (label ++ rest) = some (slot, rest) := by
  have hword : dropWord? slot.label (label ++ rest) = some rest :=
    dropWord?_append_of_lower_eq (h.trans slot.lower_label.symm) rest
  cases hfind : findLabel? (label ++ rest) with
  | none =>
    have hnone := List.findSome?_eq_none_iff.1 hfind _ (mem_labels slot)
    simp [hword] at hnone
  | some found =>
    obtain ⟨other, tail⟩ := found
    obtain ⟨spelling, htext, hspelling⟩ := exists_of_findLabel? hfind
    -- both labels start the text, so one of them starts the other
    have hslot : other = slot := by
      rcases List.append_eq_append_iff.1 htext with ⟨more, rfl, -⟩ | ⟨more, rfl, -⟩
      · refine (Slot.eq_of_label_prefix ?_).symm
        rw [← h, ← hspelling]
        exact ⟨lower more, by simp [lower]⟩
      · refine Slot.eq_of_label_prefix ?_
        rw [← h, ← hspelling]
        exact ⟨lower more, by simp [lower]⟩
    subst hslot
    have hlength : label.length = spelling.length := by
      have := congrArg List.length (h.trans hspelling.symm)
      simpa [lower] using this
    rw [(List.append_inj htext hlength).2]

theorem toLower_of_isBlank {c : Char} (h : isBlank c = true) : c.toLower = c := by
  refine dif_neg ?_
  rintro ⟨hA, hZ⟩
  have hA : 65 ≤ c.toNat := hA
  have hZ : c.toNat ≤ 90 := hZ
  simp only [isBlank, Bool.or_eq_true, Bool.and_eq_true, decide_eq_true_eq, beq_iff_eq] at h
  omega

/-- A label starts with a letter. -/
theorem isBlank_of_lower_eq_label {label : Text} {slot : Slot} (h : lower label = slot.label)
    (t : Text) : ∀ c ∈ (label ++ t).head?, isBlank c = false := by
  have hletter : label.head?.map Char.toLower = some 't' := by
    have hlabel : slot.label.head? = some 't' := by cases slot <;> decide +kernel
    rw [← hlabel, ← h, lower, List.head?_map]
  obtain ⟨d, hd, hlower⟩ := Option.map_eq_some_iff.1 hletter
  intro c hc
  obtain rfl : d = c := by simpa [hd] using hc
  rw [Bool.eq_false_iff]
  intro hblank
  rw [toLower_of_isBlank hblank] at hlower
  exact absurd hblank (by simp [hlower, isBlank])

/-- A comment is read as giving a place a text exactly if it does so. -/
theorem labelled?_eq_some_iff {comment text : Text} {slot : Slot} :
    labelled? comment = some (slot, text) ↔ Labels slot comment text := by
  constructor
  · intro h
    unfold labelled? at h
    split at h
    · next found body hfind =>
      obtain ⟨rfl, htext⟩ := Prod.mk.inj (Option.some.inj h)
      obtain ⟨label, htrim, hlabel⟩ := exists_of_findLabel? hfind
      refine ⟨comment.takeWhile isBlank, label, body, ?_, ?_, hlabel,
        dropFinalSpace_eq_iff.1 htext⟩
      · rw [← htrim]
        exact List.takeWhile_append_dropWhile.symm
      · exact List.all_eq_true.1 List.all_takeWhile
    · cases h
  · rintro ⟨blanks, label, body, rfl, hblanks, hlabel, hbody⟩
    have htrim : trimStart (blanks ++ (label ++ ' ' :: body)) = label ++ ' ' :: body :=
      dropWhile_append_stop hblanks (isBlank_of_lower_eq_label hlabel _)
    have hfind := findLabel?_append hlabel (' ' :: body)
    rw [findLabel?] at hfind
    unfold labelled?
    simp only [htrim, hfind, dropFinalSpace_eq_iff.2 hbody]

/-- What one more comment changes. -/
def Slots.fill (slots : Slots) (comment : Text) : Slots :=
  (labelled? comment).elim slots fun found => slots.put found.2 found.1

theorem Slots.ofRule_eq (rule : Css.Rule) :
    Slots.ofRule rule = rule.comments.foldl Slots.fill (declaredSlots rule) := by
  unfold Slots.ofRule
  congr 1
  funext slots comment
  rw [Slots.fill]
  cases labelled? comment <;> rfl

/-- A comment fills the place that it labels, over what was there, and no other. -/
theorem Slots.get_fill {slots : Slots} {comment text : Text} {slot : Slot} :
    (slots.fill comment).get slot = some text ↔
      Labels slot comment text ∨
        (∀ other, ¬ Labels slot comment other) ∧ slots.get slot = some text := by
  simp only [← labelled?_eq_some_iff, Slots.fill]
  cases labelled? comment with
  | none => simp
  | some found =>
    obtain ⟨place, label⟩ := found
    by_cases h : slot = place
    · subst h
      simp
    · simp [Slots.get_put_of_ne _ _ h, Ne.symm h]

/-- The last comment with the label of a place fills it. -/
theorem Slots.get_foldl_fill {slots : Slots} {comments : List Text} {slot : Slot} {text : Text} :
    (comments.foldl Slots.fill slots).get slot = some text ↔
      LastGives (Labels slot) comments text ∨
        (∀ comment ∈ comments, ∀ other, ¬ Labels slot comment other) ∧
          slots.get slot = some text := by
  induction comments using List.reverseRecOn with
  | nil => simp [lastGives_nil]
  | append_singleton comments comment ih =>
    rw [List.foldl_append, List.foldl_cons, List.foldl_nil, Slots.get_fill, ih, lastGives_concat]
    simp only [List.mem_append, List.mem_singleton]
    grind

/-! ## Properties -/

theorem stripQuotes_eq_iff {value text : Text} :
    stripQuotes value = text ↔ Unquotes value text := by
  cases value with
  | nil => simp [stripQuotes, Unquotes]
  | cons c t =>
    by_cases h : isQuote c = true ∧ t.getLast? = some c
    · obtain ⟨inner, rfl⟩ := List.getLast?_eq_some_iff.1 h.2
      rw [stripQuotes, if_pos h, List.dropLast_concat]
      constructor
      · rintro rfl
        exact Or.inl ⟨c, h.1, rfl⟩
      · rintro (⟨quote, -, heq⟩ | ⟨-, hbare⟩)
        · obtain ⟨rfl, htail⟩ := List.cons.inj heq
          exact (List.append_inj' htail rfl).1
        · exact absurd rfl (hbare c inner h.1)
    · rw [stripQuotes, if_neg h]
      constructor
      · rintro rfl
        refine Or.inr ⟨rfl, ?_⟩
        rintro quote inner hquote heq
        obtain ⟨rfl, rfl⟩ := List.cons.inj heq
        exact h ⟨hquote, by simp⟩
      · rintro (⟨quote, hquote, heq⟩ | ⟨rfl, -⟩)
        · obtain ⟨rfl, rfl⟩ := List.cons.inj heq
          exact absurd ⟨hquote, by simp⟩ h
        · rfl

theorem value?_eq_some_iff {rule : Css.Rule} {name value : Text} :
    rule.value? name = some value ↔ IsFirstValue rule name value := by
  simp only [Css.Rule.value?, Option.map_eq_some_iff, List.find?_eq_some_iff_append, IsFirstValue]
  constructor
  · rintro ⟨⟨found, value⟩, ⟨hname, front, back, heq, hfront⟩, rfl⟩
    obtain rfl : found = name := by simpa using hname
    exact ⟨front, back, heq, fun property hproperty => by simpa using hfront property hproperty⟩
  · rintro ⟨front, back, heq, hfront⟩
    refine ⟨(name, value), ⟨by simp, front, back, heq, ?_⟩, rfl⟩
    intro property hproperty
    simpa using hfront property hproperty

/-- A list of texts fills places in the order that goes with its length. -/
theorem Slots.get_ofList {texts : List Text} {slot : Slot} {text : Text} :
    (Slots.ofList texts).get slot = some text ↔
      (slot, text) ∈ (slotOrder texts.length).zip texts := by
  rcases texts with - | ⟨a, - | ⟨b, - | ⟨c, rest⟩⟩⟩ <;> cases slot <;>
    simp [Slots.ofList, Slots.get, slotOrder, eq_comm]

theorem Slots.get_ofList_eq_none {texts : List Text} {slot : Slot} :
    (Slots.ofList texts).get slot = none ↔ slot ∉ slotOrder texts.length := by
  rcases texts with - | ⟨a, - | ⟨b, - | ⟨c, rest⟩⟩⟩ <;> cases slot <;>
    simp [Slots.ofList, Slots.get, slotOrder]

/-- With a list of texts, a place has its part of the list, or else its own property. -/
theorem get_declaredSlots_of_some {rule : Css.Rule} {list : Text}
    (h : rule.value? "--text".toList = some list) (slot : Slot) :
    (declaredSlots rule).get slot =
      ((Slots.ofList ((list.splitOn ',').map fun part => stripQuotes (trim part))).get slot).or
        ((slot.property?.bind rule.value?).map stripQuotes) := by
  unfold declaredSlots
  rw [h]
  cases slot with
  | before => simp [Slots.get, Slot.property?]
  | inside => simp [Slots.get, Slot.property?]
  | after => simp [Slots.get, Slot.property?]

/-- Without a list of texts, no property fills a place. -/
theorem get_declaredSlots_of_none {rule : Css.Rule} (h : rule.value? "--text".toList = none)
    (slot : Slot) : (declaredSlots rule).get slot = none := by
  unfold declaredSlots
  rw [h]
  cases slot <;> rfl

/-- The properties fill a place with its part of the list, or with its own property if the list has
no part for it. -/
theorem get_declaredSlots {rule : Css.Rule} {slot : Slot} {text : Text} :
    (declaredSlots rule).get slot = some text ↔
      ∃ list, IsFirstValue rule "--text".toList list ∧
        ((∃ part, (slot, part) ∈ (slotOrder (list.splitOn ',').length).zip (list.splitOn ',') ∧
          Unquotes (trim part) text) ∨
        slot ∉ slotOrder (list.splitOn ',').length ∧
          ∃ name value, slot.property? = some name ∧ IsFirstValue rule name value ∧
            Unquotes value text) := by
  simp only [← value?_eq_some_iff, ← stripQuotes_eq_iff]
  cases hlist : rule.value? "--text".toList with
  | none => simp [get_declaredSlots_of_none hlist]
  | some list =>
    have hpart := @Slots.get_ofList
      ((list.splitOn ',').map fun part => stripQuotes (trim part)) slot
    have hnone := @Slots.get_ofList_eq_none
      ((list.splitOn ',').map fun part => stripQuotes (trim part)) slot
    rw [List.length_map] at hpart hnone
    simp [get_declaredSlots_of_some hlist, Option.or_eq_some_iff, hpart, hnone,
      List.zip_map_right, Option.bind_eq_some_iff]

/-! ## The text of a place -/

/-- A place is filled by the last comment with its label, else by the properties: by its part of the
first list of texts, or, if there is a list without a part for it, by the first value of its own
property.  Comments and properties do not take part in each other's order, so rules with the same
properties in order and the same comments in order have the same texts and attributes. -/
theorem slots_precedence (rule : Css.Rule) :
    (∀ slot text, (Slots.ofRule rule).get slot = some text ↔ Fills rule slot text) ∧
      ∀ other : Css.Rule, other.properties = rule.properties → other.comments = rule.comments →
        Slots.ofRule other = Slots.ofRule rule ∧
          declaredAttributes other = declaredAttributes rule := by
  refine ⟨fun slot text => ?_, fun other hproperties hcomments => ?_⟩
  · rw [Slots.ofRule_eq, Slots.get_foldl_fill, get_declaredSlots]
    constructor
    · rintro (hcomment | ⟨hfree, list, hlist, ⟨part, hpart, htext⟩ |
        ⟨hpart, name, value, hname, hvalue, htext⟩⟩)
      · exact .comment hcomment
      · exact .part hfree hlist hpart htext
      · exact .property hfree hlist hpart hname hvalue htext
    · rintro (hcomment | ⟨hfree, hlist, hpart, htext⟩ |
        ⟨hfree, hlist, hpart, hname, hvalue, htext⟩)
      · exact Or.inl hcomment
      · exact Or.inr ⟨hfree, _, hlist, Or.inl ⟨_, hpart, htext⟩⟩
      · exact Or.inr ⟨hfree, _, hlist, Or.inr ⟨hpart, _, _, hname, hvalue, htext⟩⟩
  · have hvalue (name : Text) : other.value? name = rule.value? name := by
      rw [Css.Rule.value?, hproperties, Css.Rule.value?]
    have hdeclared : declaredSlots other = declaredSlots rule := by
      simp only [declaredSlots, hvalue]
    refine ⟨?_, ?_⟩
    · rw [Slots.ofRule, hcomments, hdeclared, Slots.ofRule]
    · rw [declaredAttributes, hproperties, declaredAttributes]

/-- Properties of a rule: lists of texts come twice, and so does the property of a place. -/
def textProperties : List Css.Declaration :=
  [.property "--text-before".toList "\"b\"".toList, .property "--text".toList " 'i' ,a".toList,
    .property "--text-before".toList "no".toList, .property "--text".toList "n,n,n".toList]

/-- Comments of a rule: the second to last has no space behind its label. -/
def textComments : List Css.Declaration :=
  [.comment "TEXT: first".toList, .comment "\n tExT: \u00fc  ".toList,
    .comment "text-after:no".toList, .comment "text-before".toList]

theorem slots_precedence_textProperties :
    Slots.ofRule (.style "p".toList (textProperties ++ textComments)) =
        { before := some "b".toList, inside := some "\u00fc ".toList, after := some "a".toList } ∧
      Fills (.style "p".toList (textProperties ++ textComments)) .before "b".toList ∧
      Slots.ofRule (.style "p".toList (textComments ++ textProperties)) =
        Slots.ofRule (.style "p".toList (textProperties ++ textComments)) := by
  have hslots : Slots.ofRule (.style "p".toList (textProperties ++ textComments)) =
      { before := some "b".toList, inside := some "\u00fc ".toList, after := some "a".toList } := by
    decide +kernel
  obtain ⟨hfills, hsame⟩ :=
    slots_precedence (.style "p".toList (textProperties ++ textComments))
  refine ⟨hslots, (hfills .before "b".toList).1 ?_, (hsame _ ?_ ?_).1⟩
  · rw [hslots]
    rfl
  · decide +kernel
  · decide +kernel

end Scaffold
