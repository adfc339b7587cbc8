import Scaffold.Html.Layout
import Scaffold.Proofs.Html.Lexing
import Scaffold.Proofs.Text.Cut

/-!
# Reading what was written

Each piece of a layout is read back as what it was written for, with whatever stands behind it
left to read: values and attributes, tags, comments, document types and text.  The pieces are
those of sound tokens; besides, behind a bare attribute there must be none whose name starts with
an equals sign, because it would be read as the value of the bare one (`Apart`).
-/

namespace Scaffold.Html

open Scaffold.Text

/-! ## Text -/

/-- Whether a character of ordinary text is written as a reference. -/
def isEscaped (c : Char) : Bool :=
  c == '&' || c == '<' || c == '>'

theorem escapeTextChar_of_not_isEscaped {c : Char} (h : isEscaped c = false) :
    escapeTextChar c = [c] := by
  simp only [isEscaped, Bool.or_eq_false_iff, beq_eq_false_iff_ne] at h
  rw [escapeTextChar, if_neg h.1.1, if_neg h.1.2, if_neg h.2]

/-- The references that stand for the characters that are escaped. -/
def escapes : List Text :=
  ["&amp;", "&lt;", "&gt;"].map String.toList

theorem escapeTextChar_mem {c : Char} (h : isEscaped c = true) : escapeTextChar c ∈ escapes := by
  simp only [isEscaped, Bool.or_eq_true, beq_iff_eq] at h
  rcases h with (rfl | rfl) | rfl <;> decide

theorem notMem_escapeTextChar {c d : Char} (hd : d ∉ escapes.flatten)
    (h : d = c → isEscaped c = true) : d ∉ escapeTextChar c := by
  intro hmem
  cases hescaped : isEscaped c with
  | false =>
    rw [escapeTextChar_of_not_isEscaped hescaped, List.mem_singleton] at hmem
    exact absurd (h hmem) (by simp [hescaped])
  | true => exact hd (List.mem_flatten.2 ⟨_, escapeTextChar_mem hescaped, hmem⟩)

/-- A character that no reference is spelled with does not get into what is written, unless the
text holds it and it is not escaped. -/
theorem notMem_escapeText {d : Char} (hd : d ∉ escapes.flatten) {s : Text}
    (h : d ∈ s → isEscaped d = true) : d ∉ escapeText s := by
  intro hmem
  obtain ⟨c, hc, hmem⟩ := List.mem_flatMap.1 hmem
  exact notMem_escapeTextChar hd (fun heq => heq ▸ h (heq ▸ hc)) hmem

/-- A character of text is written as it is, or as a reference to it. -/
theorem escapeTextChar_cases (c : Char) :
    (escapeTextChar c = [c] ∧ c ≠ '&' ∧ c ≠ '<') ∨
      ∃ name, escapeTextChar c = '&' :: name ∧ ∀ t, reference false (name ++ t) = ([c], t) := by
  by_cases hamp : c = '&'
  · subst hamp
    exact Or.inr ⟨"amp;".toList, rfl, reference_amp false⟩
  by_cases hlt : c = '<'
  · subst hlt
    exact Or.inr ⟨"lt;".toList, rfl, reference_lt⟩
  by_cases hgt : c = '>'
  · subst hgt
    exact Or.inr ⟨"gt;".toList, rfl, reference_gt⟩
  refine Or.inl ⟨?_, hamp, hlt⟩
  rw [escapeTextChar, if_neg hamp, if_neg hlt, if_neg hgt]

/-- A character is read back from what is written for it. -/
theorem tokens_escapeTextChar {c : Char} (h : c ≠ nul) (t : Text) :
    tokens (escapeTextChar c ++ t) = .text [c] :: tokens t := by
  rcases escapeTextChar_cases c with ⟨hc, hamp, hlt⟩ | ⟨name, hc, href⟩
  · rw [hc, List.singleton_append, tokens, if_neg hlt, if_neg hamp, if_neg h]
  · rw [hc, List.cons_append, tokens, if_neg (by decide), if_pos rfl, href]

/-- Text that was written is read back character by character. -/
theorem tokens_escapeText {s : Text} (h : nul ∉ s) (t : Text) :
    tokens (escapeText s ++ t) = s.map (fun c => .text [c]) ++ tokens t := by
  induction s with
  | nil => rfl
  | cons c s ih =>
    simp only [List.mem_cons, not_or] at h
    rw [escapeText, List.flatMap_cons, List.append_assoc, tokens_escapeTextChar (Ne.symm h.1),
      List.map_cons, List.cons_append, ← ih h.2, escapeText]

theorem readEscapable_escapeTextChar {c : Char} (h : c ≠ nul) (name t : Text) :
    readEscapable name (escapeTextChar c ++ t) =
      Prod.map (c :: ·) id (readEscapable name t) := by
  rcases escapeTextChar_cases c with ⟨hc, hamp, hlt⟩ | ⟨entity, hc, href⟩
  · rw [hc, List.singleton_append, readEscapable, readResolved, if_neg (by simp [hlt]),
      if_neg hamp, kept_eq h]
    rfl
  · rw [hc, List.cons_append, readEscapable, readResolved, if_neg (by simp), if_pos rfl, href]
    rfl

/-- Text that was escaped is read back in escapable content as well. -/
theorem readEscapable_escapeText {s : Text} (h : nul ∉ s) (name t : Text) :
    readEscapable name (escapeText s ++ t) = Prod.map (s ++ ·) id (readEscapable name t) := by
  induction s with
  | nil => rfl
  | cons c s ih =>
    simp only [List.mem_cons, not_or] at h
    rw [escapeText, List.flatMap_cons, List.append_assoc,
      readEscapable_escapeTextChar (Ne.symm h.1), ← escapeText, ih h.2]
    rfl

/-! ## Values -/

theorem quotedValue?_escapeValueChar {c : Char} (h : c ≠ nul) (t : Text) :
    quotedValue? '"' (escapeValueChar c ++ t) =
      (quotedValue? '"' t).map (Prod.map (c :: ·) id) := by
  by_cases hamp : c = '&'
  · subst hamp
    show quotedValue? '"' ('&' :: ("amp;".toList ++ t)) = _
    rw [quotedValue?, if_neg (by decide), if_pos rfl, reference_amp]
    rfl
  by_cases hquote : c = '"'
  · subst hquote
    show quotedValue? '"' ('&' :: ("quot;".toList ++ t)) = _
    rw [quotedValue?, if_neg (by decide), if_pos rfl, reference_quot]
    rfl
  rw [escapeValueChar, if_neg hamp, if_neg hquote, List.singleton_append, quotedValue?,
    if_neg hquote, if_neg hamp, kept_eq h]

/-- A value that was escaped is read back up to its closing quote. -/
theorem quotedValue?_escapeValue {v : Text} (h : nul ∉ v) (t : Text) :
    quotedValue? '"' (escapeValue v ++ '"' :: t) = some (v, t) := by
  induction v with
  | nil => rw [escapeValue, List.flatMap_nil, List.nil_append, quotedValue?, if_pos rfl]
  | cons c v ih =>
    simp only [List.mem_cons, not_or] at h
    rw [escapeValue, List.flatMap_cons, List.append_assoc,
      quotedValue?_escapeValueChar (Ne.symm h.1), ← escapeValue, ih h.2]
    rfl

/-! ## Attributes -/

/-- What may stand behind an attribute: something that ends its name and, if it is bare, does not
give it a value. -/
def EndsAttribute (a : Attribute) (t : Text) : Prop :=
  (∃ c u, t = c :: u ∧ endsTagName c = true) ∧
    (a.value = [] → (t.dropWhile isSpace).head? ≠ some '=')

/-- Attributes among which none stands right behind a bare one and starts with an equals sign. -/
def Apart (as : List Attribute) : Prop :=
  as.IsChain fun a b => a.value = [] → b.name.head? ≠ some '='

/-- An attribute that can be written wherever it stands. -/
structure Attribute.Writable (a : Attribute) : Prop extends a.Sound where
  no_equals : a.name.head? ≠ some '='
  no_return : '\r' ∉ a.value

/-- Attributes that can be written are apart, since none starts with an equals sign. -/
theorem apart_of_writable {as : List Attribute} (h : ∀ a ∈ as, a.Writable) : Apart as := by
  induction as with
  | nil => exact .nil
  | cons a as ih =>
    have has := fun b hb => h b (List.mem_cons_of_mem a hb)
    cases as with
    | nil => exact .singleton a
    | cons b as =>
      exact List.isChain_cons_cons.2 ⟨fun _ => (has b List.mem_cons_self).no_equals, ih has⟩

/-- The name and the value of an attribute as they are written behind the space. -/
theorem Attribute.layout_append (a : Attribute) (t : Text) :
    a.layout ++ t =
      ' ' :: (a.name ++ ((if a.value.isEmpty then [] else
        "=\"".toList ++ escapeValue a.value ++ ['"']) ++ t)) := by
  simp [layout]

theorem endsAttributeName_of_endsTagName {c : Char} (h : endsTagName c = true) :
    endsAttributeName c = true := by
  rw [endsAttributeName, h, Bool.true_or]

/-- A name is read up to what ends it. -/
theorem cut_name {ends : Char → Bool} {name t : Text} (hname : ∀ d ∈ name, ends d = false)
    (ht : ∃ c u, t = c :: u ∧ ends c = true) :
    (name ++ t).takeWhile (fun d => !ends d) = name ∧
      (name ++ t).dropWhile (fun d => !ends d) = t := by
  obtain ⟨c, u, rfl, hc⟩ := ht
  exact cut_at_end hname (by simp [hc])

theorem map_nameChar {name : Text} (h : ∀ c ∈ name, nameChar c = c) : name.map nameChar = name :=
  (List.map_congr_left h).trans (List.map_id name)

/-- An attribute that was written is read back. -/
theorem readAttribute?_layout {a : Attribute} (h : a.Sound) {c : Char} {name : Text}
    (hname : a.name = c :: name) (htail : ∀ d ∈ name, endsAttributeName d = false) {t : Text}
    (ht : EndsAttribute a t) :
    readAttribute? c (name ++ ((if a.value.isEmpty then [] else
      "=\"".toList ++ escapeValue a.value ++ ['"']) ++ t)) = some (a, t) := by
  have hkept : nameChar c :: name.map nameChar = a.name := by
    rw [← List.map_cons, ← hname, map_nameChar fun d hd => (h.kept d hd).1]
  obtain ⟨⟨d, u, rfl, hd⟩, hequals⟩ := ht
  cases hvalue : a.value with
  | nil =>
    obtain ⟨htake, hdrop⟩ := cut_name htail
      ⟨d, u, rfl, endsAttributeName_of_endsTagName hd⟩
    rw [List.isEmpty_nil, if_pos rfl, List.nil_append, readAttribute?, htake, hdrop, hkept]
    split
    -- an equals sign in what follows would be taken for one of this attribute
    · next heq => exact absurd (by rw [heq]; rfl) (hequals hvalue)
    · rw [← hvalue]
  | cons v vs =>
    have hvalue' : escapeValue (v :: vs) ++ ['"'] ++ d :: u =
        escapeValue a.value ++ '"' :: d :: u := by
      rw [hvalue, List.append_assoc, List.singleton_append]
    obtain ⟨htake, hdrop⟩ := cut_name htail
      ⟨'=', '"' :: (escapeValue a.value ++ '"' :: d :: u), rfl, rfl⟩
    have htext : (if (v :: vs).isEmpty then [] else
        "=\"".toList ++ escapeValue (v :: vs) ++ ['"']) ++ d :: u =
        '=' :: '"' :: (escapeValue a.value ++ '"' :: d :: u) := by
      rw [← hvalue']
      rfl
    rw [htext, readAttribute?, htake, hdrop, hkept]
    show (readValue? ('"' :: (escapeValue a.value ++ '"' :: d :: u))).map _ = _
    rw [readValue?, quotedValue?_escapeValue h.value]
    rfl

/-! ## Tags -/

/-- The end of a tag. -/
def tagEnd (selfClosing : Bool) : Text :=
  if selfClosing then " />".toList else ">".toList

/-- The end of a tag ends an attribute. -/
theorem endsAttribute_tagEnd (a : Attribute) (selfClosing : Bool) (t : Text) :
    EndsAttribute a (tagEnd selfClosing ++ t) := by
  cases selfClosing with
  | false => exact ⟨⟨'>', t, rfl, rfl⟩, fun _ => by simp [tagEnd, isSpace]⟩
  | true => exact ⟨⟨' ', _, rfl, rfl⟩, fun _ => by simp [tagEnd, isSpace]⟩

/-- An attribute ends the one before it, if it is not taken for the value of that one. -/
theorem endsAttribute_layout {a b : Attribute} (hb : b.Sound)
    (hapart : a.value = [] → b.name.head? ≠ some '=') (t : Text) :
    EndsAttribute a (b.layout ++ t) := by
  obtain ⟨c, name, hname, hc, -⟩ := hb.starts
  have hspace : isSpace c = false := by
    simp only [endsTagName, Bool.or_eq_false_iff] at hc
    exact hc.1.1
  rw [b.layout_append, hname, List.cons_append]
  refine ⟨⟨' ', _, rfl, rfl⟩, fun hbare => ?_⟩
  have hequals := hapart hbare
  rw [hname] at hequals
  rw [List.dropWhile_cons_of_pos rfl, List.dropWhile_cons_of_neg (by simp [hspace])]
  exact hequals

/-- What is written behind an attribute ends it. -/
theorem endsAttribute_attributes {a : Attribute} {as : List Attribute} (h : ∀ b ∈ as, b.Sound)
    (hapart : Apart (a :: as)) (selfClosing : Bool) (t : Text) :
    EndsAttribute a (as.flatMap Attribute.layout ++ (tagEnd selfClosing ++ t)) := by
  cases as with
  | nil => exact endsAttribute_tagEnd a selfClosing t
  | cons b as =>
    rw [List.flatMap_cons, List.append_assoc]
    exact endsAttribute_layout (h b List.mem_cons_self) (List.isChain_cons_cons.1 hapart).1 _

theorem readTagRest?_space (t : Text) : readTagRest? (' ' :: t) = readTagRest? t := by
  rw [readTagRest?.eq_def]
  rfl

theorem readTagRest?_tagEnd (selfClosing : Bool) (t : Text) :
    readTagRest? (tagEnd selfClosing ++ t) = some { attributes := [], selfClosing, rest := t } := by
  cases selfClosing with
  | false =>
    show readTagRest? ('>' :: t) = _
    rw [readTagRest?.eq_def]
    rfl
  | true =>
    show readTagRest? (' ' :: '/' :: '>' :: t) = _
    rw [readTagRest?_space, readTagRest?.eq_def]
    rfl

/-- An attribute is read, and the rest of the tag behind it. -/
theorem readTagRest?_attribute {c : Char} {t rest : Text} {a : Attribute}
    (hc : endsTagName c = false) (h : readAttribute? c t = some (a, rest)) :
    readTagRest? (c :: t) =
      (readTagRest? rest).map fun tag => { tag with attributes := a :: tag.attributes } := by
  simp only [endsTagName, Bool.or_eq_false_iff, beq_eq_false_iff_ne] at hc
  obtain ⟨⟨hspace, hslash⟩, hbracket⟩ := hc
  rw [readTagRest?.eq_def]
  simp only [hspace, Bool.false_eq_true, if_false, if_neg hbracket, if_neg hslash]
  split <;> simp_all

/-- Attributes that were written are read back up to the end of their tag. -/
theorem readTagRest?_attributes {as : List Attribute} (h : ∀ a ∈ as, a.Sound) (hapart : Apart as)
    (selfClosing : Bool) (t : Text) :
    readTagRest? (as.flatMap Attribute.layout ++ (tagEnd selfClosing ++ t)) =
      some { attributes := as, selfClosing, rest := t } := by
  induction as with
  | nil => exact readTagRest?_tagEnd selfClosing t
  | cons a as ih =>
    have ha := h a List.mem_cons_self
    have has := fun b hb => h b (List.mem_cons_of_mem _ hb)
    obtain ⟨c, name, hname, hc, htail⟩ := ha.starts
    have hread := readAttribute?_layout ha hname htail
      (endsAttribute_attributes has hapart selfClosing t)
    rw [List.flatMap_cons, List.append_assoc, a.layout_append, readTagRest?_space, hname,
      List.cons_append, readTagRest?_attribute hc hread, ih has hapart.tail]
    rfl

/-- Attributes with different names all stay. -/
theorem distinct_of_nodup {as : List Attribute} (h : (as.map Attribute.name).Nodup) :
    distinct as = as := by
  induction as with
  | nil => rfl
  | cons a as ih =>
    rw [List.map_cons, List.nodup_cons] at h
    rw [distinct, ih h.2, List.filter_eq_self.2]
    intro b hb
    simp only [bne_iff_ne, ne_eq]
    intro heq
    exact h.1 (heq ▸ List.mem_map_of_mem hb)

/-- A tag that was written is read back. -/
theorem readTag?_written {name : Text} {as : List Attribute} (hname : IsTagName name)
    (has : ∀ a ∈ as, a.Sound) (hapart : Apart as) (hnodup : (as.map Attribute.name).Nodup)
    (selfClosing : Bool) (t : Text) :
    readTag? (name ++ (as.flatMap Attribute.layout ++ (tagEnd selfClosing ++ t))) =
      some { name, attributes := as, selfClosing, rest := t } := by
  obtain ⟨c, u, hu, hc⟩ : ∃ c u, as.flatMap Attribute.layout ++ (tagEnd selfClosing ++ t) =
      c :: u ∧ endsTagName c = true := by
    cases as with
    | nil => cases selfClosing <;> exact ⟨_, _, rfl, rfl⟩
    | cons a as => exact ⟨' ', _, rfl, rfl⟩
  obtain ⟨htake, hdrop⟩ := cut_name hname.ends ⟨c, u, rfl, hc⟩
  rw [readTag?, hu, htake, hdrop, ← hu, readTagRest?_attributes has hapart, Option.map_some,
    distinct_of_nodup hnodup, map_nameChar fun d hd => (hname.kept d hd).1]

theorem markup_of_isAlpha {c : Char} (hc : c.isAlpha = true) (t : Text) :
    markup (c :: t) = startTag (c :: t) := by
  rw [markup, if_pos hc]
  all_goals exact ne_of_apply_ne Char.isAlpha (hc.trans_ne (by decide))

theorem markup_name {name : Text} (h : IsTagName name) (t : Text) :
    markup (name ++ t) = startTag (name ++ t) := by
  obtain ⟨c, u, rfl, hc⟩ := h.starts
  exact markup_of_isAlpha hc (u ++ t)

/-- A start tag that was written is read back, if its content is read as markup. -/
theorem tokens_openTag {name : Text} {as : List Attribute} (hname : IsTagName name)
    (has : ∀ a ∈ as, a.Sound) (hapart : Apart as) (hnodup : (as.map Attribute.name).Nodup)
    {selfClosing : Bool}
    (h : contentOf? name = none ∨ (selfClosing || isVoid name) = true) (t : Text) :
    tokens (openTag name as ++ (tagEnd selfClosing ++ t)) =
      .startTag name as selfClosing :: tokens t := by
  have hread := readTag?_written hname has hapart hnodup selfClosing t
  have htag : startTag (name ++ (as.flatMap Attribute.layout ++ (tagEnd selfClosing ++ t))) =
      ([.startTag name as selfClosing], t) := by
    rw [startTag, hread]
    dsimp only
    split
    · rfl
    · next hopen =>
      rw [h.resolve_right hopen]
  rw [openTag, List.append_assoc, List.cons_append, tokens, if_pos rfl, markup_name hname, htag]
  rfl

/-- Behind the tag of an element whose content is not markup, text is read up to the closing
tag. -/
theorem tokens_openTag_content {name : Text} {as : List Attribute} (hname : IsTagName name)
    (has : ∀ a ∈ as, a.Sound) (hapart : Apart as) (hnodup : (as.map Attribute.name).Nodup)
    {content : Content} (h : contentOf? name = some content) (hvoid : isVoid name = false)
    (t : Text) :
    tokens (openTag name as ++ (tagEnd false ++ t)) =
      .startTag name as false ::
        ((if (readContent content name t).1.isEmpty then []
          else [.text (readContent content name t).1]) ++
            tokens (readContent content name t).2) := by
  have hread := readTag?_written hname has hapart hnodup false t
  have htag : startTag (name ++ (as.flatMap Attribute.layout ++ (tagEnd false ++ t))) =
      (.startTag name as false :: (if (readContent content name t).1.isEmpty then []
        else [.text (readContent content name t).1]), (readContent content name t).2) := by
    rw [startTag, hread]
    dsimp only
    rw [if_neg (by simp [hvoid]), h]
    rfl
  rw [openTag, List.append_assoc, List.cons_append, tokens, if_pos rfl, markup_name hname, htag]
  rfl

/-- A closing tag that was written is read back. -/
theorem tokens_closeTag {name : Text} (h : IsTagName name) (t : Text) :
    tokens (closeTag name ++ t) = .endTag name :: tokens t := by
  have hread : readTag? (name ++ '>' :: t) =
      some { name, attributes := [], selfClosing := false, rest := t } :=
    readTag?_written h (List.forall_mem_nil Attribute.Sound) .nil List.nodup_nil false t
  have htag : endTag (name ++ '>' :: t) = ([.endTag name], t) := by
    obtain ⟨c, u, rfl, hc⟩ := h.starts
    rw [List.cons_append] at hread ⊢
    rw [endTag_of_isAlpha hc, hread]
  have htext : closeTag name ++ t = '<' :: '/' :: (name ++ '>' :: t) := by
    simp [closeTag]
  rw [htext, tokens, if_pos rfl]
  show (endTag (name ++ '>' :: t)).1 ++ tokens (endTag (name ++ '>' :: t)).2 = _
  rw [htag]
  rfl

theorem closes_closeTag (name t : Text) : closes name ('/' :: (name ++ '>' :: t)) = true := by
  rw [closes, startsTag, dropWord?_append_of_lower_eq rfl]
  rfl

/-- Escapable content stops at the closing tag of its element. -/
theorem readEscapable_closeTag (name t : Text) :
    readEscapable name (closeTag name ++ t) = ([], closeTag name ++ t) := by
  have htext : closeTag name ++ t = '<' :: '/' :: (name ++ '>' :: t) := by
    simp [closeTag]
  rw [htext, readEscapable, readResolved, if_pos (by simp [closes_closeTag name t])]

/-! ## Comments and document types -/

/-- A comment that was written is read back. -/
theorem tokens_comment {s : Text} (h : Token.Sound (.comment s)) (t : Text) :
    tokens ("<!--".toList ++ s ++ "-->".toList ++ t) = .comment s :: tokens t := by
  have hread := readComment_append h.1 h.2.1 t
  show tokens ('<' :: '!' :: '-' :: '-' :: (s ++ "-->".toList ++ t)) = _
  rw [tokens, if_pos rfl]
  show [Token.comment (readComment .start (s ++ "-->".toList ++ t)).1] ++
    tokens (readComment .start (s ++ "-->".toList ++ t)).2 = _
  rw [hread]
  rfl

/-- A document type that was written is read back. -/
theorem tokens_doctype {name : Text} (h : Token.Sound (.doctype (some name))) (t : Text) :
    tokens ("<!doctype ".toList ++ name ++ ['>'] ++ t) =
      .doctype (if name.isEmpty then none else some name) :: tokens t := by
  have hends : ∀ c ∈ name, (!(isSpace c || c == '>')) = true := fun c hc => by
    rw [(h c hc).1]
    rfl
  have hspace : (name ++ '>' :: t).dropWhile isSpace = name ++ '>' :: t := by
    cases name with
    | nil => rfl
    | cons c name =>
      have hc := (h c List.mem_cons_self).1
      rw [Bool.or_eq_false_iff] at hc
      rw [List.cons_append, List.dropWhile_cons_of_neg (by simp [hc.1])]
  have hbracket : ∀ c ∈ name, (c != '>') = true := fun c hc => by
    have := (h c hc).1
    rw [Bool.or_eq_false_iff] at this
    simpa using this.2
  have hkept : name.map nameChar = name := map_nameChar fun c hc => (h c hc).2.1
  have hread : doctype (' ' :: (name ++ '>' :: t)) =
      ([.doctype (if name.isEmpty then none else some name)], t) := by
    rw [doctype, List.dropWhile_cons_of_pos rfl, hspace,
      List.takeWhile_append_of_pos hends, List.dropWhile_append_of_pos hbracket,
      List.takeWhile_cons_of_neg (by decide), List.dropWhile_cons_of_neg (by decide),
      List.append_nil, List.tail_cons, hkept]
  have htext : "<!doctype ".toList ++ name ++ ['>'] ++ t =
      '<' :: '!' :: ("doctype".toList ++ ' ' :: (name ++ '>' :: t)) := by
    simp
  rw [htext, tokens, if_pos rfl]
  have hdeclaration : markup ('!' :: ("doctype".toList ++ ' ' :: (name ++ '>' :: t))) =
      doctype (' ' :: (name ++ '>' :: t)) := rfl
  rw [hdeclaration, hread]
  rfl

end Scaffold.Html
