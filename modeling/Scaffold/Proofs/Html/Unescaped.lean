import Scaffold.Proofs.Html.Tags

/-!
# Markup that is written without escapes

Texts and values can be written as they stand.  They are not read back as they were written, since
an ampersand may start a reference, but they end where they were meant to end: no reference goes
past a bracket or a quote (`reference_append`).  So a text without an opening bracket adds nothing
to the marks that are read (`shows_text`), and a tag whose values hold no quote is read as one tag
(`shows_rawTag`).
-/

namespace Scaffold.Html

open Scaffold.Text

/-! ## References -/

/-- A character that stands in no reference. -/
def isBorder (c : Char) : Bool :=
  c == '<' || c == '"'

/-- No name in the table is spelled with a bracket or a quote; checked byte by byte. -/
theorem nameBytes_of_entity (c : Char) :
    (entitiesFrom c).all (fun entity =>
      entity.1.toByteArray.data.toList.all fun b => b != 0x3c && b != 0x22) = true := by
  unfold entitiesFrom
  split <;> decide +kernel

theorem notMem_of_nameBytes {s : String} {c : Char} (hc : isBorder c = true)
    (h : s.toByteArray.data.toList.all (fun b => b != 0x3c && b != 0x22) = true) :
    c ∉ s.toList := by
  intro hmem
  have hbyte : ∃ b ∈ String.utf8EncodeChar c, (b != 0x3c && b != 0x22) = false := by
    simp only [isBorder, Bool.or_eq_true, beq_iff_eq] at hc
    rcases hc with rfl | rfl <;> decide
  obtain ⟨b, hb, hfalse⟩ := hbyte
  have hall : (b != 0x3c && b != 0x22) = true := by
    refine List.all_eq_true.1 h b ?_
    rw [← String.utf8Encode_toList, List.utf8Encode, List.data_toByteArray]
    exact List.mem_flatMap.2 ⟨c, hmem, hb⟩
  rw [hfalse] at hall
  cases hall

section Border

variable {c : Char} (hc : isBorder c = true)
include hc

theorem isBorder_facts :
    c ≠ ';' ∧ c ≠ '#' ∧ c ≠ 'x' ∧ c ≠ 'X' ∧ isHexDigit c = false ∧ c.isDigit = false := by
  simp only [isBorder, Bool.or_eq_true, beq_iff_eq] at hc
  rcases hc with rfl | rfl <;> decide

/-- Reading digits goes past no character that is neither one of them nor a semicolon. -/
theorem notMem_of_digits? {base : Nat} {isDigit : Char → Bool} (hdigit : isDigit c = false)
    {t rest : Text} {d : Char} (h : digits? base isDigit t = some (d, rest)) :
    ∃ front, t = front ++ rest ∧ c ∉ front := by
  have htake : c ∉ t.takeWhile isDigit := by
    intro hmem
    have := List.mem_takeWhile_imp hmem
    rw [hdigit] at this
    cases this
  rw [digits?] at h
  split at h
  · cases h
  · obtain ⟨-, rfl⟩ := Prod.mk.inj (Option.some.inj h)
    have hsplit := List.takeWhile_append_dropWhile (p := isDigit) (l := t)
    unfold dropSemicolon
    split
    · next u heq =>
      refine ⟨t.takeWhile isDigit ++ [';'], ?_, ?_⟩
      · rw [List.append_assoc, List.singleton_append, ← heq, hsplit]
      · simp [htake, (isBorder_facts hc).1]
    · exact ⟨t.takeWhile isDigit, hsplit.symm, htake⟩

theorem notMem_of_numeric? {t rest : Text} {d : Char} (h : numeric? t = some (d, rest)) :
    ∃ front, t = front ++ rest ∧ c ∉ front := by
  obtain ⟨-, -, hx, hX, hhex, hdigit⟩ := isBorder_facts hc
  unfold numeric? at h
  split at h
  · obtain ⟨front, rfl, hfront⟩ := notMem_of_digits? hc hhex h
    exact ⟨'x' :: front, rfl, by simp [hx, hfront]⟩
  · obtain ⟨front, rfl, hfront⟩ := notMem_of_digits? hc hhex h
    exact ⟨'X' :: front, rfl, by simp [hX, hfront]⟩
  · exact notMem_of_digits? hc hdigit h

/-- Reading a name goes past no bracket and no quote. -/
theorem notMem_of_named? {inAttribute : Bool} {t characters rest : Text}
    (h : named? inAttribute t = some (characters, rest)) :
    ∃ front, t = front ++ rest ∧ c ∉ front := by
  unfold named? at h
  split at h
  · cases h
  · next d t =>
    split at h
    · cases h
    · next name characters' hfind =>
      dsimp only at h
      split at h
      · cases h
      · obtain ⟨-, rfl⟩ := Prod.mk.inj (Option.some.inj h)
        have hstart := List.find?_some hfind
        have hmem := List.mem_of_find?_eq_some hfind
        have hbytes := List.all_eq_true.1 (nameBytes_of_entity d) _ hmem
        refine ⟨name.toList, ?_, notMem_of_nameBytes hc hbytes⟩
        exact (List.prefix_iff_eq_append.1 (by simpa using hstart)).symm

/-- No reference goes past a bracket or a quote. -/
theorem notMem_of_reference (inAttribute : Bool) (t : Text) :
    ∃ front, t = front ++ (reference inAttribute t).2 ∧ c ∉ front := by
  have hnothing : ∃ front, t = front ++ t ∧ c ∉ front := ⟨[], rfl, by simp⟩
  unfold reference
  split
  · next rest =>
    split
    · next h =>
      obtain ⟨front, rfl, hfront⟩ := notMem_of_numeric? hc h
      exact ⟨'#' :: front, rfl, by simp [(isBorder_facts hc).2.1, hfront]⟩
    · exact hnothing
  · cases h : named? inAttribute t with
    | none => exact hnothing
    | some result => exact notMem_of_named? hc h

/-- No reference goes past a bracket or a quote. -/
theorem reference_append (inAttribute : Bool) {s : Text} (hs : c ∉ s) (t : Text) :
    ∃ u, u <:+ s ∧ (reference inAttribute (s ++ c :: t)).2 = u ++ c :: t := by
  obtain ⟨front, hsplit, hfront⟩ := notMem_of_reference hc inAttribute (s ++ c :: t)
  rcases List.append_eq_append_iff.1 hsplit with ⟨v, rfl, hv⟩ | ⟨u, rfl, hu⟩
  · cases v with
    | nil => exact ⟨[], List.nil_suffix, hv.symm⟩
    | cons d v =>
      obtain ⟨rfl, -⟩ := List.cons.inj hv
      exact absurd (by simp) hfront
  · exact ⟨u, List.suffix_append front u, hu⟩

end Border

/-! ## Values -/

/-- A value is read up to the quote that ends it. -/
theorem quotedValue?_append {v : Text} (hv : '"' ∉ v) (t : Text) :
    ∃ value, quotedValue? '"' (v ++ '"' :: t) = some (value, t) := by
  induction hn : v.length using Nat.strongRecOn generalizing v with
  | _ n ih =>
    cases v with
    | nil =>
      rw [List.nil_append, quotedValue?, if_pos rfl]
      exact ⟨[], rfl⟩
    | cons c v =>
      simp only [List.mem_cons, not_or] at hv
      rw [List.cons_append, quotedValue?, if_neg (Ne.symm hv.1)]
      by_cases hamp : c = '&'
      · obtain ⟨u, hu, hrest⟩ := reference_append (c := '"') rfl true hv.2 t
        have hlength := hu.length_le
        have hquote : '"' ∉ u := fun h => hv.2 (hu.subset h)
        obtain ⟨value, hvalue⟩ := ih u.length (by simp at hn; omega) hquote rfl
        rw [if_pos hamp, hrest, hvalue]
        exact ⟨_, rfl⟩
      · obtain ⟨value, hvalue⟩ := ih v.length (by simp at hn; omega) hv.2 rfl
        rw [if_neg hamp, hvalue]
        exact ⟨_, rfl⟩

/-! ## Marks that are read -/

/-- A token without the attributes of its tag. -/
def Token.bare : Token → Token
  | .startTag name _ selfClosing => .startTag name [] selfClosing
  | token => token

/-- The marks that are read from a text behind others, without their attributes. -/
def shapes (t : Text) : List Token :=
  (marks (tokens (lineFeeds t))).map Token.bare

/-- `Shows x ms` says that `x` gives the marks `ms` wherever it stands. -/
def Shows (x : Text) (ms : List Token) : Prop :=
  ∀ t, shapes (x ++ t) = ms ++ shapes t

theorem shows_nil : Shows [] [] :=
  fun _ => rfl

/-- Pieces that show marks show them one after the other. -/
theorem Shows.append {x y : Text} {ms ns : List Token} (hx : Shows x ms) (hy : Shows y ns) :
    Shows (x ++ y) (ms ++ ns) := by
  intro t
  rw [List.append_assoc, hx, hy, List.append_assoc]

/-- A text that is empty or starts with a bracket. -/
def AtBracket (t : Text) : Prop :=
  t = [] ∨ ∃ u, t = '<' :: u

theorem AtBracket.lineFeeds {t : Text} (h : AtBracket t) : AtBracket (lineFeeds t) := by
  rcases h with rfl | ⟨u, rfl⟩
  · exact Or.inl rfl
  · refine Or.inr ⟨Html.lineFeeds u, ?_⟩
    rw [lineFeeds_cons fun h => absurd h (by decide), if_neg (by decide)]

theorem AtBracket.head? {t : Text} (h : AtBracket t) : t.head? ≠ some '\n' := by
  rcases h with rfl | ⟨u, rfl⟩ <;> simp

/-- Line ends can be read stretch by stretch, unless one is cut in two. -/
theorem lineFeeds_append {s t : Text} (h : t.head? ≠ some '\n') :
    lineFeeds (s ++ t) = lineFeeds s ++ lineFeeds t := by
  have hchars := lineFeeds_flatMap (f := fun c => [c]) (s := s) rfl rfl
    (fun c hc => by simpa using Ne.symm hc) (fun c hc => ⟨c, [], rfl, hc⟩) fun _ => h
  simpa using hchars

/-- A text without an opening bracket, up to the next one, adds no mark. -/
theorem marks_tokens_text {s t : Text} (hs : '<' ∉ s) (ht : AtBracket t) :
    marks (tokens (s ++ t)) = marks (tokens t) := by
  -- not by structure: a reference takes several characters at once
  induction hn : s.length using Nat.strongRecOn generalizing s with
  | _ n ih =>
    cases s with
    | nil => rfl
    | cons c s =>
      simp only [List.mem_cons, not_or] at hs
      have hmore := ih s.length (by simp at hn; omega) hs.2 rfl
      rw [List.cons_append, tokens, if_neg (Ne.symm hs.1)]
      split
      · obtain ⟨u, hu, hrest⟩ : ∃ u, u <:+ s ∧ (reference false (s ++ t)).2 = u ++ t := by
          rcases ht with rfl | ⟨u, rfl⟩
          · rw [List.append_nil]
            exact ⟨_, reference_suffix false s, (List.append_nil _).symm⟩
          · exact reference_append rfl false hs.2 u
        have hlength := hu.length_le
        rw [marks_cons_of_not_isMark rfl, hrest]
        exact ih u.length (by simp at hn; omega) (fun h => hs.2 (hu.subset h)) rfl
      · split
        · rw [marks_cons_of_not_isMark rfl, hmore]
        · rw [marks_cons_of_not_isMark rfl, hmore]

theorem shapes_text {s t : Text} (hs : '<' ∉ s) (ht : AtBracket t) :
    shapes (s ++ t) = shapes t := by
  rw [shapes, lineFeeds_append ht.head?,
    marks_tokens_text (notMem_lineFeeds hs (by decide)) ht.lineFeeds, shapes]

/-- A text without an opening bracket gives no marks, whatever is written behind it. -/
theorem shows_text {s : Text} (hs : '<' ∉ s) : Shows s [] := by
  intro t
  have hsplit := List.takeWhile_append_dropWhile (p := fun c => c != '<') (l := t)
  have htake : '<' ∉ t.takeWhile fun c => c != '<' := by
    intro hmem
    simpa using List.mem_takeWhile_imp hmem
  have hdrop : AtBracket (t.dropWhile fun c => c != '<') := by
    cases hcases : t.dropWhile fun c => c != '<' with
    | nil => exact Or.inl rfl
    | cons c u =>
      have hhead := List.head?_dropWhile_not (fun c => c != '<') t
      rw [hcases] at hhead
      obtain rfl : c = '<' := by simpa using hhead
      exact Or.inr ⟨u, rfl⟩
  rw [List.nil_append, ← hsplit, ← List.append_assoc, shapes_text _ hdrop, shapes_text htake hdrop]
  simp [hs, htake]

/-! ## Words -/

/-- A lower-case letter, a digit or a hyphen. -/
def isWordChar (c : Char) : Bool :=
  c.isLower || c.isDigit || c == '-'

/-- A name of such characters that starts with a letter. -/
def isWord : Text → Bool
  | [] => false
  | c :: t => c.isLower && t.all isWordChar

section WordChar

variable {c : Char} (h : isWordChar c = true)
include h

theorem endsAttributeName_of_isWordChar : endsAttributeName c = false := by
  simp only [endsAttributeName, endsTagName, isSpace, Bool.or_eq_false_iff, beq_eq_false_iff_ne]
  refine ⟨⟨⟨⟨⟨⟨?_, ?_⟩, ?_⟩, ?_⟩, ?_⟩, ?_⟩, ?_⟩ <;>
    exact ne_of_apply_ne isWordChar (h.trans_ne (by decide))

/-- A character of a word is kept as it is in a name. -/
theorem nameChar_of_isWordChar : nameChar c = c := by
  have hupper : ¬ c.isUpper = true := by
    simp only [isWordChar, Bool.or_eq_true, beq_iff_eq] at h
    rcases h with (hlower | hdigit) | rfl
    · exact Char.not_isUpper_of_isLower hlower
    · simp [Char.isDigit, Char.isUpper, UInt32.le_iff_toNat_le] at hdigit ⊢
      omega
    · decide
  rw [nameChar, Char.toLower_eq_of_not_isUpper hupper]
  exact kept_eq (ne_of_apply_ne isWordChar (h.trans_ne (by decide)))

end WordChar

theorem eq_cons_of_isWord {name : Text} (h : isWord name = true) :
    ∃ c t, name = c :: t ∧ c.isLower = true ∧ ∀ d ∈ name, isWordChar d = true := by
  cases name with
  | nil => cases h
  | cons c t =>
    obtain ⟨hc, ht⟩ := Bool.and_eq_true_iff.1 h
    refine ⟨c, t, rfl, hc, ?_⟩
    intro d hd
    rcases List.mem_cons.1 hd with rfl | hd
    · simp [isWordChar, hc]
    · exact List.all_eq_true.1 ht d hd

/-- A word is the name of a tag as it is read. -/
theorem isTagName_of_isWord {name : Text} (h : isWord name = true) : IsTagName name := by
  obtain ⟨c, t, hname, hc, hall⟩ := eq_cons_of_isWord h
  refine ⟨⟨c, t, hname, isAlpha_of_isLower hc⟩, ?_, ?_⟩
  · intro d hd
    have hends := endsAttributeName_of_isWordChar (hall d hd)
    rw [endsAttributeName, Bool.or_eq_false_iff] at hends
    exact hends.1
  · intro d hd
    refine ⟨nameChar_of_isWordChar (hall d hd), ?_⟩
    exact ne_of_apply_ne isWordChar ((hall d hd).trans_ne (by decide))

/-! ## Tags -/

/-- An attribute as it is written: a name, and a value in quotes unless it is bare. -/
structure RawAttribute where
  name : Text
  value : Option Text

namespace RawAttribute

/-- The value of an attribute as it is written behind its name. -/
def valueText (a : RawAttribute) : Text :=
  match a.value with
  | none => []
  | some value => "=\"".toList ++ value ++ "\"".toList

/-- What is written for an attribute, behind a space. -/
def text (a : RawAttribute) : Text :=
  ' ' :: a.name ++ a.valueText

/-- An attribute whose name is a word and whose value holds no quote. -/
def isPlain (a : RawAttribute) : Bool :=
  isWord a.name && a.value.all fun value => !value.contains '"'

/-- An attribute with line feeds for all line ends. -/
def fed (a : RawAttribute) : RawAttribute :=
  { a with value := a.value.map lineFeeds }

end RawAttribute

theorem RawAttribute.text_append (a : RawAttribute) (t : Text) :
    a.text ++ t = ' ' :: (a.name ++ (a.valueText ++ t)) := by
  simp [text]

section Raw

variable {a : RawAttribute} (h : a.isPlain = true)
include h

theorem RawAttribute.isWord_name : isWord a.name = true :=
  (Bool.and_eq_true_iff.1 h).1

theorem RawAttribute.quote_notMem {value : Text} (hvalue : a.value = some value) :
    '"' ∉ value := by
  have hall := (Bool.and_eq_true_iff.1 h).2
  simpa [hvalue] using hall

/-- An attribute that is written as a word may stand behind any other: it ends its name and gives it
no value. -/
theorem endsAttribute_raw (b : Attribute) (t : Text) : EndsAttribute b (a.text ++ t) := by
  obtain ⟨c, name, hname, hc, -⟩ := eq_cons_of_isWord (RawAttribute.isWord_name h)
  have hspace : isSpace c = false := by
    have hends := endsTagName_of_isLower hc
    simp only [endsTagName, Bool.or_eq_false_iff] at hends
    exact hends.1.1
  refine ⟨⟨' ', _, rfl, rfl⟩, fun _ => ?_⟩
  rw [RawAttribute.text_append, hname, List.cons_append, List.dropWhile_cons_of_pos rfl,
    List.dropWhile_cons_of_neg (by simp [hspace])]
  simpa using ne_of_apply_ne Char.isLower (hc.trans_ne (by decide))

/-- An attribute that is written without escapes is read up to its end. -/
theorem readAttribute?_raw {c : Char} {name : Text} (hname : a.name = c :: name) {t : Text}
    (ht : EndsAttribute ⟨a.name, []⟩ t) :
    ∃ read, readAttribute? c (name ++ (a.valueText ++ t)) = some (read, t) := by
  obtain ⟨-, -, -, -, hall⟩ := eq_cons_of_isWord (RawAttribute.isWord_name h)
  have htail : ∀ d ∈ name, endsAttributeName d = false := by
    intro d hd
    apply endsAttributeName_of_isWordChar (hall d _)
    rw [hname]
    exact List.mem_cons_of_mem c hd
  obtain ⟨⟨d, u, rfl, hd⟩, hequals⟩ := ht
  cases hvalue : a.value with
  | none =>
    obtain ⟨htake, hdrop⟩ := cut_name htail
      ⟨d, u, rfl, endsAttributeName_of_endsTagName hd⟩
    rw [RawAttribute.valueText, hvalue]
    dsimp only
    rw [List.nil_append, readAttribute?, htake, hdrop]
    split
    · next heq => exact absurd (by rw [heq]; rfl) (hequals rfl)
    · exact ⟨_, rfl⟩
  | some value =>
    have htext : a.valueText ++ d :: u = '=' :: '"' :: (value ++ '"' :: d :: u) := by
      rw [RawAttribute.valueText, hvalue]
      simp
    obtain ⟨htake, hdrop⟩ := cut_name htail
      ⟨'=', '"' :: (value ++ '"' :: d :: u), rfl, rfl⟩
    obtain ⟨read, hread⟩ := quotedValue?_append (RawAttribute.quote_notMem h hvalue) (d :: u)
    rw [htext, readAttribute?, htake, hdrop]
    show ∃ read, (readValue? ('"' :: (value ++ '"' :: d :: u))).map _ = some (read, _)
    rw [readValue?, hread]
    exact ⟨_, rfl⟩

end Raw

/-- Attributes that are written without escapes are read up to the end of their tag, as some
attributes or other. -/
theorem readTagRest?_raw {as : List RawAttribute} (h : ∀ a ∈ as, a.isPlain = true)
    (selfClosing : Bool) (t : Text) :
    ∃ read, readTagRest? (as.flatMap RawAttribute.text ++ (tagEnd selfClosing ++ t)) =
      some { attributes := read, selfClosing, rest := t } := by
  induction as with
  | nil => exact ⟨[], readTagRest?_tagEnd selfClosing t⟩
  | cons a as ih =>
    obtain ⟨ha, has⟩ := List.forall_mem_cons.1 h
    obtain ⟨c, name, hname, hc, -⟩ := eq_cons_of_isWord (RawAttribute.isWord_name ha)
    have hends : EndsAttribute ⟨a.name, []⟩
        (as.flatMap RawAttribute.text ++ (tagEnd selfClosing ++ t)) := by
      cases as with
      | nil => exact endsAttribute_tagEnd _ selfClosing t
      | cons b as =>
        rw [List.flatMap_cons, List.append_assoc]
        exact endsAttribute_raw (has b List.mem_cons_self) _ _
    obtain ⟨read, hread⟩ := readAttribute?_raw ha hname hends
    obtain ⟨more, hmore⟩ := ih has
    rw [List.flatMap_cons, List.append_assoc, RawAttribute.text_append, hname, List.cons_append,
      readTagRest?_space, readTagRest?_attribute (endsTagName_of_isLower hc) hread, hmore]
    exact ⟨_, rfl⟩

/-- A tag as it is written without escapes. -/
def rawTag (name : Text) (as : List RawAttribute) (selfClosing : Bool) : Text :=
  '<' :: (name ++ (as.flatMap RawAttribute.text ++ tagEnd selfClosing))

/-- A tag that is written without escapes is read as a tag of its name, with some attributes or
other. -/
theorem readTag?_raw {name : Text} (hname : IsTagName name) {as : List RawAttribute}
    (h : ∀ a ∈ as, a.isPlain = true) (selfClosing : Bool) (t : Text) :
    ∃ read, readTag? (name ++ (as.flatMap RawAttribute.text ++ (tagEnd selfClosing ++ t))) =
      some { name, attributes := read, selfClosing, rest := t } := by
  have hends : ∃ c u, as.flatMap RawAttribute.text ++ (tagEnd selfClosing ++ t) = c :: u ∧
      endsTagName c = true := by
    cases as with
    | nil => cases selfClosing <;> exact ⟨_, _, rfl, rfl⟩
    | cons a as => exact ⟨' ', _, rfl, rfl⟩
  obtain ⟨htake, hdrop⟩ := cut_name hname.ends hends
  obtain ⟨read, hread⟩ := readTagRest?_raw h selfClosing t
  rw [readTag?, htake, hdrop, hread, map_nameChar fun d hd => (hname.kept d hd).1]
  exact ⟨_, rfl⟩

/-- Reading line ends puts no quote into a value. -/
theorem isPlain_fed {a : RawAttribute} (h : a.isPlain = true) : a.fed.isPlain = true := by
  have hname := RawAttribute.isWord_name h
  cases hvalue : a.value with
  | none => simp [RawAttribute.isPlain, RawAttribute.fed, hname, hvalue]
  | some value =>
    have hquote := notMem_lineFeeds (RawAttribute.quote_notMem h hvalue) (by decide)
    simp [RawAttribute.isPlain, RawAttribute.fed, hname, hvalue, hquote]

/-- Line ends in an attribute are changed within its value only. -/
theorem lineFeeds_rawAttribute {a : RawAttribute} (h : a.isPlain = true) (t : Text) :
    lineFeeds (a.text ++ t) = a.fed.text ++ lineFeeds t := by
  have hname : '\r' ∉ a.name := (isTagName_of_isWord (RawAttribute.isWord_name h)).return_notMem
  cases hvalue : a.value with
  | none =>
    have htext : a.text = ' ' :: a.name := by
      simp [RawAttribute.text, RawAttribute.valueText, hvalue]
    have hfed : a.fed.text = ' ' :: a.name := by
      simp [RawAttribute.text, RawAttribute.valueText, RawAttribute.fed, hvalue]
    rw [htext, hfed, lineFeeds_append_of_notMem]
    simpa using hname
  | some value =>
    have htext : a.text ++ t = ' ' :: (a.name ++ ['=', '"']) ++ (value ++ '"' :: t) := by
      simp [RawAttribute.text, RawAttribute.valueText, hvalue]
    have hfed : a.fed.text = ' ' :: (a.name ++ ['=', '"']) ++ (lineFeeds value ++ ['"']) := by
      simp [RawAttribute.text, RawAttribute.valueText, RawAttribute.fed, hvalue]
    have hquote : lineFeeds ('"' :: t) = '"' :: lineFeeds t := by
      rw [lineFeeds_cons fun h => absurd h (by decide), if_neg (by decide)]
    rw [htext, hfed, lineFeeds_append_of_notMem (by simpa using hname),
      lineFeeds_append (by simp), hquote, List.append_assoc, List.append_assoc,
      List.singleton_append]

/-- Reading the line ends of attributes changes their values only. -/
theorem lineFeeds_rawAttributes {as : List RawAttribute} (h : ∀ a ∈ as, a.isPlain = true)
    (t : Text) :
    lineFeeds (as.flatMap RawAttribute.text ++ t) =
      (as.map RawAttribute.fed).flatMap RawAttribute.text ++ lineFeeds t := by
  induction as with
  | nil => rfl
  | cons a as ih =>
    obtain ⟨ha, has⟩ := List.forall_mem_cons.1 h
    rw [List.flatMap_cons, List.append_assoc, lineFeeds_rawAttribute ha, ih has, List.map_cons,
      List.flatMap_cons, List.append_assoc]

/-- A tag whose values hold no quote is read as that tag. -/
theorem shows_rawTag {name : Text} (hname : isWord name = true) {as : List RawAttribute}
    (h : ∀ a ∈ as, a.isPlain = true) (selfClosing : Bool) (hcontent : contentOf? name = none) :
    Shows (rawTag name as selfClosing) [.startTag name [] selfClosing] := by
  have hname := isTagName_of_isWord hname
  have hfed : ∀ a ∈ as.map RawAttribute.fed, a.isPlain = true := by
    intro a ha
    obtain ⟨b, hb, rfl⟩ := List.mem_map.1 ha
    exact isPlain_fed (h b hb)
  have hopen : '\r' ∉ '<' :: name := by simpa using hname.return_notMem
  have hend : '\r' ∉ tagEnd selfClosing := by cases selfClosing <;> decide
  intro t
  have htext : rawTag name as selfClosing ++ t =
      '<' :: name ++ (as.flatMap RawAttribute.text ++ (tagEnd selfClosing ++ t)) := by
    simp [rawTag]
  -- which attributes are read does not matter, as marks leave them out
  obtain ⟨read, hread⟩ := readTag?_raw hname hfed selfClosing (lineFeeds t)
  have htag : startTag (name ++ ((as.map RawAttribute.fed).flatMap RawAttribute.text ++
      (tagEnd selfClosing ++ lineFeeds t))) =
      ([.startTag name read selfClosing], lineFeeds t) := by
    rw [startTag, hread]
    simp only [hcontent, ite_self]
  rw [shapes, htext, lineFeeds_append_of_notMem hopen, lineFeeds_rawAttributes h,
    lineFeeds_append_of_notMem hend, List.cons_append, tokens, if_pos rfl, markup_name hname, htag]
  rfl

/-- A closing tag shows itself. -/
theorem shows_closeTag {name : Text} (hname : isWord name = true) :
    Shows (closeTag name) [.endTag name] := by
  have hname := isTagName_of_isWord hname
  intro t
  rw [shapes, lineFeeds_append_of_notMem (return_notMem_closeTag hname), tokens_closeTag hname]
  rfl

end Scaffold.Html
