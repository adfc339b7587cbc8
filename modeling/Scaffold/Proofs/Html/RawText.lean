import Scaffold.Proofs.Html.Format
import Scaffold.Proofs.Html.HeldText
import Scaffold.Proofs.Html.Unescaped

/-!
# Raw text under repeated layout

The text of `style`, `xmp`, `iframe`, `noembed` and `noframes` is read as it stands: no reference is
resolved in it.  Of these elements only `style` is also printed as it stands; in the others every
layout escapes the text once more.  So after any number of layouts the element holds its text
escaped that often (`parse_iterate_format`), which is the text itself just for a style sheet and for
a text in which there is nothing to escape.
-/

namespace Scaffold.Html

open Scaffold.Text

/-! ## Tags in other spellings -/

theorem isLower_toLower_of_nameChar {c : Char} (h : (nameChar c).isLower = true) :
    c.toLower.isLower = true := by
  by_cases hnul : c.toLower = nul
  · rw [nameChar, hnul] at h
    exact absurd h (by decide)
  · rwa [nameChar, kept_eq hnul] at h

/-- A tag is its name in some spelling, and behind it a character that ends the name. -/
theorem exists_spelling {t : Text} {tag : Tag} (h : readTag? t = some tag) :
    ∃ front d rest, t = front ++ d :: rest ∧ endsTagName d = true ∧
      (∀ c ∈ front, endsTagName c = false) ∧ front.map nameChar = tag.name ∧
      ∃ back, readTagRest? (d :: rest) = some back ∧ tag.attributes = distinct back.attributes ∧
        tag.selfClosing = back.selfClosing ∧ tag.rest = back.rest := by
  obtain ⟨back, hback, rfl⟩ := Option.map_eq_some_iff.1 h
  have hcut := List.takeWhile_append_dropWhile (p := fun c => !endsTagName c) (l := t)
  cases hdrop : t.dropWhile fun c => !endsTagName c with
  | nil =>
    rw [hdrop] at hback
    exact absurd hback (by simp [readTagRest?])
  | cons d rest =>
    rw [hdrop] at hback hcut
    have hd := List.head?_dropWhile_not (fun c => !endsTagName c) t
    rw [hdrop] at hd
    refine ⟨_, d, rest, hcut.symm, by simpa using hd, ?_, rfl, back, hback, rfl, rfl, rfl⟩
    intro c hc
    simpa using List.all_eq_true.1 List.all_takeWhile c hc

theorem readTagRest?_slash {d : Char} (hd : d ≠ '>') (t : Text) :
    readTagRest? ('/' :: d :: t) = readTagRest? (d :: t) := by
  rw [readTagRest?.eq_def]
  simp only [isSpace, Char.reduceBEq, Bool.or_self, Bool.false_eq_true, if_false, Char.reduceEq,
    if_true]
  split
  · next htail => exact absurd (List.cons.inj htail).1 hd
  · rfl

/-- A tag without attributes stays one in front of any text. -/
theorem readTagRest?_append {t u rest : Text}
    (h : readTagRest? t = some { attributes := [], selfClosing := false, rest }) :
    readTagRest? (t ++ u) =
      some { attributes := [], selfClosing := false, rest := rest ++ u } := by
  fun_induction readTagRest? t with
  | case1 => cases h
  | case2 c t hc ih =>
    rw [List.cons_append, readTagRest?.eq_def]
    simp only [hc, if_true]
    exact ih h
  | case3 t =>
    obtain rfl := congrArg TagRest.rest (Option.some.inj h)
    exact readTagRest?_tagEnd false (t ++ u)
  | case4 => cases h
  | case5 t hopen _ _ ih =>
    cases t with
    | nil => exact absurd h (by simp [readTagRest?])
    | cons d t =>
      rw [List.cons_append, List.cons_append, readTagRest?_slash fun hd => hopen t (by rw [hd])]
      exact ih h
  | case6 => cases h
  | case7 =>
    obtain ⟨tag, -, htag⟩ := Option.map_eq_some_iff.1 h
    cases congrArg TagRest.attributes htag

/-- A tag that ends a text is read the same with more behind it. -/
theorem readTag?_append {t name : Text}
    (h : readTag? t = some { name, attributes := [], selfClosing := false, rest := [] })
    (u : Text) :
    readTag? (t ++ u) = some { name, attributes := [], selfClosing := false, rest := u } := by
  obtain ⟨front, d, rest, rfl, hd, hfront, hname, ⟨as, selfClosing, left⟩, hback, has, hself,
    hrest⟩ := exists_spelling h
  have hnil : as = [] := by
    cases as with
    | nil => rfl
    | cons a as => cases has
  dsimp only at hname hself hrest
  subst hnil hself hrest
  obtain ⟨htake, hdrop⟩ := cut_name hfront ⟨d, rest ++ u, rfl, hd⟩
  have hread := readTagRest?_append hback (u := u)
  rw [List.cons_append, List.nil_append] at hread
  rw [List.append_assoc, List.cons_append, readTag?, htake, hdrop, hread, hname]
  rfl

/-- A name is found in any spelling that is read as the name. -/
theorem dropWord?_spelling {front : Text} (h : ∀ c ∈ front, (nameChar c).isLower = true)
    (t : Text) : dropWord? (front.map nameChar) (front ++ t) = some t := by
  apply dropWord?_append_of_lower_eq
  rw [lower, lower, List.map_map]
  apply List.map_congr_left
  intro c hc
  have hlower := isLower_toLower_of_nameChar (h c hc)
  have hname : nameChar c = c.toLower := kept_of_isAlpha (isAlpha_of_isLower hlower)
  have hself : c.toLower.toLower = c.toLower :=
    Char.toLower_eq_of_not_isUpper (Char.not_isUpper_of_isLower hlower)
  rw [Function.comp_apply, hname, hself]

/-- A tag whose name is a word of lower-case letters is one that ends raw text. -/
theorem startsTag_of_readTag? {t : Text} {tag : Tag} (h : readTag? t = some tag)
    (hname : ∀ c ∈ tag.name, c.isLower = true) : startsTag tag.name t = true := by
  obtain ⟨front, d, rest, rfl, hd, -, hfront, -⟩ := exists_spelling h
  rw [← hfront] at hname ⊢
  rw [startsTag, dropWord?_spelling fun c hc => hname _ (List.mem_map_of_mem hc)]
  exact hd

/-- Whatever is read as a tag is read as an end tag behind a slash. -/
theorem tokens_endTag {t : Text} {tag : Tag} (h : readTag? t = some tag)
    (hname : ∀ c ∈ tag.name, c.isLower = true) (hne : tag.name ≠ []) :
    tokens ('<' :: '/' :: t) = .endTag tag.name :: tokens tag.rest := by
  obtain ⟨front, d, rest, rfl, hd, -, hfront, back, hback, -, -, hrest⟩ := exists_spelling h
  have hlower : ∀ c ∈ front, c.toLower.isLower = true := fun c hc =>
    isLower_toLower_of_nameChar (hname _ (hfront ▸ List.mem_map_of_mem hc))
  have hspelling : lower front = tag.name := by
    rw [← hfront]
    exact List.map_congr_left fun c hc =>
      (kept_of_isAlpha (isAlpha_of_isLower (hlower c hc))).symm
  rw [tokens_closing hlower (by rintro rfl; exact hne hfront.symm) hd, hback, hspelling, hrest]
  rfl

/-! ## Reading raw text -/

/-- A line of text in which no end tag starts. -/
structure IsRawLine (s : Text) : Prop extends IsLine s where
  no_end : ¬ "</".toList <:+: s
  no_nul : nul ∉ s
  no_return : '\r' ∉ s

theorem isLine_of_trim {s : Text} (hne : s ≠ []) (htrim : trim s = s) (hline : '\n' ∉ s) :
    IsLine s :=
  ⟨hne, htrim ▸ trimmed_trim s, hline⟩

/-- A closing tag starts with a slash. -/
theorem closes_of_head {name s : Text} (h : s.head? ≠ some '/') (t : Text) :
    closes name (s ++ '<' :: t) = false := by
  cases s with
  | nil => rfl
  | cons d s =>
    rw [List.cons_append, closes]
    intro u hslash
    exact h (by rw [(List.cons.inj hslash).1]; rfl)

/-- Raw text without an end tag is read up to the tag that ends it. -/
theorem readRaw_append {name s t : Text} (hend : ¬ "</".toList <:+: s) (hnul : nul ∉ s)
    (ht : startsTag name t = true) :
    readRaw name (s ++ '<' :: '/' :: t) = (s, '<' :: '/' :: t) := by
  induction s with
  | nil => exact if_pos ⟨rfl, ht⟩
  | cons c s ih =>
    rw [List.mem_cons, not_or] at hnul
    -- no bracket of the text has a slash behind it, not even the last one
    have hopen : ¬ (c = '<' ∧ closes name (s ++ '<' :: '/' :: t) = true) := by
      rintro ⟨rfl, hcloses⟩
      rw [closes_of_head] at hcloses
      · cases hcloses
      · intro hslash
        obtain ⟨u, rfl⟩ := List.head?_eq_some_iff.1 hslash
        exact hend ⟨[], u, rfl⟩
    rw [List.cons_append, readRaw, if_neg hopen,
      ih (fun hslash => hend (hslash.trans (List.suffix_cons c s).isInfix)) hnul.2,
      kept_eq (Ne.symm hnul.1)]
    rfl

/-! ## Elements that hold raw text -/

/-- An element that holds raw text, as it is written: a start tag without attributes, one line of
text and the end tag, behind which a line feed may stand.  The tags may be spelled in any way that
is read as such a tag. -/
structure RawElement where
  name : Text
  isRaw : contentOf? name = some .raw
  /-- The start tag behind its bracket. -/
  opening : Text
  reads_opening :
    readTag? opening = some { name, attributes := [], selfClosing := false, rest := [] }
  content : Text
  isLine : IsRawLine content
  /-- The end tag behind its bracket and slash, and what follows it. -/
  closing : Text
  endTag : Tag
  reads_closing : readTag? closing = some endTag
  matches_name : endTag.name = name
  ends_source : endTag.rest = [] ∨ endTag.rest = ['\n']
  no_return : '\r' ∉ opening ++ closing

/-- An element that holds one text. -/
def rawNode (name s : Text) : Node :=
  .element name [] false true [.text s]

/-- The tree of an element that holds a text, with a text or nothing behind it. -/
theorem ofTokens_raw {name : Text} (hvoid : isVoid name = false) (s t : Text) :
    ofTokens (.startTag name [] false :: .text s :: .endTag name ::
      (textTokens t ++ [.endOfInput])) = rawNode name s :: textNodes t := by
  have htidy : Token.tidy (.startTag name [] false :: .text s :: .endTag name ::
      (textTokens t ++ [.endOfInput])) =
      .startTag name [] false :: .text s :: .endTag name :: textTokens t := by
    cases t <;> rfl
  rw [ofTokens, htidy]
  cases t <;>
    simp [textTokens, Growth.step, hvoid, Growth.add, Growth.close?, OpenElement.finish,
      Growth.finish, rawNode, textNodes]

namespace RawElement

variable (e : RawElement)

/-- The element as it is written. -/
def source : Text :=
  '<' :: (e.opening ++ (e.content ++ '<' :: '/' :: e.closing))

theorem facts : (∀ c ∈ e.name, c.isLower = true) ∧ e.name ≠ [] ∧ isVoid e.name = false :=
  facts_of_contentOf? (by rw [e.isRaw]; rfl)

theorem endTag_lower : ∀ c ∈ e.endTag.name, c.isLower = true := by
  rw [e.matches_name]
  exact e.facts.1

theorem exists_opening : ∃ c t, e.opening = c :: t ∧ c.isAlpha = true := by
  obtain ⟨front, d, rest, hopening, -, -, hname, -⟩ := exists_spelling e.reads_opening
  cases front with
  | nil => exact absurd hname.symm e.facts.2.1
  | cons c front =>
    refine ⟨c, front ++ d :: rest, hopening, ?_⟩
    have hname : nameChar c :: front.map nameChar = e.name := hname
    have hc := e.facts.1 (nameChar c) (hname ▸ List.mem_cons_self)
    rw [← Char.isLower_toLower_eq_isAlpha]
    exact isLower_toLower_of_nameChar hc

/-- The start tag of the element is read with its text as it stands, up to the end tag. -/
theorem startTag_source :
    startTag (e.opening ++ (e.content ++ '<' :: '/' :: e.closing)) =
      ([.startTag e.name [] false, .text e.content], '<' :: '/' :: e.closing) := by
  have hread := readTag?_append e.reads_opening (e.content ++ '<' :: '/' :: e.closing)
  have hcloses : startsTag e.name e.closing = true := by
    have := startsTag_of_readTag? e.reads_closing e.endTag_lower
    rwa [e.matches_name] at this
  have hcontent : readContent .raw e.name (e.content ++ '<' :: '/' :: e.closing) =
      (e.content, '<' :: '/' :: e.closing) :=
    readRaw_append e.isLine.no_end e.isLine.no_nul hcloses
  rw [startTag, hread]
  simp [e.facts.2.2, e.isRaw, hcontent, e.isLine.ne_nil]

/-- The element is read as its tags with the text between them. -/
theorem tokens_source :
    tokens e.source = .startTag e.name [] false :: .text e.content :: .endTag e.name ::
      (textTokens e.endTag.rest ++ [.endOfInput]) := by
  obtain ⟨c, t, hopening, hc⟩ := e.exists_opening
  have hmarkup : markup (e.opening ++ (e.content ++ '<' :: '/' :: e.closing)) =
      ([.startTag e.name [] false, .text e.content], '<' :: '/' :: e.closing) := by
    rw [← e.startTag_source, hopening, List.cons_append, markup_of_isAlpha hc]
  have hend : tokens ('<' :: '/' :: e.closing) = .endTag e.name :: tokens e.endTag.rest := by
    rw [tokens_endTag e.reads_closing e.endTag_lower (by rw [e.matches_name]; exact e.facts.2.1),
      e.matches_name]
  have hrest : tokens e.endTag.rest = textTokens e.endTag.rest ++ [.endOfInput] := by
    rcases e.ends_source with hrest | hrest <;> rw [hrest] <;> simp [tokens, textTokens, nul]
  rw [source, tokens, if_pos rfl, hmarkup, hend, hrest]
  rfl

/-- The element is read as one that holds its text as it stands. -/
theorem parse_source :
    parse e.source = rawNode e.name e.content :: textNodes e.endTag.rest := by
  have hreturn : '\r' ∉ e.source := by
    have := e.no_return
    simp only [List.mem_append, not_or] at this
    simp [source, this, e.isLine.no_return]
  rw [parse, prepare_eq_self hreturn (by simp [source]), e.tokens_source,
    ofTokens_raw e.facts.2.2]

end RawElement

/-! ## Escaping -/

/-- The ends of what a character becomes are not blank if the character is not. -/
theorem trimmed_escapeTextChar {c : Char} (h : isBlank c = false) :
    Trimmed (escapeTextChar c) ∧ escapeTextChar c ≠ [] := by
  cases hc : isEscaped c with
  | false =>
    rw [escapeTextChar_of_not_isEscaped hc]
    exact ⟨⟨by simpa using h, by simpa using h⟩, List.cons_ne_nil _ _⟩
  | true =>
    have hall : ∀ r ∈ escapes, trim r = r ∧ r ≠ [] := by decide
    obtain ⟨htrim, hne⟩ := hall _ (escapeTextChar_mem hc)
    exact ⟨htrim ▸ trimmed_trim _, hne⟩

theorem escapeText_eq_self {s : Text} (h : ∀ c ∈ s, isEscaped c = false) : escapeText s = s := by
  rw [escapeText, List.flatMap_congr fun c hc => escapeTextChar_of_not_isEscaped (h c hc)]
  exact List.flatMap_singleton' s

/-- Every character that is escaped makes the text longer. -/
theorem length_add_countP_le (s : Text) :
    s.length + s.countP isEscaped ≤ (escapeText s).length := by
  induction s with
  | nil => exact Nat.le_refl 0
  | cons c s ih =>
    rw [escapeText, List.flatMap_cons, List.length_append, List.length_cons, List.countP_cons]
    rw [escapeText] at ih
    cases hc : isEscaped c with
    | false =>
      rw [escapeTextChar_of_not_isEscaped hc]
      simp only [Bool.false_eq_true, if_false, List.length_singleton]
      omega
    | true =>
      have hall : ∀ r ∈ escapes, 2 ≤ r.length := by decide
      have hlength := hall _ (escapeTextChar_mem hc)
      rw [if_pos rfl]
      omega

/-- Escaping a line leaves a line. -/
theorem isLine_escapeText {s : Text} (h : IsLine s) : IsLine (escapeText s) := by
  obtain ⟨c, t, rfl⟩ := List.exists_cons_of_ne_nil h.ne_nil
  have hfirst := trimmed_escapeTextChar (h.trimmed.1 c rfl)
  refine ⟨?_, ⟨?_, ?_⟩, notMem_escapeText (by decide) (absurd · h.no_newline)⟩
  · rw [escapeText, List.flatMap_cons]
    exact List.append_ne_nil_of_left_ne_nil hfirst.2 _
  · rw [escapeText, List.flatMap_cons, List.head?_append_of_ne_nil _ hfirst.2]
    exact hfirst.1.1
  · obtain ⟨init, d, hd⟩ := List.eq_nil_or_concat' (c :: t) |>.resolve_left (List.cons_ne_nil c t)
    have hlast := trimmed_escapeTextChar (h.trimmed.2 d (by rw [hd]; simp))
    rw [hd, escapeText, List.flatMap_append, List.flatMap_singleton,
      List.getLast?_append_of_ne_nil _ hlast.2]
    exact hlast.1.2

/-- Writing a raw line, with escapes or without, leaves one. -/
theorem isRawLine_written (verbatim : Bool) {s : Text} (h : IsRawLine s) :
    IsRawLine (written verbatim s) := by
  cases verbatim with
  | true => exact h
  | false =>
    exact {
      isLine_escapeText h.toIsLine with
      no_end := fun hslash => bracket_notMem_escapeText s (hslash.subset List.mem_cons_self)
      no_nul := notMem_escapeText (by decide) (absurd · h.no_nul)
      no_return := notMem_escapeText (by decide) (absurd · h.no_return) }

/-- After any number of rounds a text is itself just if nothing in it is escaped. -/
theorem iterate_written_eq_iff (verbatim : Bool) (s : Text) (n : Nat) :
    (written verbatim)^[n + 1] s = s ↔ verbatim = true ∨ ∀ c ∈ s, isEscaped c = false := by
  cases verbatim with
  | true => exact ⟨fun _ => Or.inl rfl, fun _ => Function.iterate_fixed rfl _⟩
  | false =>
    have hgrows : ∀ (k : Nat) (t : Text), t.length ≤ ((written false)^[k] t).length := by
      intro k t
      induction k generalizing t with
      | zero => exact Nat.le_refl _
      | succ k ih =>
        exact ((Nat.le_add_right _ _).trans (length_add_countP_le t)).trans (ih (escapeText t))
    constructor
    · intro hfixed
      -- the first round adds what is counted, and no later one takes it away
      have hfirst := length_add_countP_le s
      have hrest : (escapeText s).length ≤ ((written false)^[n + 1] s).length :=
        hgrows n (escapeText s)
      rw [hfixed] at hrest
      have hnone : s.countP isEscaped = 0 := by omega
      exact Or.inr fun c hc => by simpa using List.countP_eq_zero.1 hnone c hc
    · rintro (h | h)
      · cases h
      · exact Function.iterate_fixed (escapeText_eq_self h) _

/-! ## Layout -/

/-- The layout of an element that holds one line: the tags in their plain spelling, and the text as
it is written. -/
theorem layout_raw {name s : Text} (h : IsLine s) {t : Text} (ht : t = [] ∨ t = ['\n']) :
    layout (rawNode name s :: textNodes t) =
      '<' :: ((name ++ ['>']) ++ (written (printsVerbatim name) s ++
        '<' :: '/' :: (name ++ ">\n".toList))) := by
  have htext : textNodes s = [.text s] := by
    rw [textNodes, if_neg (by simpa using h.ne_nil)]
  have hinside : inside 0 (printsVerbatim name) s = written (printsVerbatim name) s := by
    rw [inside, trim_eq_self h.trimmed, if_neg (by simpa using h.no_newline)]
  have hafter : layoutAll 0 false (textNodes t) = [] := by
    rcases ht with rfl | rfl <;> rfl
  rw [layout, layoutAll, rawNode, ← htext, layout_closed, hinside, hafter]
  simp [line, openTag, closeTag]

namespace RawElement

theorem isTagName (e : RawElement) : IsTagName e.name := by
  have hall : ∀ name ∈ textTags, isWord name = true := List.all_eq_true.1 (by decide)
  exact isTagName_of_isWord (hall e.name (mem_textTags (by rw [e.isRaw]; rfl)))

theorem readTag?_plain (e : RawElement) (t : Text) :
    readTag? (e.name ++ '>' :: t) =
      some { name := e.name, attributes := [], selfClosing := false, rest := t } :=
  readTag?_written e.isTagName (List.forall_mem_nil Attribute.Sound) .nil List.nodup_nil false t

/-- The element as its layout leaves it: the tags in their plain spelling, the text as it is
written, and a line feed behind it. -/
def laidOut (e : RawElement) : RawElement where
  name := e.name
  isRaw := e.isRaw
  opening := e.name ++ ['>']
  reads_opening := e.readTag?_plain []
  content := written (printsVerbatim e.name) e.content
  isLine := isRawLine_written _ e.isLine
  closing := e.name ++ ">\n".toList
  endTag := { name := e.name, attributes := [], selfClosing := false, rest := ['\n'] }
  reads_closing := e.readTag?_plain ['\n']
  matches_name := rfl
  ends_source := Or.inr rfl
  no_return := by simpa using e.isTagName.return_notMem

/-- Laying out the element gives the source of another such element. -/
theorem format_source (e : RawElement) : format e.source = e.laidOut.source := by
  rw [format, e.parse_source, layout_raw e.isLine.toIsLine e.ends_source]
  rfl

/-- So does every further layout: rounds of layout are rounds of `laidOut`. -/
theorem iterate_format (e : RawElement) (n : Nat) :
    format^[n] e.source = (laidOut^[n] e).source := by
  have hstep : Function.Semiconj source laidOut format := fun e => e.format_source.symm
  exact (hstep.iterate_right n e).symm

theorem name_iterate_laidOut (e : RawElement) (n : Nat) : (laidOut^[n] e).name = e.name := by
  induction n with
  | zero => rfl
  | succ n ih =>
    rw [Function.iterate_succ_apply']
    exact ih

/-- Every round writes the text once more. -/
theorem content_iterate_laidOut (e : RawElement) (n : Nat) :
    (laidOut^[n] e).content = (written (printsVerbatim e.name))^[n] e.content := by
  induction n with
  | zero => rfl
  | succ n ih =>
    rw [Function.iterate_succ_apply', Function.iterate_succ_apply', ← ih,
      ← e.name_iterate_laidOut n]
    rfl

/-- After some rounds of layout the element is read with its text written that often. -/
theorem parse_iterate_format_source (e : RawElement) (n : Nat) :
    parse (format^[n + 1] e.source) =
      [rawNode e.name ((written (printsVerbatim e.name))^[n + 1] e.content), .text ['\n']] := by
  have hrest : (laidOut^[n + 1] e).endTag.rest = ['\n'] := by
    rw [Function.iterate_succ_apply']
    rfl
  rw [iterate_format, parse_source, name_iterate_laidOut, content_iterate_laidOut, hrest]
  rfl

/-- Of the elements that hold raw text only a style sheet is printed as it stands. -/
theorem printsVerbatim_iff (e : RawElement) :
    printsVerbatim e.name = true ↔ e.name = "style".toList := by
  rw [printsVerbatim, Bool.or_eq_true, beq_iff_eq, beq_iff_eq]
  refine or_iff_right fun hscript => ?_
  have hraw := e.isRaw
  rw [hscript] at hraw
  cases hraw

end RawElement

/-- After any number of layouts an element holds its raw text, escaped that often unless it is a
style sheet.  So the text survives just in a style sheet or if there is nothing to escape in it. -/
theorem parse_iterate_format (e : RawElement) (n : Nat) :
    parse e.source = rawNode e.name e.content :: textNodes e.endTag.rest ∧
      parse (format^[n + 1] e.source) =
        [rawNode e.name ((written (printsVerbatim e.name))^[n + 1] e.content), .text ['\n']] ∧
      (parse (format^[n + 1] e.source) = [rawNode e.name e.content, .text ['\n']] ↔
        e.name = "style".toList ∨ ∀ c ∈ e.content, isEscaped c = false) := by
  have hparse := e.parse_iterate_format_source n
  refine ⟨e.parse_source, hparse, ?_⟩
  rw [hparse, ← e.printsVerbatim_iff, ← iterate_written_eq_iff (printsVerbatim e.name) e.content n]
  simp [rawNode]

/-- A style sheet whose tags are spelled oddly, with an attribute on the end tag. -/
def oddStyle : RawElement where
  name := "style".toList
  isRaw := rfl
  opening := "STYLE / >".toList
  reads_opening := by decide +kernel
  content := "a > b &amp; c<".toList
  isLine := ⟨isLine_of_trim (by decide) (by decide) (by decide), by decide, by decide, by decide⟩
  closing := "Style x='>'\n/>".toList
  endTag :=
    { name := "style".toList
      attributes := [{ name := "x".toList, value := ">".toList }]
      selfClosing := true
      rest := [] }
  reads_closing := by decide +kernel
  matches_name := rfl
  ends_source := Or.inl rfl
  no_return := by decide

theorem parse_iterate_format_oddStyle :
    oddStyle.source = "<STYLE / >a > b &amp; c<</Style x='>'\n/>".toList ∧
      format oddStyle.source = "<style>a > b &amp; c<</style>\n".toList ∧
      parse (format (format oddStyle.source)) =
        [rawNode "style".toList "a > b &amp; c<".toList, .text ['\n']] :=
  ⟨rfl, by decide +kernel, (parse_iterate_format oddStyle 1).2.2.2 (Or.inl rfl)⟩

/-- An element that is read as it stands but is not printed so. -/
def plainXmp : RawElement where
  name := "xmp".toList
  isRaw := rfl
  opening := "xmp>".toList
  reads_opening := by decide +kernel
  content := "a&b".toList
  isLine := ⟨isLine_of_trim (by decide) (by decide) (by decide), by decide, by decide, by decide⟩
  closing := "xmp>".toList
  endTag := { name := "xmp".toList, attributes := [], selfClosing := false, rest := [] }
  reads_closing := by decide +kernel
  matches_name := rfl
  ends_source := Or.inl rfl
  no_return := by decide

/-- Each layout of this element changes its text. -/
theorem parse_format_plainXmp :
    plainXmp.source = "<xmp>a&b</xmp>".toList ∧
      parse plainXmp.source = [rawNode "xmp".toList "a&b".toList] ∧
      parse (format plainXmp.source) =
        [rawNode "xmp".toList "a&amp;b".toList, .text ['\n']] ∧
      parse (format (format plainXmp.source)) =
        [rawNode "xmp".toList "a&amp;amp;b".toList, .text ['\n']] :=
  ⟨rfl, plainXmp.parse_source, plainXmp.parse_iterate_format_source 0,
    plainXmp.parse_iterate_format_source 1⟩

end Scaffold.Html
