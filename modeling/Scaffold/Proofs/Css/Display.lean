import Scaffold.Proofs.Css.Stretch

/-!
# Reading back what is displayed

The rules of a sheet, each displayed on its line, are read back as the same rules
(`parse_display`), if their selectors, properties, values and comments are such that they can be
written down at all.  `Rule.Printable` says what that takes.

Behind the theorem stand three facts, one for each part of a line.  What stands before the
bracket leads to the block (`Leads.findBlock?`), since a test in square brackets is skipped
whole; taken as a list of selectors it divides into the ones that were written
(`splitSelectors_head`); and a block consists of the declarations it was written from
(`readBlock_declarations`).
-/

namespace Scaffold.Css

open Scaffold.Text

/-! ## What can be written down -/

/-- The characters of names: letters, digits, underscores and hyphens. -/
def isWordChar (c : Char) : Bool :=
  c.isAlphanum || c == '_' || c == '-'

/-- The characters of tags, ids and classes with the marks before them. -/
def isSegmentChar (c : Char) : Bool :=
  isWordChar c || c == '.' || c == '#'

/-- The test for an attribute, with the value that it must have or without one. -/
inductive IsTest : Text → Prop
  | presence {name : Text} (hne : name ≠ []) (hname : ∀ c ∈ name, isWordChar c = true) :
      IsTest ('[' :: name ++ "]".toList)
  | equality {name value : Text} (hne : name ≠ []) (hname : ∀ c ∈ name, isWordChar c = true)
      (hvalue : ∀ c ∈ value, c ≠ '"' ∧ c ≠ '\\' ∧ isNewline c = false) :
      IsTest ('[' :: name ++ "=\"".toList ++ value ++ "\"]".toList)

/-- A segment of a selector: what an element is, and then tests for its attributes. -/
inductive IsSegment : Text → Prop
  | base {base : Text} (hne : base ≠ []) (hbase : ∀ c ∈ base, isSegmentChar c = true) :
      IsSegment base
  | test {segment test : Text} (hsegment : IsSegment segment) (htest : IsTest test) :
      IsSegment (segment ++ test)

/-- A selector: one or more segments with single spaces between them. -/
inductive IsSelector : Text → Prop
  | segment {segment : Text} (hsegment : IsSegment segment) : IsSelector segment
  | descendant {segment selector : Text} (hsegment : IsSegment segment)
      (hselector : IsSelector selector) : IsSelector (segment ++ ' ' :: selector)

/-- The name of a property: two hyphens or a letter, and then characters of names. -/
inductive IsPropertyName : Text → Prop
  | custom {word : Text} (hword : ∀ c ∈ word, isWordChar c = true) :
      IsPropertyName ('-' :: '-' :: word)
  | plain {c : Char} {word : Text} (hc : c.isAlpha = true)
      (hword : ∀ c ∈ word, isWordChar c = true) : IsPropertyName (c :: word)

/-- A declaration that can be written down: a property whose value has no blanks around it, or a
comment that does not end early. -/
def Declaration.Printable : Declaration → Prop
  | .property name value => IsPropertyName name ∧ trim value = value ∧ IsValue value
  | .comment body => ¬ "*/".toList <:+: body

/-- A style rule that can be written down. -/
structure Rule.Printable (rule : Rule) : Prop where
  isStyle : rule.kind = .style
  selectors_ne_nil : rule.selectors ≠ []
  selectors : ∀ selector ∈ rule.selectors, IsSelector selector
  declarations : ∀ declaration ∈ rule.declarations, declaration.Printable

/-! ## Characters -/

/-- The characters before a block, tests apart. -/
def isHeadChar (c : Char) : Bool :=
  isSegmentChar c || c == ' ' || c == ','

theorem toNat_lt_of_isAlphanum {c : Char} (h : c.isAlphanum = true) : c.toNat < 128 := by
  have h : (decide (c.val ≥ 'A'.val ∧ c.val ≤ 'Z'.val) ||
      (c.val ≥ 'a'.val && c.val ≤ 'z'.val) || (c.val ≥ '0'.val && c.val ≤ '9'.val)) = true := h
  simp only [Bool.or_eq_true, Bool.and_eq_true, decide_eq_true_eq, UInt32.le_iff_toNat_le] at h
  have hZ : 'Z'.val.toNat = 90 := rfl
  have hz : 'z'.val.toNat = 122 := rfl
  have h9 : '9'.val.toNat = 57 := rfl
  show c.val.toNat < 128
  omega

/-- What holds of each of the few characters before a block holds of all of them. -/
theorem of_isHeadChar {p : Char → Bool}
    (hp : ∀ n < 128, isHeadChar (Char.ofNat n) = true → p (Char.ofNat n) = true) {c : Char}
    (h : isHeadChar c = true) : p c = true := by
  have hlt : c.toNat < 128 := by
    have h := h
    simp only [isHeadChar, isSegmentChar, isWordChar, Bool.or_eq_true, beq_iff_eq] at h
    rcases h with (((((h | rfl) | rfl) | rfl) | rfl) | rfl) | rfl
    · exact toNat_lt_of_isAlphanum h
    all_goals decide
  have hc := hp c.toNat hlt
  rw [Char.ofNat_toNat] at hc
  exact hc h

theorem isQuiet_of_isHeadChar {c : Char} (h : isHeadChar c = true) : isQuiet c = true :=
  of_isHeadChar (by decide) h

theorem isHeadChar_of_isSegmentChar {c : Char} (h : isSegmentChar c = true) :
    isHeadChar c = true := by
  simp [isHeadChar, h]

theorem isSegmentChar_of_isWordChar {c : Char} (h : isWordChar c = true) :
    isSegmentChar c = true := by
  simp [isSegmentChar, h]

/-- What holds of each of the few characters of a segment holds of all of them. -/
theorem of_isSegmentChar {p : Char → Bool}
    (hp : ∀ n < 128, isSegmentChar (Char.ofNat n) = true → p (Char.ofNat n) = true) {c : Char}
    (h : isSegmentChar c = true) : p c = true := by
  have himp := of_isHeadChar (p := fun c => !isSegmentChar c || p c) (fun n hn _ => ?_)
    (isHeadChar_of_isSegmentChar h)
  · simpa [h] using himp
  · cases hsegment : isSegmentChar (Char.ofNat n) with
    | false => rfl
    | true => exact hp n hn hsegment

theorem isPlainSelectorChar_of_isSegmentChar {c : Char} (h : isSegmentChar c = true) :
    isPlainSelectorChar c = true :=
  of_isSegmentChar (by decide) h

theorem isSpace_of_isSegmentChar {c : Char} (h : isSegmentChar c = true) : isSpace c = false := by
  simpa using of_isSegmentChar (p := fun c => !isSpace c) (by decide) h

theorem isQuiet_of_isWordChar {c : Char} (h : isWordChar c = true) : isQuiet c = true :=
  isQuiet_of_isHeadChar (isHeadChar_of_isSegmentChar (isSegmentChar_of_isWordChar h))

/-! ## Tests -/

/-- A value in quotes is kept as it is written. -/
theorem pieces_inString {value : Text} (depth : Nat) (current t : Text) (h : ∀ c ∈ value, c ≠ '"') :
    pieces (.inString '"' depth) current (value ++ '"' :: t) =
      pieces (.outside depth) ('"' :: value.reverse ++ current) t := by
  induction value generalizing current with
  | nil => simp [pieces]
  | cons c value ih =>
    obtain ⟨hc, hvalue⟩ := List.forall_mem_cons.1 h
    rw [List.cons_append, pieces, if_neg hc, ih _ hvalue]
    simp

namespace IsTest

variable {test : Text} (h : IsTest test)
include h

/-- A test opens with a square bracket, and all that follows is skipped with its block. -/
theorem exists_inside (t : Text) :
    ∃ inside, test ++ t = '[' :: inside ∧ skipBlocks [.square] inside = t := by
  have hclose : skipBlocks [.square] (']' :: t) = t := by
    rw [skipBlocks_eq, show lex (']' :: t) = some (.closing .square, t) from rfl]
    simp only [if_true]
    rw [skipBlocks]
  have hskip : ∀ {inside}, IsValue inside → skipBlocks [.square] (inside ++ ']' :: t) = t := by
    intro inside hinside
    rw [(skipsNeutral_skipBlocks .square []).value hinside, hclose]
    rintro _ ⟨rfl⟩
    rfl
  cases h with
  | @presence name hne hname =>
    refine ⟨name ++ [] ++ ']' :: t, by simp, hskip (.append ?_ .nil)⟩
    exact fun c hc => isQuiet_of_isWordChar (hname c hc)
  | @equality name value hne hname hvalue =>
    refine ⟨name ++ '=' :: ('"' :: value ++ '"' :: []) ++ ']' :: t, by simp,
      hskip (.append ?_ (.char rfl (.string (Or.inl rfl) hvalue .nil)))⟩
    exact fun c hc => isQuiet_of_isWordChar (hname c hc)

/-- A list of selectors keeps a test as it is. -/
theorem pieces (current t : Text) :
    Css.pieces (.outside 0) current (test ++ t) =
      Css.pieces (.outside 0) (test.reverse ++ current) t := by
  have hplain : ∀ {name : Text}, (∀ c ∈ name, isWordChar c = true) →
      ∀ c ∈ name, isPlainSelectorChar c = true := fun hname c hc =>
    isPlainSelectorChar_of_isSegmentChar (isSegmentChar_of_isWordChar (hname c hc))
  have hopen : ∀ current t, Css.pieces (.outside 0) current ('[' :: t) =
      Css.pieces (.outside 1) ('[' :: current) t := by
    intro current t
    rw [Css.pieces]
    · simp
    · simp
  have hclose : ∀ current t, Css.pieces (.outside 1) current (']' :: t) =
      Css.pieces (.outside 0) (']' :: current) t := by
    intro current t
    rw [Css.pieces]
    · simp
    · simp
  cases h with
  | @presence name hne hname =>
    have htext : '[' :: name ++ "]".toList ++ t = '[' :: (name ++ ']' :: t) := by simp
    rw [htext, hopen, pieces_append 1 _ _ (hplain hname), hclose]
    simp
  | @equality name value hne hname hvalue =>
    have htext : '[' :: name ++ "=\"".toList ++ value ++ "\"]".toList ++ t =
        '[' :: (name ++ '=' :: '"' :: (value ++ '"' :: ']' :: t)) := by simp
    have hequals : ∀ current t, Css.pieces (.outside 1) current ('=' :: '"' :: t) =
        Css.pieces (.inString '"' 1) ('"' :: '=' :: current) t := by
      intro current t
      have hplain : ∀ c ∈ ['='], isPlainSelectorChar c = true := List.all_eq_true.1 (by decide)
      have := pieces_append 1 current ('"' :: t) hplain
      rw [List.singleton_append] at this
      rw [this, Css.pieces]
      · simp
      · simp
    rw [htext, hopen, pieces_append 1 _ _ (hplain hname), hequals,
      pieces_inString 1 _ _ fun c hc => (hvalue c hc).1, hclose]
    simp

theorem head? : test.head? = some '[' := by
  cases h <;> rfl

theorem getLast? : test.getLast? = some ']' := by
  cases h with
  | presence hne hname => exact List.getLast?_concat
  | equality hne hname hvalue =>
    rw [show "\"]".toList = ['"'] ++ [']'] from rfl, ← List.append_assoc, List.getLast?_concat]

end IsTest

/-! ## The way to a block -/

/-- A text that leads over characters of selectors and whole tests to a block, the rest of which
is `body`.  The block does not stand right behind a test. -/
inductive Leads (body : Text) : Text → Prop
  | opening : Leads body ('{' :: body)
  | char {c : Char} {t : Text} (hc : isHeadChar c = true) (ht : Leads body t) :
      Leads body (c :: t)
  | test {test t : Text} (htest : IsTest test) (ht : Leads body t) (hhead : t.head? ≠ some '{') :
      Leads body (test ++ t)

/-- A pending block is skipped before the search for a rule's block goes on. -/
theorem findBlock?_settle {c : Cursor} {token : Token} {rest : Text}
    (h : lex c.settled = some (token, rest)) (htoken : token ≠ .opening .curly) :
    findBlock? c = findBlock? c.settle := by
  have hsettle : c.settle.settled = c.settled := Cursor.settled_start _
  rw [findBlock?_eq c, findBlock?_eq c.settle, Cursor.next?, Cursor.next?, hsettle, h]
  cases token with
  | opening bracket =>
    cases bracket with
    | curly => exact absurd rfl htoken
    | _ => rfl
  | _ => rfl

namespace Leads

variable {body t : Text}

/-- Up to the next test or the block the way is quiet. -/
theorem quietAhead (h : Leads body t) : QuietAhead t := by
  induction h with
  | opening =>
    apply TokensEnd.quietAhead
    rintro _ ⟨rfl⟩
    rfl
  | char hc _ ih => exact ih.cons (isQuiet_of_isHeadChar hc)
  | test htest _ _ _ =>
    apply TokensEnd.quietAhead
    intro c hc
    rw [List.head?_append, htest.head?, Option.some_or] at hc
    cases hc
    rfl

/-- The first token on the way is neutral or opens a test, unless the block stands there. -/
theorem exists_lex (h : Leads body t) (hhead : t.head? ≠ some '{') :
    ∃ token rest, lex t = some (token, rest) ∧ token ≠ .opening .curly := by
  cases h with
  | opening => exact absurd rfl hhead
  | @char c t hc ht =>
    obtain ⟨stretch, back, rfl, hquiet, hback⟩ := ht.quietAhead
    obtain ⟨token, left, hlex, hneutral, -⟩ :=
      lex_quiet (isQuiet_of_isHeadChar hc) hquiet hback
    refine ⟨token, left ++ back, hlex, ?_⟩
    rintro rfl
    cases hneutral
  | @test test t htest ht _ =>
    obtain ⟨inside, heq, -⟩ := htest.exists_inside t
    refine ⟨.opening .square, inside, ?_, by decide⟩
    rw [heq]
    rfl

/-- The search for a block skips a test. -/
theorem findBlock?_test {test : Text} (htest : IsTest test) (h : Leads body t)
    (hhead : t.head? ≠ some '{') :
    Css.findBlock? (.start (test ++ t)) = Css.findBlock? (.start t) := by
  obtain ⟨inside, heq, hskip⟩ := htest.exists_inside t
  obtain ⟨token, rest, hlex, htoken⟩ := h.exists_lex hhead
  have hsettled : Cursor.settled { rest := inside, pending := some .square } = t := hskip
  have hnext : (Cursor.start ('[' :: inside)).next? =
      some (.opening .square, { rest := inside, pending := some .square }) := by
    rw [Cursor.next?, Cursor.settled_start]
    rfl
  rw [heq, findBlock?_eq, hnext]
  show Css.findBlock? { rest := inside, pending := some .square } = _
  rw [findBlock?_settle (hsettled.symm ▸ hlex) htoken, Cursor.settle, hsettled]

/-- The block at the end of the way is found. -/
theorem findBlock? (h : Leads body t) : Css.findBlock? (.start t) = some ('{' :: body, body) := by
  induction h with
  | opening => exact findBlock?_openCurly body
  | char hc ht ih =>
    exact (skipsNeutral_findBlock?.char (isQuiet_of_isHeadChar hc) ht.quietAhead).trans ih
  | test htest ht hhead ih => rw [findBlock?_test htest ht hhead, ih]

/-- Characters of selectors may stand in front of a way to a block. -/
theorem append {stretch : Text} (hstretch : ∀ c ∈ stretch, isHeadChar c = true)
    (h : Leads body t) : Leads body (stretch ++ t) := by
  induction stretch with
  | nil => exact h
  | cons c stretch ih =>
    obtain ⟨hc, hstretch⟩ := List.forall_mem_cons.1 hstretch
    exact .char hc (ih hstretch)

/-- How a way to a block starts. -/
theorem cases_cons {c : Char} (h : Leads body (c :: t)) :
    c = '{' ∨ c = '[' ∨ isHeadChar c = true ∧ Leads body t := by
  generalize htext : c :: t = text at h
  cases h with
  | opening => exact Or.inl (List.cons.inj htext).1
  | char hc ht =>
    obtain ⟨rfl, rfl⟩ := List.cons.inj htext
    exact Or.inr (Or.inr ⟨hc, ht⟩)
  | @test test back htest _ _ =>
    have hhead := congrArg List.head? htext
    rw [List.head?_append, htest.head?, Option.some_or, List.head?_cons] at hhead
    exact Or.inr (Or.inl (Option.some.inj hhead))

/-- No arrow stands on the way to a block. -/
theorem not_arrow (h : Leads body t) : ¬ "->".toList <+: t := by
  rintro ⟨back, rfl⟩
  rcases h.cases_cons with hc | hc | ⟨-, h⟩
  · exact absurd hc (by decide)
  · exact absurd hc (by decide)
  · rcases h.cases_cons with hc | hc | ⟨hc, -⟩ <;> exact absurd hc (by decide)

/-- The first token of a selector can start a rule. -/
theorem startsStyle_lexFrom {c : Char} (hc : isSegmentChar c = true) (h : Leads body t) :
    (lexFrom c t).1.startsStyle = true := by
  have hquiet := isQuiet_of_isHeadChar (isHeadChar_of_isSegmentChar hc)
  have hident : (identLike (c :: t)).1.startsStyle = true := by
    obtain ⟨stretch, back, rfl, hstretch, hback⟩ := h.quietAhead
    rw [← List.cons_append, identLike_quiet (List.forall_mem_cons.2 ⟨hquiet, hstretch⟩) hback]
    rfl
  have hspace := isSpace_of_isSegmentChar hc
  have hquote : ¬ (c = '"' ∨ c = '\x27') := by
    rintro (rfl | rfl) <;> exact absurd hquiet (by decide)
  unfold lexFrom
  rw [if_neg (by simp [hspace]), if_neg hquote]
  by_cases hdigit : c.isDigit = true
  · rw [if_pos hdigit]
    rfl
  rw [if_neg hdigit]
  by_cases hstart : isNameStart c = true
  · rw [if_pos hstart]
    exact hident
  rw [if_neg hstart]
  -- what is left are the marks in front of names
  have hmark : c = '-' ∨ c = '.' ∨ c = '#' := by
    have := of_isSegmentChar (p := fun c => c.isDigit || isNameStart c || c == '-' || c == '.' ||
      c == '#') (by decide) hc
    simpa [hdigit, hstart, or_assoc] using this
  rcases hmark with rfl | rfl | rfl
  · show (if startsNumber t then _ else _ : Token × Text).1.startsStyle = true
    split
    · rfl
    · split
      · next back _ => exact absurd ⟨back, rfl⟩ h.not_arrow
      · split
        · exact hident
        · rfl
  · show (if startsDigit t then _ else _ : Token × Text).1.startsStyle = true
    split <;> rfl
  · show (if _ then _ else _ : Token × Text).1.startsStyle = true
    split <;> rfl

/-- At the start of a selector stands a token with which a style rule can start. -/
theorem exists_lex_style {c : Char} (hc : isSegmentChar c = true) (h : Leads body t) :
    ∃ token rest, lex (c :: t) = some (token, rest) ∧ token.startsStyle = true ∧
      token.opens? = none := by
  refine ⟨(lexFrom c t).1, (lexFrom c t).2, rfl, startsStyle_lexFrom hc h, ?_⟩
  obtain ⟨stretch, back, rfl, hquiet, hback⟩ := h.quietAhead
  have hc := isQuiet_of_isHeadChar (isHeadChar_of_isSegmentChar hc)
  exact Token.opens?_of_isNeutral (lexFrom_quiet hc hquiet hback).1

end Leads

/-! ## Selectors -/

theorem isBlank_of_isSegmentChar {c : Char} (h : isSegmentChar c = true) : isBlank c = false := by
  simpa using of_isSegmentChar (p := fun c => !isBlank c) (by decide) h

/-- A space is kept behind a text that does not end with a blank. -/
theorem pieces_space_of_getLast? {w : Text} (h : ∃ c, w.getLast? = some c ∧ isBlank c = false)
    (current t : Text) :
    pieces (.outside 0) (w.reverse ++ current) (' ' :: t) =
      pieces (.outside 0) (' ' :: (w.reverse ++ current)) t := by
  obtain ⟨c, hc, hblank⟩ := h
  have hhead : (w.reverse ++ current).head? = some c := by
    rw [List.head?_append, List.head?_reverse, hc, Option.some_or]
  apply pieces_space
  · intro hnil
    simp [hnil] at hhead
  · rw [hhead]
    rintro ⟨rfl⟩
    exact absurd hblank (by decide)

namespace IsSegment

variable {segment : Text} (h : IsSegment segment)
include h

theorem exists_cons : ∃ c t, segment = c :: t ∧ isSegmentChar c = true := by
  induction h with
  | @base base hne hbase =>
    cases base with
    | nil => exact absurd rfl hne
    | cons c base => exact ⟨c, base, rfl, hbase c (by simp)⟩
  | @test segment test _ _ ih =>
    obtain ⟨c, t, rfl, hc⟩ := ih
    exact ⟨c, t ++ test, rfl, hc⟩

/-- No blank stands at the end of a segment. -/
theorem exists_getLast? : ∃ c, segment.getLast? = some c ∧ isBlank c = false := by
  cases h with
  | base hne hbase =>
    refine ⟨segment.getLast hne, List.getLast?_eq_some_getLast hne, ?_⟩
    exact isBlank_of_isSegmentChar (hbase _ (List.getLast_mem hne))
  | @test segment test _ htest =>
    refine ⟨']', ?_, by decide⟩
    rw [List.getLast?_append, htest.getLast?, Option.some_or]

theorem leads {body t : Text} (ht : Leads body t) (hhead : t.head? ≠ some '{') :
    Leads body (segment ++ t) := by
  induction h generalizing t with
  | base _ hbase => exact ht.append fun c hc => isHeadChar_of_isSegmentChar (hbase c hc)
  | @test segment test _ htest ih =>
    rw [List.append_assoc]
    apply ih (.test htest ht hhead)
    rw [List.head?_append, htest.head?]
    simp

theorem pieces (current t : Text) :
    Css.pieces (.outside 0) current (segment ++ t) =
      Css.pieces (.outside 0) (segment.reverse ++ current) t := by
  induction h generalizing t with
  | base _ hbase =>
    exact pieces_append 0 current t fun c hc => isPlainSelectorChar_of_isSegmentChar (hbase c hc)
  | @test segment test _ htest ih =>
    rw [List.append_assoc, ih, htest.pieces, List.reverse_append, List.append_assoc]

end IsSegment

namespace IsSelector

variable {selector : Text} (h : IsSelector selector)
include h

theorem exists_cons : ∃ c t, selector = c :: t ∧ isSegmentChar c = true := by
  cases h with
  | segment hsegment => exact hsegment.exists_cons
  | @descendant segment selector hsegment _ =>
    obtain ⟨c, t, rfl, hc⟩ := hsegment.exists_cons
    exact ⟨c, t ++ ' ' :: selector, rfl, hc⟩

theorem exists_getLast? : ∃ c, selector.getLast? = some c ∧ isBlank c = false := by
  induction h with
  | segment hsegment => exact hsegment.exists_getLast?
  | @descendant segment selector _ _ ih =>
    obtain ⟨c, hc, hblank⟩ := ih
    refine ⟨c, ?_, hblank⟩
    rw [List.getLast?_append, List.getLast?_cons, hc]
    rfl

/-- A selector has no blanks around it. -/
theorem trimmed : Trimmed selector := by
  obtain ⟨c, t, hcons, hc⟩ := h.exists_cons
  obtain ⟨d, hlast, hd⟩ := h.exists_getLast?
  refine ⟨?_, ?_⟩
  · rw [hcons]
    rintro _ ⟨rfl⟩
    exact isBlank_of_isSegmentChar hc
  · rw [hlast]
    rintro _ ⟨rfl⟩
    exact hd

theorem leads {body t : Text} (ht : Leads body t) (hhead : t.head? ≠ some '{') :
    Leads body (selector ++ t) := by
  induction h with
  | segment hsegment => exact hsegment.leads ht hhead
  | @descendant segment selector hsegment _ ih =>
    rw [List.append_assoc, List.cons_append]
    exact hsegment.leads (.char (by decide) ih) (by simp)

theorem pieces (current t : Text) :
    Css.pieces (.outside 0) current (selector ++ t) =
      Css.pieces (.outside 0) (selector.reverse ++ current) t := by
  induction h generalizing current with
  | segment hsegment => exact hsegment.pieces current t
  | @descendant segment selector hsegment _ ih =>
    rw [List.append_assoc, List.cons_append, hsegment.pieces,
      pieces_space_of_getLast? hsegment.exists_getLast?, ih]
    simp

end IsSelector

/-! ## The head of a rule -/

/-- The head of a rule leads to its block. -/
theorem leads_head {body : Text} {selectors : List Text} (hne : selectors ≠ [])
    (h : ∀ selector ∈ selectors, IsSelector selector) :
    Leads body (", ".toList.intercalate selectors ++ ' ' :: '{' :: body) := by
  induction selectors with
  | nil => exact absurd rfl hne
  | cons selector selectors ih =>
    obtain ⟨hselector, hselectors⟩ := List.forall_mem_cons.1 h
    cases selectors with
    | nil =>
      rw [List.intercalate_singleton]
      exact hselector.leads (.char (by decide) .opening) (by simp)
    | cons next selectors =>
      have ih := ih (List.cons_ne_nil next selectors) hselectors
      rw [List.intercalate_cons_cons, List.append_assoc, List.append_assoc]
      exact hselector.leads (.char (by decide) (.char (by decide) ih)) (by simp)

theorem exists_cons_selectors {selectors : List Text} (hne : selectors ≠ [])
    (h : ∀ selector ∈ selectors, IsSelector selector) :
    ∃ c t, ", ".toList.intercalate selectors = c :: t ∧ isSegmentChar c = true := by
  cases selectors with
  | nil => exact absurd rfl hne
  | cons selector selectors =>
    obtain ⟨c, t, rfl, hc⟩ := (h selector List.mem_cons_self).exists_cons
    cases selectors with
    | nil => exact ⟨c, t, List.intercalate_singleton, hc⟩
    | cons next selectors =>
      rw [List.intercalate_cons_cons]
      exact ⟨c, _, rfl, hc⟩

/-- The selectors of a list are those that were written. -/
theorem splitSelectors_head {selectors : List Text} (hne : selectors ≠ [])
    (h : ∀ selector ∈ selectors, IsSelector selector) :
    splitSelectors (", ".toList.intercalate selectors ++ " ".toList) = selectors := by
  have hpieces : (pieces (.outside 0) [] (", ".toList.intercalate selectors ++ " ".toList)).map
      trim = selectors := by
    induction selectors with
    | nil => exact absurd rfl hne
    | cons selector selectors ih =>
      obtain ⟨hselector, hselectors⟩ := List.forall_mem_cons.1 h
      have htrim := trim_eq_self hselector.trimmed
      cases selectors with
      | nil =>
        have hlast := pieces_space_of_getLast? hselector.exists_getLast? [] []
        rw [List.append_nil] at hlast
        rw [List.intercalate_singleton, hselector.pieces, List.append_nil]
        show (pieces (.outside 0) selector.reverse [' ']).map trim = [selector]
        rw [hlast, pieces, List.map_singleton, List.reverse_cons, List.reverse_reverse,
          trim_append_right (by simp; decide), htrim]
      | cons next selectors =>
        have ih := ih (List.cons_ne_nil next selectors) hselectors
        rw [List.intercalate_cons_cons, List.append_assoc, List.append_assoc, hselector.pieces,
          List.append_nil, pieces_comma_space, List.map_cons, List.reverse_reverse, htrim, ih]
  have hkeep : ∀ selector ∈ selectors, (!selector.isEmpty) = true := by
    intro selector hselector
    obtain ⟨c, t, rfl, -⟩ := (h selector hselector).exists_cons
    rfl
  rw [splitSelectors, hpieces, List.filter_eq_self.2 hkeep]

/-! ## The block of a rule -/

theorem isNameChar_of_isWordChar {c : Char} (h : isWordChar c = true) : isNameChar c = true := by
  simp only [isWordChar, isNameChar, Bool.or_eq_true] at h ⊢
  rcases h with (h | h) | h <;> simp [h]

namespace IsPropertyName

variable {name : Text} (h : IsPropertyName name)
include h

theorem isWordChar_of_mem : ∀ c ∈ name, isWordChar c = true := by
  cases h with
  | custom hword => exact List.forall_mem_cons.2 ⟨rfl, List.forall_mem_cons.2 ⟨rfl, hword⟩⟩
  | plain hc hword =>
    refine List.forall_mem_cons.2 ⟨?_, hword⟩
    simp [isWordChar, Char.isAlphanum, hc]

theorem exists_cons : ∃ c word, name = c :: word ∧ isSegmentChar c = true := by
  cases name with
  | nil => cases h
  | cons c word =>
    exact ⟨c, word, rfl, isSegmentChar_of_isWordChar (h.isWordChar_of_mem c List.mem_cons_self)⟩

/-- The names of properties that can be displayed are written without escapes. -/
theorem isIdent : IsIdent name := by
  refine ⟨?_, fun c hc => isNameChar_of_isWordChar (h.isWordChar_of_mem c hc)⟩
  cases h with
  | custom hword => rfl
  | plain hc hword => exact startsIdent_of_isNameStart (by simp [isNameStart, hc]) _

end IsPropertyName

/-- A value is read up to the semicolon behind it. -/
theorem readChunks_value {value : Text} (h : IsValue value) (chunk back : Text) :
    readChunks chunk (.start (value ++ ';' :: back)) = (upTo chunk (';' :: back), .start back) := by
  have hlex : lex (';' :: back) = some (.semicolon, back) := rfl
  rw [(skipsNeutral_readChunks chunk).value h, readChunks_eq,
    Cursor.nextInBlock?_start hlex rfl (by simp)]
  · rfl
  · rintro _ ⟨rfl⟩
    rfl

/-- The value of a displayed declaration is read back. -/
theorem readValue_value {value : Text} (h : IsValue value) (htrim : trim value = value)
    (back : Text) :
    readValue (.start (": ".toList ++ value ++ ";".toList ++ back)) =
      (some value, .start back) := by
  have hlex : lex (": ".toList ++ value ++ ";".toList ++ back) =
      some (.colon, ' ' :: value ++ ';' :: back) := by
    have htext : ": ".toList ++ value ++ ";".toList ++ back =
        ':' :: (' ' :: value ++ ';' :: back) := by simp
    rw [htext]
    rfl
  have hspace : IsValue (' ' :: value) := .char rfl h
  rw [readValue_eq, Cursor.nextInBlock?_start hlex rfl (by simp)]
  show Prod.map (fun value => some (trim value)) id
    (readChunks (' ' :: value ++ ';' :: back) (.start (' ' :: value ++ ';' :: back))) = _
  have hblank : trim (' ' :: value) = value := by
    have := trim_append_left (w := " ".toList) (t := value) (by simp; decide)
    exact this.trans htrim
  rw [readChunks_value hspace, upTo_append, Prod.map_apply, id_eq, hblank]

/-- A declaration at the front of a block is one of its items. -/
theorem readBlock_declaration {declaration : Declaration} (h : declaration.Printable)
    (t : Text) :
    readBlock (.start (declaration.display ++ t)) =
      Prod.map (.declaration declaration :: ·) id (readBlock (.start t)) := by
  cases declaration with
  | property name value =>
    obtain ⟨hname, htrim, hvalue⟩ := h
    have htext : (Declaration.property name value).display ++ t =
        ' ' :: (name ++ (": ".toList ++ value ++ ";".toList ++ t)) := by
      simp [Declaration.display]
    have hlex : lex (name ++ (": ".toList ++ value ++ ";".toList ++ t)) =
        some (.ident name, ": ".toList ++ value ++ ";".toList ++ t) := by
      simpa using hname.isIdent.lex_eq (' ' :: value ++ ";".toList ++ t)
    have hread := readValue_value hvalue htrim t
    rw [htext]
    generalize ": ".toList ++ value ++ ";".toList ++ t = back at hlex hread
    obtain ⟨c, word, rfl, hc⟩ := hname.exists_cons
    have hspace : ∀ d ∈ (c :: word ++ back).head?, isSpace d = false := by
      rintro _ ⟨rfl⟩
      exact isSpace_of_isSegmentChar hc
    have hcurly : (c :: word ++ back).head? ≠ some '}' := by
      rintro ⟨rfl⟩
      exact absurd hc (by decide)
    rw [readBlock_space (lex_space hspace) (by simp), readBlock_property hlex hcurly hread]
  | comment body =>
    have htext : (Declaration.comment body).display ++ t =
        ' ' :: ("/*".toList ++ body ++ "*/".toList ++ t) := by
      simp [Declaration.display]
    rw [htext, readBlock_space (lex_space (by simp; decide)) (by simp),
      readBlock_comment (lex_comment h t) (by simp)]

/-- A block consists of the declarations that it was written from. -/
theorem readBlock_declarations {declarations : List Declaration}
    (h : ∀ declaration ∈ declarations, declaration.Printable) (t : Text) :
    readBlock (.start (declarations.flatMap Declaration.display ++ ' ' :: '}' :: t)) =
      (declarations.map .declaration, '}' :: t) := by
  induction declarations with
  | nil => exact readBlock_end t
  | cons declaration declarations ih =>
    obtain ⟨hdeclaration, hdeclarations⟩ := List.forall_mem_cons.1 h
    rw [List.flatMap_cons, List.append_assoc, readBlock_declaration hdeclaration,
      ih hdeclarations]
    rfl

/-! ## Sheets -/

theorem declarations_map (declarations : List Declaration) :
    Css.declarations (declarations.map .declaration) = declarations := by
  rw [Css.declarations, List.filterMap_map]
  exact List.filterMap_some

/-- Selectors with a block behind them are the first item of a sheet. -/
theorem readItems_selectors {selectors : List Text} (hne : selectors ≠ [])
    (h : ∀ selector ∈ selectors, IsSelector selector) {body back : Text} {items : List BlockItem}
    (hread : readBlock (.start body) = (items, '}' :: back)) :
    readItems (.start (", ".toList.intercalate selectors ++ ' ' :: '{' :: body)) =
      Prod.map (.style selectors items :: ·) id (readItems (.start back)) := by
  let sheet := ", ".toList.intercalate selectors ++ ' ' :: '{' :: body
  have hstretch : upTo sheet ('{' :: body) =
      ", ".toList.intercalate selectors ++ " ".toList := by
    have := upTo_append (", ".toList.intercalate selectors ++ " ".toList) ('{' :: body)
    rwa [List.append_assoc, show " ".toList ++ '{' :: body = ' ' :: '{' :: body from rfl] at this
  have hleads : Leads body sheet := leads_head hne h
  obtain ⟨token, rest, hlex, hstyle, hopens⟩ : ∃ token rest,
      lex sheet = some (token, rest) ∧ token.startsStyle = true ∧ token.opens? = none := by
    obtain ⟨c, u, hcons, hc⟩ := exists_cons_selectors hne h
    have htext : sheet = c :: (u ++ ' ' :: '{' :: body) := by
      rw [← List.cons_append, ← hcons]
    rw [htext] at hleads ⊢
    rcases hleads.cases_cons with rfl | rfl | ⟨-, hrest⟩
    · exact absurd hc (by decide)
    · exact absurd hc (by decide)
    · exact hrest.exists_lex_style hc
  rw [readItems_style hlex hstyle hopens hleads.findBlock? hread, hstretch,
    splitSelectors_head hne h]

/-- A rule at the front of a sheet is its first item. -/
theorem readItems_display {rule : Rule} (h : rule.Printable) (t : Text) :
    readItems (.start (rule.display ++ t)) =
      Prod.map (.style rule.selectors (rule.declarations.map .declaration) :: ·) id
        (readItems (.start t)) := by
  have htext : rule.display ++ t = ", ".toList.intercalate rule.selectors ++
      ' ' :: '{' :: (rule.declarations.flatMap Declaration.display ++ ' ' :: '}' :: t) := by
    simp [Rule.display, Rule.head, h.isStyle]
  rw [htext, readItems_selectors h.selectors_ne_nil h.selectors
    (readBlock_declarations h.declarations t)]

/-- Rules that are displayed one after the other are read back as the items of a sheet. -/
theorem readItems_displays (rules : List Rule) (h : ∀ rule ∈ rules, rule.Printable) :
    readItems (.start (rules.flatMap Rule.display)) =
      (rules.map fun rule => .style rule.selectors (rule.declarations.map .declaration), none) := by
  induction rules with
  | nil => exact readItems_nil
  | cons rule rules ih =>
    obtain ⟨hrule, hrules⟩ := List.forall_mem_cons.1 h
    rw [List.flatMap_cons, readItems_display hrule, ih hrules]
    rfl

/-- What is displayed is read back: a sheet of style rules, each on its line and nothing between
them, consists of these rules. -/
theorem parse_display (rules : List Rule) (h : ∀ rule ∈ rules, rule.Printable) :
    parse (rules.flatMap Rule.display) = .ok rules := by
  have hrule : ∀ rule ∈ rules, Item.rule (.style rule.selectors
      (rule.declarations.map .declaration)) = rule := by
    intro rule hmem
    rw [Item.rule, declarations_map, ← (h rule hmem).isStyle]
  have hitems : (rules.map fun rule => Item.style rule.selectors
      (rule.declarations.map .declaration)).map Item.rule = rules := by
    rw [List.map_map]
    exact (List.map_congr_left hrule).trans (List.map_id rules)
  rw [parse, read, readItems_displays rules h]
  exact congrArg Except.ok hitems

/-- Rules whose selectors, values and comments hold everything that could mislead a reader:
brackets, commas and the marks of comments within quotes, hyphens, an empty value. -/
def ornateRules : List Rule :=
  [{ kind := .style
     selectors :=
       ["ul.menu#main".toList ++ ' ' ::
          ("li".toList ++ ('[' :: "title".toList ++ "=\"".toList ++ "a, b] \x7b".toList ++
            "\"]".toList)),
        "--".toList ++ ('[' :: "hidden".toList ++ "]".toList) ++
          ('[' :: "data-k".toList ++ "=\"".toList ++ "/* ; */".toList ++ "\"]".toList)]
     declarations :=
       [.comment " text: a; \x7d ".toList, .property "--".toList [],
        .property "content".toList
          ('"' :: "\x7d;".toList ++ '"' :: (" @x -> ".toList ++
            ('\x27' :: "a\"b".toList ++ ['\x27'])))] },
   { kind := .style, selectors := ["p".toList], declarations := [.comment "*".toList] }]

theorem printable_ornateRules : ∀ rule ∈ ornateRules, rule.Printable := by
  have hchars : ∀ {p : Char → Bool} {t : Text}, t.all p = true → ∀ c ∈ t, p c = true :=
    fun h => List.all_eq_true.1 h
  have hbody : ∀ {quote : Char} {t : Text},
      t.all (fun c => c != quote && c != '\\' && !isNewline c) = true →
        ∀ c ∈ t, c ≠ quote ∧ c ≠ '\\' ∧ isNewline c = false := by
    intro quote t h c hc
    simpa [and_assoc] using List.all_eq_true.1 h c hc
  refine List.forall_mem_cons.2 ⟨⟨rfl, by simp, ?_, ?_⟩, List.forall_mem_cons.2 ⟨⟨rfl, by simp, ?_,
    ?_⟩, by simp⟩⟩
  · refine List.forall_mem_cons.2 ⟨.descendant (.base (by decide) (hchars (by decide)))
      (.segment (.test (.base (by decide) (hchars (by decide)))
        (.equality (by decide) (hchars (by decide)) (hbody (by decide))))), ?_⟩
    refine List.forall_mem_cons.2 ⟨.segment (.test (.test (.base (by decide) (hchars (by decide)))
      (.presence (by decide) (hchars (by decide))))
      (.equality (by decide) (hchars (by decide)) (hbody (by decide)))), by simp⟩
  · refine List.forall_mem_cons.2 ⟨?_, List.forall_mem_cons.2 ⟨?_, List.forall_mem_cons.2 ⟨?_,
      by simp⟩⟩⟩
    · exact fun hends => absurd (hends.subset (List.mem_cons_self (a := '*'))) (by decide)
    · exact ⟨@IsPropertyName.custom [] (by simp), rfl, .nil⟩
    · refine ⟨@IsPropertyName.plain 'c' "ontent".toList (by decide) (hchars (by decide)), ?_, ?_⟩
      · rfl
      · exact .string (Or.inl rfl) (hbody (by decide)) (.append (hchars (by decide))
          (.string (Or.inr rfl) (hbody (by decide)) .nil))
  · exact List.forall_mem_cons.2 ⟨.segment (.base (by decide) (hchars (by decide))), by simp⟩
  · refine List.forall_mem_cons.2 ⟨?_, by simp⟩
    exact fun hends => absurd (hends.length_le) (by decide)

theorem parse_display_ornateRules :
    (∀ rule ∈ ornateRules, rule.Printable) ∧
      parse (ornateRules.flatMap Rule.display) = .ok ornateRules :=
  ⟨printable_ornateRules, parse_display ornateRules printable_ornateRules⟩

end Scaffold.Css
