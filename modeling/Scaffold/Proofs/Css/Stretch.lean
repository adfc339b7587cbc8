import Scaffold.Proofs.Css.Reading

/-!
# Quiet stretches

A stretch of a style sheet is *quiet* if no character in it opens, closes or ends anything: no
bracket, quote, backslash, slash or semicolon.  Whatever tokens such a stretch is read as, the
reader never gets past its end (`lex_quiet`), as long as something follows that ends every
token.  So a reader that does nothing with such tokens passes over the whole stretch
(`SkipsNeutral.stretch`), and over strings between such stretches as well
(`SkipsNeutral.value`).
-/

namespace Scaffold.Css

open Scaffold.Text

/-! ## Characters -/

/-- A character that opens, closes and ends nothing. -/
def isQuiet (c : Char) : Bool :=
  !(c == ';' || c == '{' || c == '}' || c == '(' || c == ')' || c == '[' || c == ']' ||
    c == '"' || c == '\x27' || c == '\\' || c == '/')

/-- A character at which every token ends that started before it. -/
def endsTokens (c : Char) : Bool :=
  c == ';' || c == '{' || c == '}' || c == '[' || c == ']' || c == '"' || c == '\x27'

/-- A text at whose front no token goes on. -/
def TokensEnd (t : Text) : Prop :=
  ∀ c ∈ t.head?, endsTokens c = true

/-- What is false of the seven characters that end tokens is false of all that do. -/
theorem false_of_endsTokens {p : Char → Bool} {c : Char} (h : endsTokens c = true)
    (hp : [';', '{', '}', '[', ']', '"', '\x27'].any p = false) : p c = false := by
  simp only [endsTokens, Bool.or_eq_true, beq_iff_eq] at h
  rw [Bool.eq_false_iff]
  apply List.any_eq_false.1 hp
  simp only [List.mem_cons, List.not_mem_nil, or_false]
  rcases h with (((((h | h) | h) | h) | h) | h) | h <;> simp [h]

theorem endsTokens_of_isDigit {c : Char} (h : c.isDigit = true) : endsTokens c = false := by
  rw [Bool.eq_false_iff]
  intro hends
  rw [false_of_endsTokens (p := Char.isDigit) hends (by decide)] at h
  cases h

namespace TokensEnd

variable {back : Text} (hback : TokensEnd back)
include hback

theorem nameEnds : NameEnds back := by
  intro c hc
  have hends := hback c hc
  have hescape := false_of_endsTokens (p := (· == '\\')) hends (by decide)
  have hnul := false_of_endsTokens (p := (· == nul)) hends (by decide)
  exact ⟨by simpa using hescape, by simpa using hnul,
    false_of_endsTokens (p := isNameChar) hends (by decide)⟩

/-- A character that ends no token stands within the stretch in front. -/
theorem eq_cons {stretch t : Text} {c : Char} (h : stretch ++ back = c :: t)
    (hc : endsTokens c = false) : ∃ left, stretch = c :: left ∧ t = left ++ back := by
  cases stretch with
  | nil =>
    rw [List.nil_append] at h
    rw [hback c (by simp [h])] at hc
    cases hc
  | cons d stretch =>
    obtain ⟨rfl, rfl⟩ := List.cons.inj h
    exact ⟨stretch, rfl, rfl⟩

end TokensEnd

/-! ## Readers that stay within a stretch -/

/-- What is left is some of a stretch and all that stands behind it. -/
def Within (stretch back t : Text) : Prop :=
  ∃ left, left <:+ stretch ∧ t = left ++ back

theorem within_self (stretch back : Text) : Within stretch back (stretch ++ back) :=
  ⟨stretch, List.suffix_rfl, rfl⟩

/-- What is left within a stretch is left within a longer one. -/
theorem Within.cons {stretch back t : Text} (h : Within stretch back t) (c : Char) :
    Within (c :: stretch) back t := by
  obtain ⟨left, hleft, ht⟩ := h
  exact ⟨left, hleft.trans (List.suffix_cons c stretch), ht⟩

/-- A reader that never gets past the end of a quiet stretch. -/
def StaysWithin (f : Text → Text) : Prop :=
  ∀ stretch back : Text, (∀ c ∈ stretch, isQuiet c = true) → TokensEnd back →
    Within stretch back (f (stretch ++ back))

/-- Readers that stay within a stretch do so one after the other. -/
theorem StaysWithin.comp {f g : Text → Text} (hg : StaysWithin g) (hf : StaysWithin f) :
    StaysWithin (g ∘ f) := by
  intro stretch back hquiet hback
  obtain ⟨left, hleft, ht⟩ := hf stretch back hquiet hback
  obtain ⟨left', hleft', ht'⟩ := hg left back (fun c hc => hquiet c (hleft.subset hc)) hback
  exact ⟨left', hleft'.trans hleft, by rw [Function.comp_apply, ht, ht']⟩

theorem staysWithin_dropWhile {p : Char → Bool}
    (hp : [';', '{', '}', '[', ']', '"', '\x27'].any p = false) :
    StaysWithin (List.dropWhile p) := by
  intro stretch back hquiet hback
  induction stretch with
  | nil =>
    refine ⟨[], List.suffix_rfl, ?_⟩
    cases back with
    | nil => rfl
    | cons c back =>
      have hc := false_of_endsTokens (hback c rfl) hp
      rw [List.nil_append, List.dropWhile_cons_of_neg (by simp [hc])]
  | cons c stretch ih =>
    rw [List.cons_append]
    by_cases hc : p c = true
    · rw [List.dropWhile_cons_of_pos hc]
      exact (ih fun d hd => hquiet d (List.mem_cons_of_mem c hd)).cons c
    · rw [List.dropWhile_cons_of_neg hc]
      exact within_self (c :: stretch) back

theorem staysWithin_digits : StaysWithin (List.dropWhile Char.isDigit) :=
  staysWithin_dropWhile (by decide)

/-- No name goes past the end of a quiet stretch: there are no escapes in it. -/
theorem staysWithin_name : StaysWithin fun t => (name t).2 := by
  intro stretch back hquiet hback
  induction stretch with
  | nil =>
    refine ⟨[], List.suffix_rfl, ?_⟩
    simp [name_of_nameEnds hback.nameEnds]
  | cons c stretch ih =>
    obtain ⟨hc, hstretch⟩ := List.forall_mem_cons.1 hquiet
    have hescape : c ≠ '\\' := ne_of_apply_ne isQuiet (hc.trans_ne (by decide))
    have hrest := (ih hstretch).cons c
    show Within (c :: stretch) back (name (c :: (stretch ++ back))).2
    rw [name, if_neg hescape]
    by_cases hnul : c = nul
    · rw [if_pos hnul]
      exact hrest
    · rw [if_neg hnul]
      by_cases hname : isNameChar c = true
      · rw [if_pos hname]
        exact hrest
      · rw [if_neg hname]
        exact within_self (c :: stretch) back

theorem name_cons_snd {c : Char} (t : Text) (hescape : c ≠ '\\')
    (hc : c = nul ∨ isNameChar c = true) : (name (c :: t)).2 = (name t).2 := by
  rw [name, if_neg hescape]
  by_cases hnul : c = nul
  · rw [if_pos hnul]
    rfl
  · rw [if_neg hnul, if_pos (hc.resolve_left hnul)]
    rfl

/-- What opens a function's block is no part of a quiet stretch, so a name in it is no more
than a name. -/
theorem identLike_quiet {stretch back : Text} (hquiet : ∀ c ∈ stretch, isQuiet c = true)
    (hback : TokensEnd back) :
    identLike (stretch ++ back) =
      (.ident (name (stretch ++ back)).1, (name (stretch ++ back)).2) := by
  obtain ⟨left, hleft, heq⟩ := staysWithin_name stretch back hquiet hback
  unfold identLike
  split
  · next n rest hname =>
    simp only [hname] at heq
    obtain ⟨left', rfl, -⟩ := hback.eq_cons heq.symm (by decide)
    have hparen := hquiet '(' (hleft.subset (by simp))
    exact absurd hparen (by decide)
  · next n rest _ hname => rw [hname]

/-! ## Numbers -/

theorem staysWithin_afterFraction : StaysWithin afterFraction := by
  intro stretch back hquiet hback
  unfold afterFraction
  split
  · next d t heq =>
    split
    · next hd =>
      obtain ⟨stretch, rfl, hdigit⟩ := hback.eq_cons heq (by decide)
      obtain ⟨stretch, rfl, rfl⟩ := hback.eq_cons hdigit.symm (endsTokens_of_isDigit hd)
      exact ((staysWithin_digits stretch back
        (fun c hc => hquiet c (by simp [hc])) hback).cons d).cons '.'
    · rw [← heq]
      exact within_self stretch back
  · exact within_self stretch back

theorem staysWithin_afterExponent : StaysWithin afterExponent := by
  intro stretch back hquiet hback
  have hself := within_self stretch back
  unfold afterExponent
  split
  · next e d t heq =>
    split
    · next he =>
      have he : endsTokens e = false := by rcases he with rfl | rfl <;> decide
      obtain ⟨stretch, rfl, hrest⟩ := hback.eq_cons heq he
      -- the digits behind a digit or a sign stay in the stretch, as that one does
      have hdigits : endsTokens d = false →
          Within (e :: stretch) back (t.dropWhile Char.isDigit) := by
        intro hd
        obtain ⟨stretch, rfl, rfl⟩ := hback.eq_cons hrest.symm hd
        exact ((staysWithin_digits stretch back
          (fun c hc => hquiet c (by simp [hc])) hback).cons d).cons e
      split
      · next hd => exact hdigits (endsTokens_of_isDigit hd)
      · split
        · next hsign =>
          apply hdigits
          rcases hsign.1 with rfl | rfl <;> decide
        · rwa [← heq]
    · rwa [← heq]
  · exact hself

theorem staysWithin_afterUnit : StaysWithin afterUnit := by
  intro stretch back hquiet hback
  unfold afterUnit
  split
  · next t heq =>
    obtain ⟨stretch, rfl, rfl⟩ := hback.eq_cons heq (by decide)
    exact (within_self stretch back).cons '%'
  · split
    · exact staysWithin_name stretch back hquiet hback
    · exact within_self stretch back

theorem staysWithin_afterNumber : StaysWithin afterNumber :=
  staysWithin_afterUnit.comp <| staysWithin_afterExponent.comp <|
    staysWithin_afterFraction.comp staysWithin_digits

/-! ## The tokens of a stretch -/

/-- A token that opens, closes and ends nothing, and is no comment. -/
def Token.isNeutral : Token → Bool
  | .comment _ | .function _ | .semicolon | .opening _ | .closing _ => false
  | _ => true

theorem Token.opens?_of_isNeutral {token : Token} (h : token.isNeutral = true) :
    token.opens? = none := by
  cases token with
  | function name => cases h
  | opening bracket => cases h
  | _ => rfl

theorem isNameChar_of_isNameStart {c : Char} (h : isNameStart c = true) :
    c = nul ∨ isNameChar c = true := by
  simp only [isNameStart, isNameChar, Char.isAlphanum, Bool.or_eq_true, beq_iff_eq] at h ⊢
  rcases h with ((h | h) | h) | h <;> simp [h]

/-- The first token of a quiet stretch is neutral and ends within it. -/
theorem lexFrom_quiet {c : Char} {stretch back : Text} (hc : isQuiet c = true)
    (hquiet : ∀ d ∈ stretch, isQuiet d = true) (hback : TokensEnd back) :
    (lexFrom c (stretch ++ back)).1.isNeutral = true ∧
      Within stretch back (lexFrom c (stretch ++ back)).2 := by
  have hself := within_self stretch back
  have hname := staysWithin_name stretch back hquiet hback
  have hnumber := staysWithin_afterNumber stretch back hquiet hback
  have hescape : c ≠ '\\' := ne_of_apply_ne isQuiet (hc.trans_ne (by decide))
  have hident : c = nul ∨ isNameChar c = true →
      (identLike (c :: (stretch ++ back))).1.isNeutral = true ∧
        Within stretch back (identLike (c :: (stretch ++ back))).2 := by
    intro hstart
    have hall : ∀ d ∈ c :: stretch, isQuiet d = true := List.forall_mem_cons.2 ⟨hc, hquiet⟩
    rw [← List.cons_append, identLike_quiet hall hback, List.cons_append,
      name_cons_snd _ hescape hstart]
    exact ⟨rfl, hname⟩
  unfold lexFrom
  split
  · exact ⟨rfl, staysWithin_dropWhile (by decide) stretch back hquiet hback⟩
  split
  · next hquote => rcases hquote with rfl | rfl <;> exact absurd hc (by decide)
  split
  · exact ⟨rfl, hnumber⟩
  split
  · next hstart => exact hident (isNameChar_of_isNameStart hstart)
  split
  · exact absurd rfl hescape
  · split
    · exact ⟨rfl, hname⟩
    · exact ⟨rfl, hself⟩
  · split
    · exact ⟨rfl, hname⟩
    · exact ⟨rfl, hself⟩
  · split
    · exact ⟨rfl, hnumber⟩
    · exact ⟨rfl, hself⟩
  · split
    · exact ⟨rfl, (staysWithin_afterUnit.comp (staysWithin_afterExponent.comp
        staysWithin_digits)) stretch back hquiet hback⟩
    · exact ⟨rfl, hself⟩
  · split
    · exact ⟨rfl, hnumber⟩
    · split
      · next t heq =>
        -- the arrow lies in the stretch, since what follows starts with none of its characters
        obtain ⟨stretch, rfl, hrest⟩ := hback.eq_cons heq (by decide)
        obtain ⟨stretch, rfl, rfl⟩ := hback.eq_cons hrest.symm (by decide)
        exact ⟨rfl, ((within_self stretch back).cons '>').cons '-'⟩
      · split
        · exact hident (Or.inr (by decide))
        · exact ⟨rfl, hself⟩
  · exact absurd hc (by decide)
  · next t heq _ _ _ _ =>
    obtain ⟨stretch, rfl, hdash⟩ := hback.eq_cons heq (by decide)
    obtain ⟨stretch, rfl, hlast⟩ := hback.eq_cons hdash.symm (by decide)
    obtain ⟨stretch, rfl, rfl⟩ := hback.eq_cons hlast.symm (by decide)
    exact ⟨rfl, (((within_self stretch back).cons '-').cons '-').cons '!'⟩
  · exact absurd hc (by decide)
  · exact absurd hc (by decide)
  · exact absurd hc (by decide)
  · exact absurd hc (by decide)
  · exact absurd hc (by decide)
  · exact absurd hc (by decide)
  · exact ⟨rfl, hself⟩
  · exact absurd hc (by decide)
  · exact ⟨rfl, hself⟩
  · exact ⟨rfl, hself⟩

/-! ## Passing over a stretch -/

/-- A text with a quiet stretch in front of something that ends tokens. -/
def QuietAhead (t : Text) : Prop :=
  ∃ stretch back, t = stretch ++ back ∧ (∀ c ∈ stretch, isQuiet c = true) ∧ TokensEnd back

theorem TokensEnd.quietAhead {t : Text} (h : TokensEnd t) : QuietAhead t :=
  ⟨[], t, rfl, by simp, h⟩

theorem QuietAhead.cons {c : Char} {t : Text} (h : QuietAhead t) (hc : isQuiet c = true) :
    QuietAhead (c :: t) := by
  obtain ⟨stretch, back, rfl, hquiet, hback⟩ := h
  exact ⟨c :: stretch, back, rfl, List.forall_mem_cons.2 ⟨hc, hquiet⟩, hback⟩

theorem lex_quiet {c : Char} {stretch back : Text} (hc : isQuiet c = true)
    (hquiet : ∀ d ∈ stretch, isQuiet d = true) (hback : TokensEnd back) :
    ∃ token left, lex (c :: (stretch ++ back)) = some (token, left ++ back) ∧
      token.isNeutral = true ∧ left <:+ stretch := by
  obtain ⟨hneutral, left, hleft, hrest⟩ := lexFrom_quiet hc hquiet hback
  refine ⟨(lexFrom c (stretch ++ back)).1, left, ?_, hneutral, hleft⟩
  rw [← hrest]
  rfl

/-- A reader of which nothing changes when a neutral token in front of a text is left out. -/
def SkipsNeutral {α : Type} (f : Text → α) : Prop :=
  ∀ (t rest : Text) (token : Token), lex t = some (token, rest) → token.isNeutral = true →
    t.head? ≠ some '}' → f t = f rest

/-- Quiet characters and complete strings. -/
inductive IsValue : Text → Prop
  | nil : IsValue []
  | char {c : Char} {value : Text} (hc : isQuiet c = true) (hvalue : IsValue value) :
      IsValue (c :: value)
  | string {quote : Char} {body value : Text} (hquote : quote = '"' ∨ quote = '\x27')
      (hbody : ∀ c ∈ body, c ≠ quote ∧ c ≠ '\\' ∧ isNewline c = false) (hvalue : IsValue value) :
      IsValue (quote :: body ++ quote :: value)

theorem IsValue.append {stretch value : Text} (hquiet : ∀ c ∈ stretch, isQuiet c = true)
    (h : IsValue value) : IsValue (stretch ++ value) := by
  induction stretch with
  | nil => exact h
  | cons c stretch ih =>
    obtain ⟨hc, hquiet⟩ := List.forall_mem_cons.1 hquiet
    exact .char hc (ih hquiet)

namespace SkipsNeutral

variable {α : Type} {f : Text → α} (hf : SkipsNeutral f)
include hf

/-- Such a reader passes over a quiet stretch, token by token. -/
theorem stretch {stretch back : Text} (hquiet : ∀ c ∈ stretch, isQuiet c = true)
    (hback : TokensEnd back) : f (stretch ++ back) = f back := by
  induction hlen : stretch.length using Nat.strongRecOn generalizing stretch with
  | _ n ih =>
    cases stretch with
    | nil => rfl
    | cons c stretch =>
      obtain ⟨hc, hstretch⟩ := List.forall_mem_cons.1 hquiet
      obtain ⟨token, left, hlex, hneutral, hleft⟩ := lex_quiet hc hstretch hback
      have hcurly : (c :: (stretch ++ back)).head? ≠ some '}' := by
        simpa using ne_of_apply_ne isQuiet (hc.trans_ne (by decide))
      have hshort : left.length < n := by
        have := hleft.length_le
        rw [← hlen, List.length_cons]
        omega
      rw [List.cons_append, hf _ _ _ hlex hneutral hcurly,
        ih left.length hshort (fun d hd => hstretch d (hleft.subset hd)) rfl]

/-- It passes over one quiet character, even one that is read as part of a longer token. -/
theorem char {c : Char} {t : Text} (hc : isQuiet c = true) (ht : QuietAhead t) :
    f (c :: t) = f t := by
  obtain ⟨stretch, back, rfl, hquiet, hback⟩ := ht
  rw [← List.cons_append, hf.stretch (List.forall_mem_cons.2 ⟨hc, hquiet⟩) hback,
    hf.stretch hquiet hback]

/-- It passes over a string without escapes and ends of lines. -/
theorem string {quote : Char} {body : Text} (hquote : quote = '"' ∨ quote = '\x27')
    (hbody : ∀ c ∈ body, c ≠ quote ∧ c ≠ '\\' ∧ isNewline c = false) (back : Text) :
    f (quote :: (body ++ quote :: back)) = f back := by
  have hread : quoted quote (body ++ quote :: back) = (.string, back) := by
    clear hf
    induction body with
    | nil => rw [List.nil_append, quoted, if_pos rfl]
    | cons c body ih =>
      obtain ⟨⟨hend, hescape, hline⟩, hbody⟩ := List.forall_mem_cons.1 hbody
      rw [List.cons_append, quoted, if_neg hend, if_neg (by simp [hline]), if_neg hescape,
        ih hbody]
  have hlex : lex (quote :: (body ++ quote :: back)) = some (.string, back) := by
    have hspace : isSpace quote = false := by rcases hquote with rfl | rfl <;> decide
    show some (lexFrom quote (body ++ quote :: back)) = _
    unfold lexFrom
    rw [hspace, if_neg (by decide), if_pos hquote, hread]
  refine hf _ _ _ hlex rfl ?_
  rcases hquote with rfl | rfl <;> simp

/-- So it passes over quiet characters and strings in any order. -/
theorem value {value back : Text} (h : IsValue value) (hback : TokensEnd back) :
    f (value ++ back) = f back := by
  have hall : f (value ++ back) = f back ∧ QuietAhead (value ++ back) := by
    induction h with
    | nil => exact ⟨rfl, hback.quietAhead⟩
    | @char c value hc _ ih => exact ⟨(hf.char hc ih.2).trans ih.1, ih.2.cons hc⟩
    | @string quote body value hquote hbody _ ih =>
      have htext : quote :: body ++ quote :: value ++ back =
          quote :: (body ++ quote :: (value ++ back)) := by simp
      rw [htext]
      refine ⟨(hf.string hquote hbody _).trans ih.1, TokensEnd.quietAhead ?_⟩
      rintro _ ⟨rfl⟩
      rcases hquote with rfl | rfl <;> rfl
  exact hall.1

end SkipsNeutral

/-- The search for a block passes over neutral tokens. -/
theorem skipsNeutral_findBlock? : SkipsNeutral fun t => findBlock? (.start t) := by
  intro t rest token hlex hneutral _
  exact findBlock?_skip hlex (Token.opens?_of_isNeutral hneutral)

/-- Skipping blocks passes over neutral tokens. -/
theorem skipsNeutral_skipBlocks (b : Bracket) (outer : List Bracket) :
    SkipsNeutral (skipBlocks (b :: outer)) := by
  intro t rest token hlex hneutral _
  have hopens := Token.opens?_of_isNeutral hneutral
  rw [skipBlocks_eq, hlex]
  cases token with
  | closing bracket => cases hneutral
  | _ => simp_all

/-- A value goes on over neutral tokens. -/
theorem skipsNeutral_readChunks (chunk : Text) :
    SkipsNeutral fun t => readChunks chunk (.start t) := by
  intro t rest token hlex hneutral hcurly
  show readChunks chunk (.start t) = readChunks chunk (.start rest)
  rw [readChunks_eq, Cursor.nextInBlock?_start hlex (Token.opens?_of_isNeutral hneutral) hcurly]
  cases token with
  | comment body => cases hneutral
  | semicolon => cases hneutral
  | _ => rfl

end Scaffold.Css
