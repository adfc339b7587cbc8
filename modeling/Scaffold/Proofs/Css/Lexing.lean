import Scaffold.Proofs.Css.Reading

/-!
# What stands behind a token does not matter

A token is told from the characters it consists of and from a few behind it.  Where a semicolon or
a curly bracket follows that is not part of the token, reading has not gone past that character, so
the token is the same whatever is written behind it (`lex_append`).

Each reader of the lexer gets its lemma: if what it leaves ends in such a character (`Stops`), it
leaves the same with more behind it.
-/

namespace Scaffold.Css

open Scaffold.Text

/-! ## Characters at which reading stops -/

/-- A character that is a token of its own wherever a token starts with it, and that no reader
looks behind. -/
def isStop (c : Char) : Bool :=
  c == ';' || c == '{' || c == '}'

/-- A text that ends in a character at which reading stops. -/
def Stops (t : Text) : Prop :=
  ∃ front c, t = front ++ [c] ∧ isStop c = true

theorem stops_singleton {c : Char} : Stops [c] ↔ isStop c = true := by
  constructor
  · rintro ⟨front, d, heq, hd⟩
    cases front with
    | nil =>
      obtain rfl : c = d := by simpa using heq
      exact hd
    | cons e front => simp at heq
  · intro hc
    exact ⟨[], c, rfl, hc⟩

theorem not_stops_nil : ¬ Stops [] := by
  rintro ⟨front, c, heq, -⟩
  simp at heq

theorem Stops.ne_nil {t : Text} (h : Stops t) : t ≠ [] := by
  rintro rfl
  exact not_stops_nil h

/-- A text with a stop at its end still has it there with more in front. -/
theorem Stops.of_suffix {s t : Text} (h : Stops s) (hsuffix : s <:+ t) : Stops t := by
  obtain ⟨front, c, rfl, hc⟩ := h
  obtain ⟨before, rfl⟩ := hsuffix
  exact ⟨before ++ front, c, by simp, hc⟩

theorem Stops.cons {t : Text} (h : Stops t) (c : Char) : Stops (c :: t) :=
  h.of_suffix (List.suffix_cons c t)

theorem stops_cons_cons {c d : Char} {t : Text} : Stops (c :: d :: t) ↔ Stops (d :: t) := by
  constructor
  · rintro ⟨front, e, heq, he⟩
    cases front with
    | nil => simp at heq
    | cons f front =>
      obtain ⟨-, heq⟩ := List.cons.inj heq
      exact ⟨front, e, heq, he⟩
  · intro h
    exact h.cons c

/-- Behind a character at which reading does not stop there is another one. -/
theorem Stops.exists_cons {c : Char} {t : Text} (h : Stops (c :: t)) (hc : isStop c = false) :
    ∃ d u, t = d :: u ∧ Stops (d :: u) := by
  cases t with
  | nil =>
    rw [stops_singleton, hc] at h
    cases h
  | cons d u => exact ⟨d, u, rfl, stops_cons_cons.1 h⟩

/-- A word without such characters in it is not cut in two by the end of the text. -/
theorem Stops.eq_append {t back rest : Text} (h : Stops t) (word : Text)
    (hword : word.any isStop = false) (heq : t ++ back = word ++ rest) :
    ∃ u, t = word ++ u ∧ rest = u ++ back := by
  induction word generalizing t with
  | nil => exact ⟨t, rfl, heq.symm⟩
  | cons c word ih =>
    rw [List.any_cons, Bool.or_eq_false_iff] at hword
    cases t with
    | nil => exact absurd h not_stops_nil
    | cons d t =>
      obtain ⟨rfl, htail⟩ := List.cons.inj heq
      obtain ⟨e, v, rfl, hstops⟩ := h.exists_cons hword.1
      obtain ⟨u, htext, hrest⟩ := ih hstops hword.2 htail
      exact ⟨u, by rw [htext, List.cons_append], hrest⟩

/-! ## Looking at the front of a text -/

theorem startsNewline_eq_any (t : Text) : startsNewline t = t.head?.any isNewline := by
  cases t <;> rfl

theorem startsDigit_eq_any (t : Text) : startsDigit t = t.head?.any Char.isDigit := by
  cases t <;> rfl

theorem startsNewline_append {t : Text} (h : t ≠ []) (back : Text) :
    startsNewline (t ++ back) = startsNewline t := by
  rw [startsNewline_eq_any, startsNewline_eq_any, List.head?_append_of_ne_nil _ h]

theorem startsDigit_append {t : Text} (h : t ≠ []) (back : Text) :
    startsDigit (t ++ back) = startsDigit t := by
  rw [startsDigit_eq_any, startsDigit_eq_any, List.head?_append_of_ne_nil _ h]

/-- Whether a number starts is seen in front of a stop. -/
theorem startsNumber_append {t : Text} (h : Stops t) (back : Text) :
    startsNumber (t ++ back) = startsNumber t := by
  unfold startsNumber
  split
  · next u heq =>
    cases t with
    | nil => exact absurd h not_stops_nil
    | cons c t =>
      obtain ⟨rfl, rfl⟩ := List.cons.inj heq
      obtain ⟨d, v, rfl, -⟩ := h.exists_cons (by decide)
      rfl
  · next hdot =>
    cases t with
    | nil => exact absurd h not_stops_nil
    | cons c t =>
      split
      · next u heq =>
        obtain ⟨rfl, rfl⟩ := List.cons.inj heq
        exact absurd rfl (hdot (t ++ back))
      · rfl

/-- Whether a name starts is seen in front of a stop. -/
theorem startsIdent_append {t : Text} (h : Stops t) (back : Text) :
    startsIdent (t ++ back) = startsIdent t := by
  cases t with
  | nil => exact absurd h not_stops_nil
  | cons c t =>
    by_cases hdash : c = '-'
    · subst hdash
      obtain ⟨d, u, rfl, -⟩ := h.exists_cons (by decide)
      rfl
    · by_cases hescape : c = '\\'
      · subst hescape
        obtain ⟨d, u, rfl, -⟩ := h.exists_cons (by decide)
        rfl
      · rw [List.cons_append, startsIdent, startsIdent] <;> simp_all

/-- A stretch that ends within a text ends at the same place with more behind the text. -/
theorem dropWhile_append_of_ne_nil {p : Char → Bool} {t : Text} (h : t.dropWhile p ≠ [])
    (back : Text) : (t ++ back).dropWhile p = t.dropWhile p ++ back := by
  rw [List.dropWhile_append, if_neg (by simpa using h)]

/-! ## Escapes and names -/

theorem dropSpace_append {t : Text} (h : dropSpace t ≠ []) (back : Text) :
    dropSpace (t ++ back) = dropSpace t ++ back := by
  cases t with
  | nil => exact absurd rfl h
  | cons c t =>
    cases t with
    | nil =>
      have hspace : isSpace c = false := by
        rw [Bool.eq_false_iff]
        intro hc
        apply h
        rw [dropSpace, if_pos hc]
        simp
      have hreturn : c ≠ '\r' := by
        rintro rfl
        exact absurd hspace (by decide)
      have hkept : ∀ u, dropSpace (c :: u) = c :: u := by
        intro u
        rw [dropSpace, if_neg (by simp [hspace])]
        intro v heq
        exact absurd heq hreturn
      rw [hkept, List.cons_append, hkept]
    | cons d t =>
      -- a carriage return and a line feed count as one blank
      by_cases hline : c = '\r' ∧ d = '\n'
      · obtain ⟨rfl, rfl⟩ := hline
        rfl
      · have hone : ∀ u, dropSpace (c :: d :: u) = if isSpace c then d :: u else c :: d :: u := by
          intro u
          rw [dropSpace]
          rintro v rfl heq
          exact hline ⟨rfl, (List.cons.inj heq).1⟩
        rw [hone, List.cons_append, List.cons_append, hone]
        split <;> rfl

/-- What is taken of the first characters is the same with more behind them, if it is not all. -/
theorem takeWhile_take_append {p : Char → Bool} {n : Nat} {t : Text}
    (h : ((t.take n).takeWhile p).length < t.length) (back : Text) :
    ((t ++ back).take n).takeWhile p = (t.take n).takeWhile p := by
  induction t generalizing n with
  | nil => simp at h
  | cons c t ih =>
    cases n with
    | zero => rfl
    | succ n =>
      rw [List.cons_append, List.take_succ_cons, List.take_succ_cons]
      by_cases hc : p c = true
      · rw [List.take_succ_cons, List.takeWhile_cons_of_pos hc, List.length_cons,
          List.length_cons] at h
        rw [List.takeWhile_cons_of_pos hc, List.takeWhile_cons_of_pos hc, ih (by omega)]
      · rw [List.takeWhile_cons_of_neg hc, List.takeWhile_cons_of_neg hc]

/-- An escape that ends within a text is read the same with more behind it. -/
theorem escape_append {t : Text} (h : (escape t).2 ≠ []) (back : Text) :
    escape (t ++ back) = ((escape t).1, (escape t).2 ++ back) := by
  cases t with
  | nil => exact absurd rfl h
  | cons c t =>
    rw [List.cons_append]
    unfold escape at h ⊢
    by_cases hhex : isHexDigit c = true
    · simp only [hhex, if_true] at h ⊢
      have hlength : (((c :: t).take 6).takeWhile isHexDigit).length < (c :: t).length := by
        apply Nat.lt_of_not_le
        intro hle
        apply h
        rw [List.drop_eq_nil_of_le hle]
        rfl
      rw [← List.cons_append, takeWhile_take_append hlength,
        List.drop_append_of_le_length (Nat.le_of_lt hlength), dropSpace_append h]
    · simp only [hhex]
      by_cases hnul : c = nul
      · simp [hnul]
      · simp [hnul]

/-- A name that leaves a stop is read the same with more behind it; so it is with all the readers
below. -/
theorem name_append_of_stops {t : Text} (h : Stops (name t).2) (back : Text) :
    name (t ++ back) = ((name t).1, (name t).2 ++ back) := by
  fun_induction name t with
  | case1 => exact absurd h not_stops_nil
  | case2 t hline =>
    have hne : t ≠ [] := by
      rintro rfl
      cases hline
    rw [List.cons_append, name, if_pos rfl, startsNewline_append hne, if_pos hline]
  | case3 t hline ih =>
    have hrest : Stops (escape t).2 := h.of_suffix (name_suffix _)
    have hne : t ≠ [] := (hrest.of_suffix (escape_suffix t)).ne_nil
    rw [List.cons_append, name, if_pos rfl, startsNewline_append hne, if_neg hline,
      escape_append hrest.ne_nil, ih h]
    rfl
  | case4 t hescape ih =>
    rw [List.cons_append, name, if_neg hescape, if_pos rfl, ih h]
    rfl
  | case5 c t hescape hnul hname ih =>
    rw [List.cons_append, name, if_neg hescape, if_neg hnul, if_pos hname, ih h]
    rfl
  | case6 c t hescape hnul hname =>
    rw [List.cons_append, name, if_neg hescape, if_neg hnul, if_neg hname]

/-! ## Comments, strings, addresses -/

theorem comment_append_of_stops {t : Text} (h : Stops (comment t).2) (back : Text) :
    comment (t ++ back) = ((comment t).1, (comment t).2 ++ back) := by
  fun_induction comment t with
  | case1 => exact absurd h not_stops_nil
  | case2 t => simp [comment]
  | case3 c t hend ih =>
    have hne : t ≠ [] := (Stops.of_suffix h (comment_suffix t)).ne_nil
    rw [List.cons_append, comment, ih h]
    · rfl
    · intro u hc heq
      cases t with
      | nil => exact hne rfl
      | cons d t =>
        obtain ⟨rfl, -⟩ := List.cons.inj heq
        exact hend t hc rfl

theorem quoted_append_of_stops {quote : Char} {t : Text} (h : Stops (quoted quote t).2)
    (back : Text) :
    quoted quote (t ++ back) = ((quoted quote t).1, (quoted quote t).2 ++ back) := by
  fun_induction quoted quote t with
  | case1 => exact absurd h not_stops_nil
  | case2 t => rw [List.cons_append, quoted, if_pos rfl]
  | case3 c t hquote hline => rw [List.cons_append, quoted, if_neg hquote, if_pos hline]
  | case4 t hnewline hquote hline ih =>
    have hrest : Stops (dropSpace t) := h.of_suffix (quoted_suffix _ _)
    have hne : t ≠ [] := (hrest.of_suffix (dropSpace_suffix t)).ne_nil
    rw [List.cons_append, quoted, if_neg hquote, if_neg hline, if_pos rfl,
      startsNewline_append hne, if_pos hnewline, dropSpace_append hrest.ne_nil, ih h]
  | case5 t hnewline hquote hline ih =>
    have hrest : Stops (escape t).2 := h.of_suffix (quoted_suffix _ _)
    have hne : t ≠ [] := (hrest.of_suffix (escape_suffix t)).ne_nil
    rw [List.cons_append, quoted, if_neg hquote, if_neg hline, if_pos rfl,
      startsNewline_append hne, if_neg hnewline, escape_append hrest.ne_nil, ih h]
  | case6 c t hquote hline hescape ih =>
    rw [List.cons_append, quoted, if_neg hquote, if_neg hline, if_neg hescape, ih h]

theorem afterBadUrl_append {t : Text} (h : Stops (afterBadUrl t)) (back : Text) :
    afterBadUrl (t ++ back) = afterBadUrl t ++ back := by
  fun_induction afterBadUrl t with
  | case1 => exact absurd h not_stops_nil
  | case2 t => simp [afterBadUrl]
  | case3 t ih => simp only [List.cons_append, afterBadUrl, ih h]
  | case4 t ih => simp only [List.cons_append, afterBadUrl, ih h]
  | case5 c t hclose hbracket hescape ih =>
    have hne : t ≠ [] := (Stops.of_suffix h (afterBadUrl_suffix t)).ne_nil
    obtain ⟨d, u, rfl⟩ := List.exists_cons_of_ne_nil hne
    rw [List.cons_append, afterBadUrl, ih h]
    · exact hclose
    · intro v hc heq
      exact hbracket u hc (by rw [(List.cons.inj heq).1])
    · intro v hc heq
      exact hescape u hc (by rw [(List.cons.inj heq).1])

/-- An address ends at its closing bracket, blanks in front of it or not. -/
theorem urlEnd_close {t u : Text} (h : t.dropWhile isSpace = ')' :: u) :
    urlEnd t = (.url, u) := by
  rw [urlEnd, h]
  rfl

/-- Anything but the closing bracket behind the blanks spoils an address. -/
theorem urlEnd_bad {c : Char} {t u : Text} (h : t.dropWhile isSpace = c :: u) (hc : c ≠ ')') :
    urlEnd t = (.badUrl, afterBadUrl u) := by
  rw [urlEnd, h]
  split <;> simp_all

theorem urlEnd_append {t : Text} (h : Stops (urlEnd t).2) (back : Text) :
    urlEnd (t ++ back) = ((urlEnd t).1, (urlEnd t).2 ++ back) := by
  have hne : t.dropWhile isSpace ≠ [] := by
    intro hnil
    rw [urlEnd, hnil] at h
    exact not_stops_nil h
  obtain ⟨c, u, heq⟩ := List.exists_cons_of_ne_nil hne
  have hback : (t ++ back).dropWhile isSpace = c :: (u ++ back) := by
    rw [dropWhile_append_of_ne_nil hne, heq, List.cons_append]
  by_cases hclose : c = ')'
  · subst hclose
    rw [urlEnd_close heq, urlEnd_close hback]
  · rw [urlEnd_bad heq hclose] at h ⊢
    rw [urlEnd_bad hback hclose, afterBadUrl_append h]

theorem urlBody_append {t : Text} (h : Stops (urlBody t).2) (back : Text) :
    urlBody (t ++ back) = ((urlBody t).1, (urlBody t).2 ++ back) := by
  fun_induction urlBody t with
  | case1 => exact absurd h not_stops_nil
  | case2 c t hspace => rw [List.cons_append, urlBody, if_pos hspace, ← urlEnd_append h]; rfl
  | case3 t hspace => rw [List.cons_append, urlBody, if_neg hspace, if_pos rfl]
  | case4 c t hspace hclose hspoils =>
    rw [List.cons_append, urlBody, if_neg hspace, if_neg hclose, if_pos hspoils,
      afterBadUrl_append h]
  | case5 t hnewline hspace hclose hspoils =>
    have hne : t ≠ [] := by
      rintro rfl
      cases hnewline
    rw [List.cons_append, urlBody, if_neg hspace, if_neg hclose, if_neg hspoils, if_pos rfl,
      startsNewline_append hne, if_pos hnewline, afterBadUrl_append h]
  | case6 t hnewline hspace hclose hspoils ih =>
    have hrest : Stops (escape t).2 := h.of_suffix (urlBody_suffix _)
    have hne : t ≠ [] := (hrest.of_suffix (escape_suffix t)).ne_nil
    rw [List.cons_append, urlBody, if_neg hspace, if_neg hclose, if_neg hspoils, if_pos rfl,
      startsNewline_append hne, if_neg hnewline, escape_append hrest.ne_nil, ih h]
  | case7 c t hspace hclose hspoils hescape ih =>
    rw [List.cons_append, urlBody, if_neg hspace, if_neg hclose, if_neg hspoils, if_neg hescape,
      ih h]

theorem url_append {functionName t : Text} (h : Stops (url functionName t).2) (back : Text) :
    url functionName (t ++ back) = ((url functionName t).1, (url functionName t).2 ++ back) := by
  have hne : t.dropWhile isSpace ≠ [] := by
    intro hnil
    rw [url, hnil] at h
    exact not_stops_nil h
  rw [url, dropWhile_append_of_ne_nil hne]
  unfold url at h ⊢
  obtain ⟨c, u, heq⟩ := List.exists_cons_of_ne_nil hne
  rw [heq] at h ⊢
  dsimp only [List.cons_append] at h ⊢
  split
  · rfl
  · next hquote =>
    rw [if_neg hquote] at h
    exact urlBody_append h back

/-- A name with a bracket behind it is a function, or an address if it says so. -/
theorem identLike_bracket {t n u : Text} (h : name t = (n, '(' :: u)) :
    identLike t = if lower n = "url".toList then url n u else (.function n, u) := by
  rw [identLike, h]
  rfl

/-- A name without a bracket behind it is just a name. -/
theorem identLike_of_head {t n rest : Text} (h : name t = (n, rest))
    (hhead : rest.head? ≠ some '(') : identLike t = (.ident n, rest) := by
  unfold identLike
  split
  · next heq =>
    rw [h] at heq
    obtain ⟨-, rfl⟩ := Prod.mk.inj heq
    exact absurd rfl hhead
  · next heq =>
    rw [h] at heq
    obtain ⟨rfl, rfl⟩ := Prod.mk.inj heq
    rfl

theorem identLike_append_of_stops {t : Text} (h : Stops (identLike t).2) (back : Text) :
    identLike (t ++ back) = ((identLike t).1, (identLike t).2 ++ back) := by
  cases hname : name t with
  | mk n rest =>
    have hback : Stops rest → name (t ++ back) = (n, rest ++ back) := by
      intro hrest
      rw [name_append_of_stops (by rwa [hname]), hname]
    by_cases hhead : rest.head? = some '('
    · obtain ⟨u, rfl⟩ := List.head?_eq_some_iff.1 hhead
      rw [identLike_bracket hname] at h ⊢
      have hu : Stops u := by
        split at h
        · exact h.of_suffix (url_suffix n u)
        · exact h
      rw [identLike_bracket (hback (hu.cons '('))]
      split
      · next hurl =>
        rw [if_pos hurl] at h
        exact url_append h back
      · rfl
    · rw [identLike_of_head hname hhead] at h ⊢
      apply identLike_of_head (hback h)
      obtain ⟨c, u, rfl⟩ := List.exists_cons_of_ne_nil h.ne_nil
      exact hhead

/-! ## Numbers -/

theorem afterFraction_append {t : Text} (h : Stops (afterFraction t)) (back : Text) :
    afterFraction (t ++ back) = afterFraction t ++ back := by
  cases t with
  | nil => exact absurd h not_stops_nil
  | cons c t =>
    by_cases hdot : c = '.'
    · subst hdot
      obtain ⟨d, u, rfl, -⟩ := (h.of_suffix (afterFraction_suffix _)).exists_cons (by decide)
      rw [afterFraction] at h
      rw [List.cons_append, List.cons_append, afterFraction, afterFraction]
      by_cases hdigit : d.isDigit = true
      · rw [if_pos hdigit] at h
        rw [if_pos hdigit, if_pos hdigit, dropWhile_append_of_ne_nil h.ne_nil]
      · rw [if_neg hdigit, if_neg hdigit, List.cons_append, List.cons_append]
    · have hkept : ∀ u, afterFraction (c :: u) = c :: u := by
        intro u
        rw [afterFraction]
        intro d v heq
        exact absurd (List.cons.inj heq).1 hdot
      rw [List.cons_append, hkept, hkept, List.cons_append]

theorem afterExponent_append {t : Text} (h : Stops (afterExponent t)) (back : Text) :
    afterExponent (t ++ back) = afterExponent t ++ back := by
  have hstops := h.of_suffix (afterExponent_suffix t)
  cases t with
  | nil => exact absurd h not_stops_nil
  | cons e t =>
    cases t with
    | nil =>
      rw [stops_singleton] at hstops
      have he : ¬ (e = 'e' ∨ e = 'E') := by
        rintro (rfl | rfl) <;> exact absurd hstops (by decide)
      cases back with
      | nil => rfl
      | cons d back =>
        show afterExponent (e :: d :: back) = e :: d :: back
        rw [afterExponent, if_neg he]
    | cons d u =>
      rw [afterExponent] at h
      rw [List.cons_append, List.cons_append, afterExponent, afterExponent]
      by_cases he : e = 'e' ∨ e = 'E'
      · rw [if_pos he] at h
        rw [if_pos he, if_pos he]
        by_cases hdigit : d.isDigit = true
        · rw [if_pos hdigit] at h
          rw [if_pos hdigit, if_pos hdigit, dropWhile_append_of_ne_nil h.ne_nil]
        · rw [if_neg hdigit] at h
          rw [if_neg hdigit, if_neg hdigit]
          -- a sign needs a digit behind it, and the text does not end there: a sign is no stop
          by_cases hsign : d = '+' ∨ d = '-'
          · have hd : isStop d = false := by rcases hsign with rfl | rfl <;> decide
            obtain ⟨f, v, rfl, -⟩ := (stops_cons_cons.1 hstops).exists_cons hd
            rw [startsDigit_append (List.cons_ne_nil f v)]
            split
            · next hnumber =>
              rw [if_pos hnumber] at h
              rw [dropWhile_append_of_ne_nil h.ne_nil]
            · rfl
          · rw [if_neg fun hand => hsign hand.1, if_neg fun hand => hsign hand.1]
            rfl
      · rw [if_neg he, if_neg he]
        rfl

theorem afterUnit_append {t : Text} (h : Stops (afterUnit t)) (back : Text) :
    afterUnit (t ++ back) = afterUnit t ++ back := by
  have hstops := h.of_suffix (afterUnit_suffix t)
  cases t with
  | nil => exact absurd h not_stops_nil
  | cons c t =>
    by_cases hpercent : c = '%'
    · subst hpercent
      rfl
    · have hunit : ∀ u, afterUnit (c :: u) = if startsIdent (c :: u) then (name (c :: u)).2
          else c :: u := by
        intro u
        rw [afterUnit]
        intro v heq
        exact absurd (List.cons.inj heq).1 hpercent
      rw [hunit] at h
      rw [List.cons_append, hunit, hunit, ← List.cons_append, startsIdent_append hstops]
      by_cases hident : startsIdent (c :: t) = true
      · rw [if_pos hident] at h
        rw [if_pos hident, if_pos hident, name_append_of_stops h]
      · rw [if_neg hident, if_neg hident]

/-- Behind digits, an exponent and a unit follow. -/
theorem afterUnit_afterExponent_append {t : Text} (h : Stops (afterUnit (afterExponent t)))
    (back : Text) :
    afterUnit (afterExponent (t ++ back)) = afterUnit (afterExponent t) ++ back := by
  rw [afterExponent_append (h.of_suffix (afterUnit_suffix _)), afterUnit_append h]

theorem afterNumber_append {t : Text} (h : Stops (afterNumber t)) (back : Text) :
    afterNumber (t ++ back) = afterNumber t ++ back := by
  unfold afterNumber at h ⊢
  have hfraction : Stops (afterFraction (t.dropWhile Char.isDigit)) :=
    (h.of_suffix (afterUnit_suffix _)).of_suffix (afterExponent_suffix _)
  have hdigits : Stops (t.dropWhile Char.isDigit) :=
    hfraction.of_suffix (afterFraction_suffix _)
  rw [dropWhile_append_of_ne_nil hdigits.ne_nil, afterFraction_append hfraction,
    afterUnit_afterExponent_append h]

/-! ## The next token -/

/-- Reading a token stops in front of the last character of a text, so that it is the same with
more behind it. -/
theorem lexFrom_append {c : Char} {t : Text} (h : Stops (lexFrom c t).2) (back : Text) :
    lexFrom c (t ++ back) = ((lexFrom c t).1, (lexFrom c t).2 ++ back) := by
  have hstops := h.of_suffix (lexFrom_suffix c t)
  unfold lexFrom at h ⊢
  by_cases hspace : isSpace c = true
  · simp only [if_pos hspace] at h ⊢
    rw [dropWhile_append_of_ne_nil h.ne_nil]
  by_cases hquote : c = '"' ∨ c = '\x27'
  · simp only [if_neg hspace, if_pos hquote] at h ⊢
    exact quoted_append_of_stops h back
  by_cases hdigit : c.isDigit = true
  · simp only [if_neg hspace, if_neg hquote, if_pos hdigit] at h ⊢
    rw [afterNumber_append h]
  by_cases hname : isNameStart c = true
  · simp only [if_neg hspace, if_neg hquote, if_neg hdigit, if_pos hname] at h ⊢
    exact identLike_append_of_stops h back
  simp only [if_neg hspace, if_neg hquote, if_neg hdigit, if_neg hname] at h ⊢
  -- marks that may start a longer token; what is asked about the rest is settled before the stop
  split at h
  · rw [startsNewline_append hstops.ne_nil]
    split
    · rfl
    · next hline =>
      rw [if_neg hline] at h
      exact identLike_append_of_stops h back
  · rw [startsIdent_append hstops, startsDigit_append hstops.ne_nil,
      List.head?_append_of_ne_nil _ hstops.ne_nil]
    split
    · next hhash =>
      rw [if_pos hhash] at h
      rw [name_append_of_stops h]
    · rfl
  · rw [startsIdent_append hstops]
    split
    · next hkeyword =>
      rw [if_pos hkeyword] at h
      rw [name_append_of_stops h]
    · rfl
  · rw [startsNumber_append hstops]
    split
    · next hnumber =>
      rw [if_pos hnumber] at h
      rw [afterNumber_append h]
    · rfl
  · rw [startsDigit_append hstops.ne_nil]
    split
    · next hnumber =>
      rw [if_pos hnumber] at h
      have hrest := (h.of_suffix (afterUnit_suffix _)).of_suffix (afterExponent_suffix _)
      rw [dropWhile_append_of_ne_nil hrest.ne_nil, afterUnit_afterExponent_append h]
    · rfl
  · rw [startsNumber_append hstops]
    split
    · next hnumber =>
      rw [if_pos hnumber] at h
      rw [afterNumber_append h]
    · next hnumber =>
      rw [if_neg hnumber] at h
      split at h
      · rfl
      · next hmark =>
        split
        · next heq =>
          obtain ⟨u, rfl, -⟩ := hstops.eq_append "->".toList (by decide) heq
          exact absurd rfl (hmark u)
        · rw [← List.cons_append, startsIdent_append (hstops.cons '-')]
          split
          · next hident =>
            rw [if_pos hident] at h
            exact identLike_append_of_stops h back
          · rfl
  · show (Token.comment (comment (_ ++ back)).1, (comment (_ ++ back)).2) = _
    rw [comment_append_of_stops h]
  · rfl
  -- brackets, colon, semicolon and comma stand alone
  iterate 9 rfl
  -- any other character, also a slash or a less-than sign that opens no comment
  · next hcomment hopen =>
    split
    case h_18 => rfl
    case h_7 =>
      obtain ⟨u, rfl, -⟩ := hstops.eq_append "*".toList (by decide) ‹_›
      exact absurd rfl (hcomment u rfl)
    case h_8 =>
      obtain ⟨u, rfl, -⟩ := hstops.eq_append "!--".toList (by decide) ‹_›
      exact absurd rfl (hopen u rfl)
    all_goals contradiction

/-- What stands behind the end of a token does not matter to it, if a character at which reading
stops comes between. -/
theorem lex_append {t rest : Text} {token : Token} (h : lex t = some (token, rest))
    (hrest : Stops rest) (back : Text) : lex (t ++ back) = some (token, rest ++ back) := by
  cases t with
  | nil => cases h
  | cons c t =>
    have hfrom : lexFrom c t = (token, rest) := Option.some.inj h
    show some (lexFrom c (t ++ back)) = _
    rw [lexFrom_append (by rwa [hfrom]), hfrom]

/-! ## Tokens of one character -/

/-- The character of a token that is always one character: a semicolon or a bracket. -/
def Token.mark? : Token → Option Char
  | .semicolon => some ';'
  | .opening .round => some '('
  | .opening .square => some '['
  | .opening .curly => some '{'
  | .closing .round => some ')'
  | .closing .square => some ']'
  | .closing .curly => some '}'
  | _ => none

theorem mark?_quoted (quote : Char) (t : Text) : (quoted quote t).1.mark? = none := by
  fun_induction quoted quote t with
  | case1 => rfl
  | case2 => rfl
  | case3 => rfl
  | case4 _ _ _ _ ih => exact ih
  | case5 _ _ _ _ ih => exact ih
  | case6 _ _ _ _ _ ih => exact ih

theorem mark?_urlBody (t : Text) : (urlBody t).1.mark? = none := by
  fun_induction urlBody t with
  | case1 => rfl
  | case2 c t _ =>
    unfold urlEnd
    split <;> rfl
  | case3 => rfl
  | case4 => rfl
  | case5 => rfl
  | case6 _ _ _ _ _ ih => exact ih
  | case7 _ _ _ _ _ _ ih => exact ih

/-- No name and no function is read as one character. -/
theorem mark?_identLike (t : Text) : (identLike t).1.mark? = none := by
  unfold identLike
  split
  · split
    · unfold url
      split
      · rfl
      · split
        · rfl
        · exact mark?_urlBody _
    · rfl
  · rfl

/-- A token of one character is that character, and all that was read. -/
theorem eq_of_mark?_lexFrom {c d : Char} {t : Text} (h : (lexFrom c t).1.mark? = some d) :
    lexFrom c t = ((lexFrom c t).1, t) ∧ c = d := by
  revert h
  unfold lexFrom
  split
  · simp [Token.mark?]
  split
  · simp [mark?_quoted]
  split
  · simp [Token.mark?]
  split
  · simp [mark?_identLike]
  split
  · split
    · simp [Token.mark?]
    · simp [mark?_identLike]
  iterate 4
    · split <;> simp [Token.mark?]
  · split
    · simp [Token.mark?]
    · split
      · simp [Token.mark?]
      · split
        · simp [mark?_identLike]
        · simp [Token.mark?]
  all_goals simp [Token.mark?]

/-- A semicolon or a bracket is read off a text that starts with its character. -/
theorem eq_cons_of_lex {t rest : Text} {token : Token} {c : Char}
    (h : lex t = some (token, rest)) (hmark : token.mark? = some c) : t = c :: rest := by
  cases t with
  | nil => cases h
  | cons d t =>
    have hfrom : lexFrom d t = (token, rest) := Option.some.inj h
    obtain ⟨htext, rfl⟩ := eq_of_mark?_lexFrom (c := d) (t := t) (by rw [hfrom]; exact hmark)
    rw [hfrom] at htext
    rw [(Prod.mk.inj htext).2]

end Scaffold.Css
