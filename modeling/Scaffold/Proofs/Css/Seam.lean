import Scaffold.Proofs.Css.Extension

/-!
# Where complete tokens meet what follows them

A text consists of complete tokens if a semicolon behind it is a token of its own (`EndsTokens`):
no comment, string, address or escape is left open at its end.  Such a text is read as the same
tokens in front of anything that starts with a semicolon or a curly bracket, and at the end of the
sheet (`EndsTokens.of_lex`).  The same holds if a space is put in between, except that the last
token may take it: whitespace goes on in it, and it ends an escape by number.  *Seams* are the texts
that may follow, and `Leaves` says what a reader in front of a seam leaves.

The readers of the lexer are taken one by one, as in `Css/Lexing`.  There the characters behind a
stop do not matter, here the stop itself does not.
-/

namespace Scaffold.Css

open Scaffold.Text

/-! ## Seams -/

theorem isStop_cases {c : Char} (h : isStop c = true) : c = ';' ∨ c = '{' ∨ c = '}' := by
  simpa [isStop, or_assoc] using h

/-- A text in front of which tokens end: it starts with a space or a stop, or is empty. -/
def Breaks (t : Text) : Prop :=
  ∀ c ∈ t.head?, c = ' ' ∨ isStop c = true

/-- What may stand behind complete tokens: a space or none, and then a stop or the end. -/
structure Seam (pad back : Text) : Prop where
  pad_eq : pad = [] ∨ pad = [' ']
  stops : ∀ c ∈ back.head?, isStop c = true

/-- Tokens end in front of a seam. -/
theorem Seam.breaks {pad back : Text} (h : Seam pad back) : Breaks (pad ++ back) := by
  intro c hc
  rcases h.pad_eq with rfl | rfl
  · exact Or.inr (h.stops c hc)
  · obtain rfl : ' ' = c := by simpa using hc
    exact Or.inl rfl

/-- A seam of which a reader may have taken the space. -/
theorem Seam.of_pad {pad pad' back : Text} (h : Seam pad back) {p : Prop}
    (hpad : pad' = pad ∨ p ∧ pad' = []) : Seam pad' back := by
  rcases hpad with rfl | ⟨-, rfl⟩
  · exact h
  · exact ⟨Or.inl rfl, h.stops⟩

theorem breaks_singleton {c : Char} (hc : isStop c = true) : Breaks [c] := by
  intro d hd
  obtain rfl : c = d := by simpa using hd
  exact Or.inr hc

/-- What is false of a space and of the stops is false of every character that a break starts
with. -/
theorem Breaks.false_of_head {p : Char → Bool} {t : Text} (h : Breaks t)
    (hp : [' ', ';', '{', '}'].any p = false) : ∀ c ∈ t.head?, p c = false := by
  intro c hc
  rw [Bool.eq_false_iff]
  apply List.any_eq_false.1 hp
  rcases h c hc with rfl | hstop
  · simp
  · rcases isStop_cases hstop with rfl | rfl | rfl <;> simp

/-- What a reader in front of a seam leaves is what it leaves of the text alone, with the seam; if
that is nothing, the space of the seam may be gone. -/
def Leaves {α : Type} (f : Text → α × Text) (t : Text) : Prop :=
  ∀ pad back, Seam pad back → ∃ pad', (pad' = pad ∨ (f t).2 = [] ∧ pad' = []) ∧
    f (t ++ (pad ++ back)) = ((f t).1, (f t).2 ++ (pad' ++ back))

/-- A reader does not take a stop that is written behind a text, with something or nothing behind
the stop. -/
def Spares {α : Type} (f : Text → α × Text) (t : Text) : Prop :=
  ∃ c back, isStop c = true ∧ back.length < (f (t ++ c :: back)).2.length

/-- A reader that takes every stop behind a text does not spare one. -/
theorem not_spares {α : Type} {f : Text → α × Text} {t : Text}
    (h : ∀ c back, isStop c = true → (f (t ++ c :: back)).2.length ≤ back.length) :
    ¬ Spares f t := by
  rintro ⟨c, back, hc, hlength⟩
  exact Nat.not_lt_of_le (h c back hc) hlength

theorem seam_nil : Seam [] [] :=
  ⟨Or.inl rfl, by simp⟩

theorem seam_stop {c : Char} (hc : isStop c = true) (back : Text) : Seam [] (c :: back) :=
  ⟨Or.inl rfl, by simpa using hc⟩

section Steps

variable {α β : Type} {f : Text → α × Text} {F : Text → β × Text} {t u : Text} {g : α → β}

/-- A reader that takes the same of a text whatever breaks behind it. -/
theorem leaves_of_append {x : α} (h : ∀ k, Breaks k → f (t ++ k) = (x, u ++ k)) : Leaves f t := by
  have hhere : f t = (x, u) := by simpa using h [] seam_nil.breaks
  intro pad back hseam
  refine ⟨pad, Or.inl rfl, ?_⟩
  rw [h _ hseam.breaks, hhere]

/-- A reader that goes on as another one does spares and leaves what that one does. -/
theorem Spares.leaves (h : Spares F t) (hleaves : Spares f u → Leaves f u)
    (hstep : ∀ pad back, Seam pad back →
      F (t ++ (pad ++ back)) = Prod.map g id (f (u ++ (pad ++ back)))) : Leaves F t := by
  have hspares : Spares f u := by
    obtain ⟨c, back, hc, h⟩ := h
    refine ⟨c, back, hc, ?_⟩
    rwa [← List.nil_append (c :: back), hstep [] (c :: back) (seam_stop hc back)] at h
  have hhere : F t = Prod.map g id (f u) := by
    simpa using hstep [] [] seam_nil
  intro pad back hseam
  obtain ⟨pad', hpad, heq⟩ := hleaves hspares pad back hseam
  refine ⟨pad', ?_, ?_⟩
  · rwa [hhere]
  · rw [hstep pad back hseam, heq, hhere]
    rfl

end Steps

/-! ## Looking at the front of a text -/

section Front

variable {k : Text} (hk : Breaks k) (t : Text)
include hk

/-- A question about the first character has the same answer with a break behind the text. -/
theorem any_head?_append_breaks {p : Char → Bool} (hp : [' ', ';', '{', '}'].any p = false) :
    (t ++ k).head?.any p = t.head?.any p := by
  cases t with
  | nil =>
    cases k with
    | nil => rfl
    | cons c k => exact hk.false_of_head hp c rfl
  | cons c t => rfl

theorem startsNewline_append_breaks : startsNewline (t ++ k) = startsNewline t := by
  rw [startsNewline_eq_any, startsNewline_eq_any, any_head?_append_breaks hk t (by decide)]

theorem startsDigit_append_breaks : startsDigit (t ++ k) = startsDigit t := by
  rw [startsDigit_eq_any, startsDigit_eq_any, any_head?_append_breaks hk t (by decide)]

/-- A character that ends no token stands at the front only if it does so in the text itself. -/
theorem head?_append_breaks {d : Char} (hd : [' ', ';', '{', '}'].any (· == d) = false) :
    (t ++ k).head? = some d ↔ t.head? = some d := by
  cases t with
  | nil =>
    simp only [List.nil_append, List.head?_nil, reduceCtorEq, iff_false]
    intro hhead
    have := hk.false_of_head hd d hhead
    simp at this
  | cons c t => rfl

/-- A character with which no break starts stands in the text in front. -/
theorem eq_cons_of_append_breaks {d : Char} {u : Text}
    (hd : [' ', ';', '{', '}'].any (· == d) = false) (h : t ++ k = d :: u) :
    ∃ v, t = d :: v ∧ u = v ++ k := by
  have hhead : t.head? = some d := (head?_append_breaks hk t hd).1 (by rw [h]; rfl)
  obtain ⟨v, rfl⟩ := List.head?_eq_some_iff.1 hhead
  exact ⟨v, rfl, (List.cons.inj h).2.symm⟩

/-- A word that no break starts in is not cut in two by the end of the text. -/
theorem prefix_of_append_breaks {word : Text}
    (hword : word.any (fun d => [' ', ';', '{', '}'].any (· == d)) = false)
    (h : word <+: t ++ k) : word <+: t := by
  induction word generalizing t with
  | nil => exact List.nil_prefix
  | cons d word ih =>
    rw [List.any_cons, Bool.or_eq_false_iff] at hword
    obtain ⟨hd, hword⟩ := hword
    obtain ⟨back, hback⟩ := h
    obtain ⟨v, rfl, hv⟩ := eq_cons_of_append_breaks hk t hd hback.symm
    exact List.cons_prefix_cons.2 ⟨rfl, ih v hword ⟨back, hv⟩⟩

/-- A stretch of characters that end no token goes no further than the text. -/
theorem dropWhile_append_breaks {p : Char → Bool} (hp : [' ', ';', '{', '}'].any p = false) :
    (t ++ k).dropWhile p = t.dropWhile p ++ k := by
  rw [List.dropWhile_append]
  split
  · next hnil =>
    rw [List.isEmpty_iff.1 hnil]
    cases k with
    | nil => rfl
    | cons c k =>
      rw [List.dropWhile_cons_of_neg (by simp [hk.false_of_head hp c rfl]), List.nil_append]
  · rfl

/-- Whether a number starts is seen in the text itself. -/
theorem startsNumber_append_breaks : startsNumber (t ++ k) = startsNumber t := by
  unfold startsNumber
  split
  · next u heq =>
    obtain ⟨v, rfl, rfl⟩ := eq_cons_of_append_breaks hk t (by decide) heq
    exact startsDigit_append_breaks hk v
  · next hdot =>
    split
    · exact absurd rfl (hdot _)
    · exact startsDigit_append_breaks hk t

/-- No name starts where the tokens end. -/
theorem startsIdent_of_breaks : startsIdent k = false := by
  cases k with
  | nil => rfl
  | cons c k =>
    have hdash := hk.false_of_head (p := (· == '-')) (by decide) c rfl
    have hescape := hk.false_of_head (p := (· == '\\')) (by decide) c rfl
    rw [beq_eq_false_iff_ne] at hdash hescape
    rw [startsIdent]
    · exact hk.false_of_head (p := isNameStart) (by decide) c rfl
    all_goals simp [hdash, hescape]

theorem startsIdent_append_breaks : startsIdent (t ++ k) = startsIdent t := by
  cases t with
  | nil => exact startsIdent_of_breaks hk
  | cons c t =>
    by_cases hdash : c = '-'
    · subst hdash
      cases t with
      | nil =>
        cases k with
        | nil => rfl
        | cons d k =>
          exact hk.false_of_head (p := fun d => isNameStart d || d == '-' || d == '\\') (by decide)
            d rfl
      | cons d t => rfl
    · by_cases hescape : c = '\\'
      · subst hescape
        show (!startsNewline (t ++ k)) = !startsNewline t
        rw [startsNewline_append_breaks hk]
      · rw [List.cons_append, startsIdent, startsIdent] <;> simp_all

theorem nameEnds_of_breaks : NameEnds k := by
  intro c hc
  have hescape := hk.false_of_head (p := (· == '\\')) (by decide) c hc
  have hnul := hk.false_of_head (p := (· == nul)) (by decide) c hc
  exact ⟨by simpa using hescape, by simpa using hnul,
    hk.false_of_head (p := isNameChar) (by decide) c hc⟩

end Front

/-! ## Escapes and names -/

theorem Seam.dropSpace {pad back : Text} (h : Seam pad back) : dropSpace (pad ++ back) = back := by
  have hback : Css.dropSpace back = back := by
    cases back with
    | nil => rfl
    | cons c back =>
      have hc := h.stops c rfl
      rcases isStop_cases hc with rfl | rfl | rfl <;> rfl
  rcases h.pad_eq with rfl | rfl
  · exact hback
  · rfl

theorem dropSpace_cons_breaks {c : Char} (hc : isSpace c = true) {k : Text} (hk : Breaks k) :
    dropSpace (c :: k) = k := by
  rw [dropSpace, if_pos hc]
  rintro t rfl rfl
  have := hk.false_of_head (p := isNewline) (by decide) '\n' rfl
  cases this

/-- The blank behind an escape is taken from the text, unless the text is at its end. -/
theorem dropSpace_append_breaks {t : Text} (ht : t ≠ []) {k : Text} (hk : Breaks k) :
    dropSpace (t ++ k) = dropSpace t ++ k := by
  by_cases hnil : dropSpace t = []
  · cases t with
    | nil => exact absurd rfl ht
    | cons c t =>
      rw [hnil]
      rw [dropSpace.eq_def] at hnil
      split at hnil
      · next u heq =>
        obtain ⟨rfl, rfl⟩ := List.cons.inj heq
        rw [hnil]
        rfl
      · next d u _ heq =>
        obtain ⟨rfl, rfl⟩ := List.cons.inj heq
        split at hnil
        · next hspace =>
          rw [hnil]
          exact dropSpace_cons_breaks hspace hk
        · cases hnil
      · next heq => cases heq
  · exact dropSpace_append hnil k

/-- At the end of a text the blank behind an escape may be the space of the seam. -/
theorem leaves_dropSpace {t pad back : Text} (h : Seam pad back) :
    ∃ pad', (pad' = pad ∨ dropSpace t = [] ∧ pad' = []) ∧
      dropSpace (t ++ (pad ++ back)) = dropSpace t ++ (pad' ++ back) := by
  by_cases ht : t = []
  · subst ht
    exact ⟨[], Or.inr ⟨rfl, rfl⟩, h.dropSpace⟩
  · exact ⟨pad, Or.inl rfl, dropSpace_append_breaks ht h.breaks⟩

theorem takeWhile_take_append_breaks {p : Char → Bool} (hp : [' ', ';', '{', '}'].any p = false)
    {k : Text} (hk : Breaks k) (n : Nat) (t : Text) :
    ((t ++ k).take n).takeWhile p = (t.take n).takeWhile p := by
  induction t generalizing n with
  | nil =>
    cases k with
    | nil => rfl
    | cons c k =>
      cases n with
      | zero => rfl
      | succ n =>
        rw [List.nil_append, List.take_succ_cons,
          List.takeWhile_cons_of_neg (by simp [hk.false_of_head hp c rfl])]
        rfl
  | cons c t ih =>
    cases n with
    | zero => rfl
    | succ n =>
      rw [List.cons_append, List.take_succ_cons, List.take_succ_cons]
      by_cases hc : p c = true
      · rw [List.takeWhile_cons_of_pos hc, List.takeWhile_cons_of_pos hc, ih]
      · rw [List.takeWhile_cons_of_neg hc, List.takeWhile_cons_of_neg hc]

/-- An escape leaves the seam, apart from its space. -/
theorem leaves_escape {t : Text} (ht : t ≠ []) : Leaves escape t := by
  cases t with
  | nil => exact absurd rfl ht
  | cons c t =>
    intro pad back hseam
    rw [List.cons_append]
    unfold escape
    by_cases hhex : isHexDigit c = true
    · have hlength : (((c :: t).take 6).takeWhile isHexDigit).length ≤ (c :: t).length :=
        ((List.takeWhile_sublist _).trans (List.take_sublist _ _)).length_le
      simp only [hhex, if_true]
      rw [← List.cons_append, takeWhile_take_append_breaks (by decide) hseam.breaks,
        List.drop_append_of_le_length hlength]
      obtain ⟨pad', hpad, hdrop⟩ := leaves_dropSpace
        (t := (c :: t).drop (((c :: t).take 6).takeWhile isHexDigit).length) hseam
      exact ⟨pad', hpad, by rw [hdrop]⟩
    · simp only [hhex]
      by_cases hnul : c = nul
      · exact ⟨pad, Or.inl rfl, by simp [hnul]⟩
      · exact ⟨pad, Or.inl rfl, by simp [hnul]⟩

/-- An escape takes the space of a seam or not, but never a stop. -/
theorem escape_append_stop {t : Text} (ht : t ≠ []) {c : Char} (hc : isStop c = true)
    (back : Text) : escape (t ++ c :: back) = ((escape t).1, (escape t).2 ++ c :: back) := by
  obtain ⟨pad', hpad, heq⟩ := leaves_escape ht [] (c :: back) (seam_stop hc back)
  obtain rfl : pad' = [] := by
    rcases hpad with hpad | ⟨-, hpad⟩ <;> exact hpad
  exact heq

/-- A reader that goes on behind an escape as another one does. -/
theorem Spares.leaves_of_escape {α β : Type} {f : Text → α × Text} {F : Text → β × Text} {t : Text}
    {g : Char → α → β} (h : Spares F ('\\' :: t)) (hsuffix : ∀ u, (f u).2 <:+ u)
    (hleaves : Spares f (escape t).2 → Leaves f (escape t).2)
    (hstep : ∀ pad back, Seam pad back → F ('\\' :: (t ++ (pad ++ back))) =
      Prod.map (g (escape (t ++ (pad ++ back))).1) id (f (escape (t ++ (pad ++ back))).2)) :
    Leaves F ('\\' :: t) := by
  obtain ⟨c, back, hc, h⟩ := h
  rw [List.cons_append, ← List.nil_append (c :: back), hstep [] (c :: back) (seam_stop hc back),
    List.nil_append] at h
  have ht : t ≠ [] := by
    rintro rfl
    have hescape : (escape ([] ++ c :: back)).2 = back := by
      rcases isStop_cases hc with rfl | rfl | rfl <;> rfl
    rw [hescape] at h
    exact Nat.not_lt_of_le (hsuffix back).length_le h
  have hspares : Spares f (escape t).2 := by
    refine ⟨c, back, hc, ?_⟩
    rwa [escape_append_stop ht hc] at h
  have hhere : F ('\\' :: t) = Prod.map (g (escape t).1) id (f (escape t).2) := by
    simpa using hstep [] [] seam_nil
  intro pad back hseam
  obtain ⟨pad', hpad, hescape⟩ := leaves_escape ht pad back hseam
  obtain ⟨pad'', hpad', hread⟩ := hleaves hspares pad' back (hseam.of_pad hpad)
  refine ⟨pad'', ?_, ?_⟩
  · rw [hhere]
    rcases hpad with rfl | ⟨hempty, rfl⟩
    · exact hpad'
    · -- the escape is all that there was, so nothing is left behind it either
      refine Or.inr ⟨?_, ?_⟩
      · rw [hempty]
        exact List.suffix_nil.1 (hsuffix [])
      · rcases hpad' with hpad' | ⟨-, hpad'⟩ <;> exact hpad'
  · rw [List.cons_append, hstep pad back hseam, hescape, hread, hhere]
    rfl

/-- A name leaves the seam, if it spares a stop; so do the other tokens below. -/
theorem leaves_name {t : Text} (h : Spares name t) : Leaves name t := by
  fun_induction name t with
  | case1 =>
    refine leaves_of_append (x := []) (u := []) fun k hk => ?_
    exact name_of_nameEnds (nameEnds_of_breaks hk)
  | case2 t hline =>
    refine leaves_of_append (x := []) (u := '\\' :: t) fun k hk => ?_
    rw [List.cons_append, name, if_pos rfl, startsNewline_append_breaks hk, if_pos hline]
  | case3 t hline ih =>
    have hstep : ∀ pad back, Seam pad back → name ('\\' :: (t ++ (pad ++ back))) =
        Prod.map ((escape (t ++ (pad ++ back))).1 :: ·) id
          (name (escape (t ++ (pad ++ back))).2) := by
      intro pad back hseam
      rw [name, if_pos rfl, startsNewline_append_breaks hseam.breaks, if_neg hline]
    exact h.leaves_of_escape name_suffix ih hstep
  | case4 t hescape ih =>
    have hstep : ∀ u, name (nul :: u) = Prod.map (replacement :: ·) id (name u) := by
      intro u
      rw [name, if_neg hescape, if_pos rfl]
    exact h.leaves ih fun pad back _ => hstep _
  | case5 c t hescape hnul hname ih =>
    have hstep : ∀ u, name (c :: u) = Prod.map (c :: ·) id (name u) := by
      intro u
      rw [name, if_neg hescape, if_neg hnul, if_pos hname]
    exact h.leaves ih fun pad back _ => hstep _
  | case6 c t hescape hnul hname =>
    refine leaves_of_append (x := []) (u := c :: t) fun k _ => ?_
    rw [List.cons_append, name, if_neg hescape, if_neg hnul, if_neg hname]

/-! ## Comments, strings, addresses -/

/-- A comment that spares a stop was closed before it. -/
theorem leaves_comment {t : Text} (h : Spares comment t) : Leaves comment t := by
  fun_induction comment t with
  | case1 =>
    refine absurd h (not_spares fun c back hc => ?_)
    have hstep : comment (c :: back) = Prod.map (c :: ·) id (comment back) := by
      rcases isStop_cases hc with rfl | rfl | rfl <;> simp [comment]
    rw [List.nil_append, hstep]
    exact (comment_suffix back).length_le
  | case2 t => exact leaves_of_append fun k _ => rfl
  | case3 c t hend ih =>
    have hstep : ∀ pad back, Seam pad back → comment (c :: (t ++ (pad ++ back))) =
        Prod.map (c :: ·) id (comment (t ++ (pad ++ back))) := by
      intro pad back hseam
      rw [comment]
      intro u hc heq
      obtain ⟨v, rfl, -⟩ := eq_cons_of_append_breaks hseam.breaks t (by decide) heq
      exact hend v hc rfl
    exact h.leaves ih hstep

/-- A string that spares a stop was closed before it. -/
theorem leaves_quoted {quote : Char} {t : Text} (h : Spares (quoted quote) t) :
    Leaves (quoted quote) t := by
  fun_induction quoted quote t with
  | case1 =>
    -- a string that is open at the end would take the stop
    refine absurd h (not_spares fun c back hc => ?_)
    have hline : isNewline c = false :=
      (breaks_singleton hc).false_of_head (p := isNewline) (by decide) c rfl
    have hescape := (breaks_singleton hc).false_of_head (p := (· == '\\')) (by decide) c rfl
    rw [beq_eq_false_iff_ne] at hescape
    rw [List.nil_append, quoted]
    by_cases hquote : c = quote
    · rw [if_pos hquote]
    · rw [if_neg hquote, if_neg (by simp [hline]), if_neg hescape]
      exact (quoted_suffix quote back).length_le
  | case2 t =>
    refine leaves_of_append (x := .string) (u := t) fun k _ => ?_
    rw [List.cons_append, quoted, if_pos rfl]
  | case3 c t hquote hline =>
    refine leaves_of_append (x := .badString) (u := c :: t) fun k _ => ?_
    rw [List.cons_append, quoted, if_neg hquote, if_pos hline]
  | case4 t hnewline hquote hline ih =>
    have ht : t ≠ [] := by
      rintro rfl
      cases hnewline
    have hstep : ∀ pad back, Seam pad back → quoted quote ('\\' :: (t ++ (pad ++ back))) =
        Prod.map id id (quoted quote (dropSpace t ++ (pad ++ back))) := by
      intro pad back hseam
      rw [quoted, if_neg hquote, if_neg hline, if_pos rfl,
        startsNewline_append_breaks hseam.breaks, if_pos hnewline,
        dropSpace_append_breaks ht hseam.breaks]
      rfl
    exact h.leaves ih hstep
  | case5 t hnewline hquote hline ih =>
    have hstep : ∀ pad back, Seam pad back → quoted quote ('\\' :: (t ++ (pad ++ back))) =
        Prod.map id id (quoted quote (escape (t ++ (pad ++ back))).2) := by
      intro pad back hseam
      rw [quoted, if_neg hquote, if_neg hline, if_pos rfl,
        startsNewline_append_breaks hseam.breaks, if_neg hnewline]
      rfl
    exact h.leaves_of_escape (g := fun _ token => token) (quoted_suffix quote) ih hstep
  | case6 c t hquote hline hescape ih =>
    have hstep : ∀ u, quoted quote (c :: u) = Prod.map id id (quoted quote u) := by
      intro u
      rw [quoted, if_neg hquote, if_neg hline, if_neg hescape]
      rfl
    exact h.leaves ih fun pad back _ => hstep _

/-- What is left behind an address that was spoiled, with the token that it is. -/
def badUrl (t : Text) : Token × Text :=
  (.badUrl, afterBadUrl t)

/-- A spoiled address that spares a stop was closed before it. -/
theorem leaves_badUrl {t : Text} (h : Spares badUrl t) : Leaves badUrl t := by
  fun_induction afterBadUrl t with
  | case1 =>
    refine absurd h (not_spares fun c back hc => ?_)
    have hstep : badUrl (c :: back) = badUrl back := by
      rcases isStop_cases hc with rfl | rfl | rfl <;> simp [badUrl, afterBadUrl]
    rw [List.nil_append, hstep]
    exact (afterBadUrl_suffix back).length_le
  | case2 t => exact leaves_of_append fun k _ => rfl
  | case3 t ih =>
    have hstep : ∀ u, badUrl ('\\' :: ')' :: u) = Prod.map id id (badUrl u) := by
      intro u
      rw [badUrl, afterBadUrl]
      rfl
    exact h.leaves ih fun pad back _ => hstep _
  | case4 t ih =>
    have hstep : ∀ u, badUrl ('\\' :: '\\' :: u) = Prod.map id id (badUrl u) := by
      intro u
      rw [badUrl, afterBadUrl]
      rfl
    exact h.leaves ih fun pad back _ => hstep _
  | case5 c t hclose hbracket hescape ih =>
    have hstep : ∀ pad back, Seam pad back → badUrl (c :: (t ++ (pad ++ back))) =
        Prod.map id id (badUrl (t ++ (pad ++ back))) := by
      intro pad back hseam
      rw [badUrl, afterBadUrl]
      · rfl
      · exact hclose
      · intro u hc heq
        obtain ⟨v, rfl, -⟩ := eq_cons_of_append_breaks hseam.breaks t (by decide) heq
        exact hbracket v hc rfl
      · intro u hc heq
        obtain ⟨v, rfl, -⟩ := eq_cons_of_append_breaks hseam.breaks t (by decide) heq
        exact hescape v hc rfl
    exact h.leaves ih hstep

theorem isSpace_of_isStop {c : Char} (hc : isStop c = true) : isSpace c = false := by
  rcases isStop_cases hc with rfl | rfl | rfl <;> rfl

/-- Whitespace goes on in the space of a seam. -/
theorem Seam.dropWhile_isSpace {pad back : Text} (h : Seam pad back) :
    (pad ++ back).dropWhile isSpace = back := by
  have hback : back.dropWhile isSpace = back := by
    cases back with
    | nil => rfl
    | cons c back =>
      exact List.dropWhile_cons_of_neg (by simp [isSpace_of_isStop (h.stops c rfl)])
  rcases h.pad_eq with rfl | rfl
  · exact hback
  · exact hback

/-- Where whitespace takes all of a text, a stop behind it is what comes next. -/
theorem dropWhile_isSpace_append_stop {t : Text} (ht : t.dropWhile isSpace = []) {c : Char}
    (hc : isStop c = true) (back : Text) : (t ++ c :: back).dropWhile isSpace = c :: back := by
  rw [List.dropWhile_append, ht]
  exact List.dropWhile_cons_of_neg (by simp [isSpace_of_isStop hc])

theorem leaves_urlEnd {t : Text} (h : Spares urlEnd t) : Leaves urlEnd t := by
  have hne : t.dropWhile isSpace ≠ [] := by
    intro hnil
    refine absurd h (not_spares fun c back hc => ?_)
    have hclose := (breaks_singleton hc).false_of_head (p := (· == ')')) (by decide) c rfl
    rw [beq_eq_false_iff_ne] at hclose
    rw [urlEnd_bad (dropWhile_isSpace_append_stop hnil hc back) hclose]
    exact (afterBadUrl_suffix back).length_le
  obtain ⟨c, u, heq⟩ := List.exists_cons_of_ne_nil hne
  have hback : ∀ k, (t ++ k).dropWhile isSpace = c :: (u ++ k) := by
    intro k
    rw [dropWhile_append_of_ne_nil hne, heq, List.cons_append]
  by_cases hclose : c = ')'
  · subst hclose
    exact leaves_of_append fun k _ => urlEnd_close (hback k)
  · have hstep : ∀ k, urlEnd (t ++ k) = Prod.map id id (badUrl (u ++ k)) := by
      intro k
      rw [urlEnd_bad (hback k) hclose]
      rfl
    exact h.leaves leaves_badUrl fun pad back _ => hstep _

/-- A stop is part of an address. -/
theorem urlBody_stop {c : Char} (hc : isStop c = true) (back : Text) :
    urlBody (c :: back) = urlBody back := by
  rw [urlBody]
  rcases isStop_cases hc with rfl | rfl | rfl <;> simp [isSpace, isNewline, spoilsUrl]

theorem leaves_urlBody {t : Text} (h : Spares urlBody t) : Leaves urlBody t := by
  fun_induction urlBody t with
  | case1 =>
    -- an address that is open at the end would take the stop
    refine absurd h (not_spares fun c back hc => ?_)
    rw [List.nil_append, urlBody_stop hc]
    exact (urlBody_suffix back).length_le
  | case2 c t hspace =>
    have hstep : ∀ k, urlBody (c :: t ++ k) = Prod.map id id (urlEnd (c :: t ++ k)) := by
      intro k
      rw [List.cons_append, urlBody, if_pos hspace]
      rfl
    exact h.leaves leaves_urlEnd fun pad back _ => hstep _
  | case3 t hspace =>
    refine leaves_of_append (x := .url) (u := t) fun k _ => ?_
    rw [List.cons_append, urlBody, if_neg hspace, if_pos rfl]
  | case4 c t hspace hclose hspoils =>
    have hstep : ∀ u, urlBody (c :: u) = Prod.map id id (badUrl u) := by
      intro u
      rw [urlBody, if_neg hspace, if_neg hclose, if_pos hspoils]
      rfl
    exact h.leaves leaves_badUrl fun pad back _ => hstep _
  | case5 t hnewline hspace hclose hspoils =>
    have hstep : ∀ pad back, Seam pad back → urlBody ('\\' :: (t ++ (pad ++ back))) =
        Prod.map id id (badUrl (t ++ (pad ++ back))) := by
      intro pad back hseam
      rw [urlBody, if_neg hspace, if_neg hclose, if_neg hspoils, if_pos rfl,
        startsNewline_append_breaks hseam.breaks, if_pos hnewline]
      rfl
    exact h.leaves leaves_badUrl hstep
  | case6 t hnewline hspace hclose hspoils ih =>
    have hstep : ∀ pad back, Seam pad back → urlBody ('\\' :: (t ++ (pad ++ back))) =
        Prod.map id id (urlBody (escape (t ++ (pad ++ back))).2) := by
      intro pad back hseam
      rw [urlBody, if_neg hspace, if_neg hclose, if_neg hspoils, if_pos rfl,
        startsNewline_append_breaks hseam.breaks, if_neg hnewline]
      rfl
    exact h.leaves_of_escape (g := fun _ token => token) urlBody_suffix ih hstep
  | case7 c t hspace hclose hspoils hescape ih =>
    have hstep : ∀ u, urlBody (c :: u) = Prod.map id id (urlBody u) := by
      intro u
      rw [urlBody, if_neg hspace, if_neg hclose, if_neg hspoils, if_neg hescape]
      rfl
    exact h.leaves ih fun pad back _ => hstep _

/-- An address in quotes is a function; any other is read up to its bracket. -/
theorem url_cons {functionName t u : Text} {c : Char} (h : t.dropWhile isSpace = c :: u) :
    url functionName t =
      if c = '"' ∨ c = '\x27' then (.function functionName, t) else urlBody (c :: u) := by
  rw [url, h]

theorem leaves_url {functionName t : Text} (h : Spares (url functionName) t) :
    Leaves (url functionName) t := by
  have hne : t.dropWhile isSpace ≠ [] := by
    intro hnil
    refine absurd h (not_spares fun c back hc => ?_)
    have hquote : ¬ (c = '"' ∨ c = '\x27') := by
      rcases isStop_cases hc with rfl | rfl | rfl <;> decide
    rw [url_cons (dropWhile_isSpace_append_stop hnil hc back), if_neg hquote, urlBody_stop hc]
    exact (urlBody_suffix back).length_le
  obtain ⟨c, u, heq⟩ := List.exists_cons_of_ne_nil hne
  have hback : ∀ k, (t ++ k).dropWhile isSpace = c :: (u ++ k) := by
    intro k
    rw [dropWhile_append_of_ne_nil hne, heq, List.cons_append]
  by_cases hquote : c = '"' ∨ c = '\x27'
  · refine leaves_of_append (x := .function functionName) (u := t) fun k _ => ?_
    rw [url_cons (hback k), if_pos hquote]
  · have hstep : ∀ k, url functionName (t ++ k) = Prod.map id id (urlBody (c :: u ++ k)) := by
      intro k
      rw [url_cons (hback k), if_neg hquote]
      rfl
    exact h.leaves leaves_urlBody fun pad back _ => hstep _

/-- An identifier-like token leaves nothing more than its name does. -/
theorem Spares.name {t : Text} (h : Spares identLike t) : Spares name t := by
  obtain ⟨c, back, hc, h⟩ := h
  exact ⟨c, back, hc, Nat.lt_of_lt_of_le h (identLike_suffix _).length_le⟩

/-- A name, a function or an address that spares a stop leaves the seam. -/
theorem leaves_identLike {t : Text} (h : Spares identLike t) : Leaves identLike t := by
  have hleaves := leaves_name h.name
  cases hname : name t with
  | mk n rest =>
    rw [Leaves, hname] at hleaves
    by_cases hhead : rest.head? = some '('
    · obtain ⟨u, rfl⟩ := List.head?_eq_some_iff.1 hhead
      -- a bracket follows the name, so that nothing of the seam is part of it
      have hback : ∀ pad back, Seam pad back →
          name (t ++ (pad ++ back)) = (n, '(' :: (u ++ (pad ++ back))) := by
        intro pad back hseam
        obtain ⟨pad', hpad, heq⟩ := hleaves pad back hseam
        obtain rfl : pad' = pad := by simpa using hpad
        exact heq
      by_cases hurl : lower n = "url".toList
      · have hstep : ∀ pad back, Seam pad back →
            identLike (t ++ (pad ++ back)) = Prod.map id id (url n (u ++ (pad ++ back))) := by
          intro pad back hseam
          rw [identLike_bracket (hback pad back hseam), if_pos hurl]
          rfl
        exact h.leaves leaves_url hstep
      · intro pad back hseam
        refine ⟨pad, Or.inl rfl, ?_⟩
        rw [identLike_bracket (hback pad back hseam), if_neg hurl, identLike_bracket hname,
          if_neg hurl]
    · intro pad back hseam
      obtain ⟨pad', hpad, heq⟩ := hleaves pad back hseam
      rw [identLike_of_head hname hhead]
      refine ⟨pad', hpad, identLike_of_head heq ?_⟩
      rwa [Ne, head?_append_breaks (hseam.of_pad hpad).breaks rest (by decide)]

/-! ## Numbers -/

theorem afterFraction_of_head {t : Text} (h : t.head? ≠ some '.') : afterFraction t = t := by
  rw [afterFraction]
  rintro d u rfl
  exact h rfl

theorem afterFraction_dot (t : Text) : afterFraction ('.' :: t) =
    if startsDigit t then t.dropWhile Char.isDigit else '.' :: t := by
  cases t with
  | nil => rfl
  | cons d t =>
    rw [afterFraction]
    by_cases hd : d.isDigit = true
    · rw [if_pos hd, if_pos (show startsDigit (d :: t) = true from hd),
        List.dropWhile_cons_of_pos hd]
    · rw [if_neg hd, if_neg (show ¬ startsDigit (d :: t) = true from hd)]

theorem afterExponent_of_head {t : Text} (h : ∀ c ∈ t.head?, ¬ (c = 'e' ∨ c = 'E')) :
    afterExponent t = t := by
  cases t with
  | nil => rfl
  | cons c t =>
    cases t with
    | nil => rfl
    | cons d t => rw [afterExponent, if_neg (h c rfl)]

theorem afterExponent_mark {c : Char} (h : c = 'e' ∨ c = 'E') (t : Text) :
    afterExponent (c :: t) =
      if startsDigit t then t.dropWhile Char.isDigit
      else if (t.head? = some '+' ∨ t.head? = some '-') ∧ startsDigit t.tail = true then
        t.tail.dropWhile Char.isDigit
      else c :: t := by
  cases t with
  | nil => rfl
  | cons d t =>
    rw [afterExponent, if_pos h]
    by_cases hd : d.isDigit = true
    · rw [if_pos hd, if_pos (show startsDigit (d :: t) = true from hd),
        List.dropWhile_cons_of_pos hd]
    · rw [if_neg hd, if_neg (show ¬ startsDigit (d :: t) = true from hd)]
      simp

/-- What is left behind the unit of a number: a percent sign, a name or nothing. -/
theorem afterUnit_eq (t : Text) : afterUnit t =
    if t.head? = some '%' then t.tail else if startsIdent t then (name t).2 else t := by
  cases t with
  | nil => rfl
  | cons c t =>
    by_cases hpercent : c = '%'
    · subst hpercent
      rfl
    · rw [afterUnit]
      · simp [hpercent]
      · intro u heq
        exact hpercent (List.cons.inj heq).1

section Numbers

variable {k : Text} (hk : Breaks k) (t : Text)
include hk

theorem digits_append_breaks :
    (t ++ k).dropWhile Char.isDigit = t.dropWhile Char.isDigit ++ k :=
  dropWhile_append_breaks hk t (by decide)

theorem afterFraction_append_breaks : afterFraction (t ++ k) = afterFraction t ++ k := by
  by_cases hdot : t.head? = some '.'
  · obtain ⟨u, rfl⟩ := List.head?_eq_some_iff.1 hdot
    rw [List.cons_append, afterFraction_dot, afterFraction_dot, startsDigit_append_breaks hk,
      digits_append_breaks hk]
    split <;> rfl
  · rw [afterFraction_of_head hdot, afterFraction_of_head]
    rwa [Ne, head?_append_breaks hk t (by decide)]

theorem afterExponent_append_breaks : afterExponent (t ++ k) = afterExponent t ++ k := by
  cases t with
  | nil =>
    rw [List.nil_append, afterExponent_of_head]
    · rfl
    · intro c hc
      have hmark := hk.false_of_head (p := fun c => c == 'e' || c == 'E') (by decide) c hc
      simpa using hmark
  | cons c t =>
    by_cases hmark : c = 'e' ∨ c = 'E'
    · rw [List.cons_append, afterExponent_mark hmark, afterExponent_mark hmark,
        startsDigit_append_breaks hk, digits_append_breaks hk]
      simp only [head?_append_breaks hk t (d := '+') (by decide),
        head?_append_breaks hk t (d := '-') (by decide)]
      by_cases hdigit : startsDigit t = true
      · rw [if_pos hdigit, if_pos hdigit]
      rw [if_neg hdigit, if_neg hdigit]
      cases t with
      | nil => rfl
      | cons d t =>
        rw [List.cons_append, List.tail_cons, List.tail_cons, startsDigit_append_breaks hk,
          digits_append_breaks hk]
        split <;> rfl
    · rw [afterExponent_of_head, afterExponent_of_head]
      all_goals
        intro d hd
        obtain rfl := Option.some.inj hd
        exact hmark

end Numbers

/-- The end of a number, read from behind its digits. -/
def quantity (t : Text) : Token × Text :=
  (.number, afterUnit t)

/-- The end of a number leaves the seam: only an escape in its unit may take the space. -/
theorem leaves_quantity {t : Text} (h : Spares quantity t) : Leaves quantity t := by
  by_cases hpercent : t.head? = some '%'
  · obtain ⟨u, rfl⟩ := List.head?_eq_some_iff.1 hpercent
    exact leaves_of_append fun k _ => rfl
  have hunit : ∀ k, Breaks k → quantity (t ++ k) =
      if startsIdent t then (.number, (name (t ++ k)).2) else (.number, t ++ k) := by
    intro k hk
    rw [quantity, afterUnit_eq, if_neg (by rwa [head?_append_breaks hk t (by decide)]),
      startsIdent_append_breaks hk]
    split <;> rfl
  by_cases hident : startsIdent t = true
  · have hstep : ∀ pad back, Seam pad back → quantity (t ++ (pad ++ back)) =
        Prod.map (fun _ => Token.number) id (name (t ++ (pad ++ back))) := by
      intro pad back hseam
      rw [hunit _ hseam.breaks, if_pos hident]
      rfl
    exact h.leaves leaves_name hstep
  · refine leaves_of_append (x := .number) (u := t) fun k hk => ?_
    rw [hunit k hk, if_neg hident]

/-! ## The next token -/

theorem lexFrom_space {c : Char} (hspace : isSpace c = true) (t : Text) :
    lexFrom c t = (.space, t.dropWhile isSpace) := by
  unfold lexFrom
  rw [if_pos hspace]

theorem lexFrom_quote {c : Char} (hquote : c = '"' ∨ c = '\x27') (t : Text) :
    lexFrom c t = quoted c t := by
  rcases hquote with rfl | rfl <;> rfl

/-- A token that starts with a character of no name, number, string or space is decided by that
character, except for the few that are looked behind. -/
theorem exists_lexFrom_eq {c : Char} (hspace : ¬ isSpace c = true)
    (hquote : ¬ (c = '"' ∨ c = '\x27')) (hdigit : ¬ c.isDigit = true)
    (hname : ¬ isNameStart c = true)
    (hmark : c ∉ ['\\', '#', '@', '+', '.', '-', '/', '<']) :
    ∃ token, ∀ t, lexFrom c t = (token, t) := by
  by_cases hsingle : c ∈ ['(', ')', '[', ']', '{', '}', ':', ';', ',']
  · simp only [List.mem_cons, List.not_mem_nil, or_false] at hsingle
    rcases hsingle with rfl | rfl | rfl | rfl | rfl | rfl | rfl | rfl | rfl <;>
      exact ⟨_, fun _ => rfl⟩
  · refine ⟨.delim c, fun t => ?_⟩
    unfold lexFrom
    simp only [if_neg hspace, if_neg hquote, if_neg hdigit, if_neg hname]
    split <;> simp_all

/-! A slash and a less-than sign that open no comment. -/

theorem lexFrom_slash {t : Text} (h : ¬ ['*'] <+: t) : lexFrom '/' t = (.delim '/', t) := by
  unfold lexFrom
  rw [if_neg (by decide), if_neg (by decide), if_neg (by decide), if_neg (by decide)]
  split <;> simp_all

theorem lexFrom_less {t : Text} (h : ¬ ['!', '-', '-'] <+: t) :
    lexFrom '<' t = (.delim '<', t) := by
  unfold lexFrom
  rw [if_neg (by decide), if_neg (by decide), if_neg (by decide), if_neg (by decide)]
  split <;> simp_all

section Marks

variable {t : Text}

theorem leaves_lexFrom_space {c : Char} (hspace : isSpace c = true) : Leaves (lexFrom c) t := by
  intro pad back hseam
  rw [lexFrom_space hspace, lexFrom_space hspace]
  by_cases hnil : t.dropWhile isSpace = []
  · -- the space of the seam goes on in the whitespace of the text
    refine ⟨[], Or.inr ⟨hnil, rfl⟩, ?_⟩
    rw [List.dropWhile_append, hnil]
    exact Prod.ext rfl hseam.dropWhile_isSpace
  · exact ⟨pad, Or.inl rfl, by rw [dropWhile_append_of_ne_nil hnil]⟩

/-- A number that is read as one in front of anything that ends it leaves the seam. -/
theorem leaves_lexFrom_number {c : Char} (h : Spares (lexFrom c) t)
    (hread : ∀ k, Breaks k → lexFrom c (t ++ k) = (.number, afterNumber (t ++ k))) :
    Leaves (lexFrom c) t := by
  have hstep : ∀ pad back, Seam pad back → lexFrom c (t ++ (pad ++ back)) =
      Prod.map id id (quantity
        (afterExponent (afterFraction (t.dropWhile Char.isDigit)) ++ (pad ++ back))) := by
    intro pad back hseam
    have hk := hseam.breaks
    rw [hread _ hk, afterNumber, digits_append_breaks hk, afterFraction_append_breaks hk,
      afterExponent_append_breaks hk]
    rfl
  exact h.leaves leaves_quantity hstep

theorem leaves_lexFrom_dot (h : Spares (lexFrom '.') t) : Leaves (lexFrom '.') t := by
  have hread : ∀ u, lexFrom '.' u = if startsDigit u then
      (.number, afterUnit (afterExponent (u.dropWhile Char.isDigit))) else (.delim '.', u) :=
    fun _ => rfl
  by_cases hdigit : startsDigit t = true
  · have hstep : ∀ pad back, Seam pad back → lexFrom '.' (t ++ (pad ++ back)) =
        Prod.map id id (quantity
          (afterExponent (t.dropWhile Char.isDigit) ++ (pad ++ back))) := by
      intro pad back hseam
      have hk := hseam.breaks
      rw [hread, startsDigit_append_breaks hk, if_pos hdigit, digits_append_breaks hk,
        afterExponent_append_breaks hk]
      rfl
    exact h.leaves leaves_quantity hstep
  · refine leaves_of_append (x := .delim '.') (u := t) fun k hk => ?_
    rw [hread, startsDigit_append_breaks hk, if_neg hdigit]

/-- A hash or an at sign, which a name may follow. -/
theorem leaves_lexFrom_name {c : Char} {p : Text → Bool} {token : Text → Token}
    (h : Spares (lexFrom c) t) (hp : ∀ k, Breaks k → p (t ++ k) = p t)
    (hread : ∀ u, lexFrom c u =
      if p u then (token (name u).1, (name u).2) else (.delim c, u)) :
    Leaves (lexFrom c) t := by
  by_cases hname : p t = true
  · have hstep : ∀ pad back, Seam pad back → lexFrom c (t ++ (pad ++ back)) =
        Prod.map token id (name (t ++ (pad ++ back))) := by
      intro pad back hseam
      rw [hread, hp _ hseam.breaks, if_pos hname]
      rfl
    exact h.leaves leaves_name hstep
  · refine leaves_of_append (x := .delim c) (u := t) fun k hk => ?_
    rw [hread, hp k hk, if_neg hname]

theorem leaves_lexFrom_escape (h : Spares (lexFrom '\\') t) : Leaves (lexFrom '\\') t := by
  have hread : ∀ u, lexFrom '\\' u =
      if startsNewline u then (.delim '\\', u) else identLike ('\\' :: u) := fun _ => rfl
  by_cases hline : startsNewline t = true
  · refine leaves_of_append (x := .delim '\\') (u := t) fun k hk => ?_
    rw [hread, startsNewline_append_breaks hk, if_pos hline]
  · have hstep : ∀ pad back, Seam pad back → lexFrom '\\' (t ++ (pad ++ back)) =
        Prod.map id id (identLike ('\\' :: t ++ (pad ++ back))) := by
      intro pad back hseam
      rw [hread, startsNewline_append_breaks hseam.breaks, if_neg hline]
      rfl
    exact h.leaves leaves_identLike hstep

theorem leaves_lexFrom_plus (h : Spares (lexFrom '+') t) : Leaves (lexFrom '+') t := by
  have hread : ∀ u, lexFrom '+' u =
      if startsNumber u then (.number, afterNumber u) else (.delim '+', u) := fun _ => rfl
  by_cases hnumber : startsNumber t = true
  · refine leaves_lexFrom_number h fun k hk => ?_
    rw [hread, startsNumber_append_breaks hk, if_pos hnumber]
  · refine leaves_of_append (x := .delim '+') (u := t) fun k hk => ?_
    rw [hread, startsNumber_append_breaks hk, if_neg hnumber]

theorem leaves_lexFrom_slash (h : Spares (lexFrom '/') t) : Leaves (lexFrom '/') t := by
  by_cases hstar : ['*'] <+: t
  · obtain ⟨u, rfl⟩ := hstar
    have hstep : ∀ v, lexFrom '/' ('*' :: v) = Prod.map Token.comment id (comment v) :=
      fun _ => rfl
    exact h.leaves leaves_comment fun pad back _ => hstep _
  · exact leaves_of_append fun k hk =>
      lexFrom_slash fun hprefix => hstar (prefix_of_append_breaks hk t (by decide) hprefix)

theorem leaves_lexFrom_less : Leaves (lexFrom '<') t := by
  by_cases hopen : ['!', '-', '-'] <+: t
  · obtain ⟨u, rfl⟩ := hopen
    exact leaves_of_append (x := .commentOpen) (u := u) fun k _ => rfl
  · exact leaves_of_append fun k hk =>
      lexFrom_less fun hprefix => hopen (prefix_of_append_breaks hk t (by decide) hprefix)

/-- A hyphen starts a number, a name or nothing, or closes a comment of another kind. -/
theorem leaves_lexFrom_dash (h : Spares (lexFrom '-') t) : Leaves (lexFrom '-') t := by
  by_cases hclose : ['-', '>'] <+: t
  · obtain ⟨u, rfl⟩ := hclose
    exact leaves_of_append (x := .commentClose) (u := u) fun k _ => rfl
  have hread : ∀ k, Breaks k → lexFrom '-' (t ++ k) =
      if startsNumber t then (.number, afterNumber (t ++ k))
      else if startsIdent ('-' :: t) then identLike ('-' :: t ++ k)
      else (.delim '-', t ++ k) := by
    intro k hk
    rw [lexFrom_dash fun hprefix => hclose (prefix_of_append_breaks hk t (by decide) hprefix),
      ← List.cons_append, startsNumber_append_breaks hk, startsIdent_append_breaks hk]
  by_cases hnumber : startsNumber t = true
  · refine leaves_lexFrom_number h fun k hk => ?_
    rw [hread k hk, if_pos hnumber]
  by_cases hident : startsIdent ('-' :: t) = true
  · have hstep : ∀ pad back, Seam pad back → lexFrom '-' (t ++ (pad ++ back)) =
        Prod.map id id (identLike ('-' :: t ++ (pad ++ back))) := by
      intro pad back hseam
      rw [hread _ hseam.breaks, if_neg hnumber, if_pos hident]
      rfl
    exact h.leaves leaves_identLike hstep
  · refine leaves_of_append (x := .delim '-') (u := t) fun k hk => ?_
    rw [hread k hk, if_neg hnumber, if_neg hident]

end Marks

/-- Every token that spares a stop leaves the seam, by the character with which it starts. -/
theorem leaves_lexFrom {c : Char} {t : Text} (h : Spares (lexFrom c) t) : Leaves (lexFrom c) t := by
  by_cases hspace : isSpace c = true
  · exact leaves_lexFrom_space hspace
  by_cases hquote : c = '"' ∨ c = '\x27'
  · exact h.leaves (f := quoted c) (u := t) (g := id) leaves_quoted fun pad back _ =>
      lexFrom_quote hquote _
  by_cases hdigit : c.isDigit = true
  · refine leaves_lexFrom_number h fun k _ => ?_
    unfold lexFrom
    rw [if_neg hspace, if_neg hquote, if_pos hdigit]
  by_cases hname : isNameStart c = true
  · have hstep : ∀ k, lexFrom c (t ++ k) = Prod.map id id (identLike (c :: t ++ k)) := by
      intro k
      unfold lexFrom
      rw [if_neg hspace, if_neg hquote, if_neg hdigit, if_pos hname]
      rfl
    exact h.leaves leaves_identLike fun pad back _ => hstep _
  by_cases hmark : c ∈ ['\\', '#', '@', '+', '.', '-', '/', '<']
  · simp only [List.mem_cons, List.not_mem_nil, or_false] at hmark
    rcases hmark with rfl | rfl | rfl | rfl | rfl | rfl | rfl | rfl
    · exact leaves_lexFrom_escape h
    · refine leaves_lexFrom_name h
        (p := fun u => startsIdent u || startsDigit u || u.head? == some '-') ?_ fun _ => rfl
      intro k hk
      simp only [startsIdent_append_breaks hk, startsDigit_append_breaks hk, beq_eq_decide,
        head?_append_breaks hk t (d := '-') (by decide)]
    · exact leaves_lexFrom_name h (fun k hk => startsIdent_append_breaks hk t) fun _ => rfl
    · exact leaves_lexFrom_plus h
    · exact leaves_lexFrom_dot h
    · exact leaves_lexFrom_dash h
    · exact leaves_lexFrom_slash h
    · exact leaves_lexFrom_less
  -- all other characters stand alone
  · obtain ⟨token, hread⟩ := exists_lexFrom_eq hspace hquote hdigit hname hmark
    exact leaves_of_append fun k _ => hread _

/-! ## Complete tokens -/

/-- A text of complete tokens: a semicolon behind it is no part of its last one. -/
def EndsTokens (t : Text) : Prop :=
  tokens (t ++ [';']) = tokens t ++ [.semicolon]

instance (t : Text) : Decidable (EndsTokens t) :=
  inferInstanceAs (Decidable (_ = _))

theorem endsTokens_nil : EndsTokens [] := by
  rw [EndsTokens, List.nil_append, tokens_of_lex (show lex [';'] = some (.semicolon, []) from rfl),
    tokens_nil]
  rfl

/-- Complete tokens are the same in front of a seam, and complete tokens are left behind the first
one. -/
theorem EndsTokens.of_lex {t rest : Text} {token : Token} (h : EndsTokens t)
    (hlex : lex t = some (token, rest)) :
    EndsTokens rest ∧ ∀ pad back, Seam pad back → ∃ pad', (pad' = pad ∨ rest = [] ∧ pad' = []) ∧
      lex (t ++ (pad ++ back)) = some (token, rest ++ (pad' ++ back)) := by
  cases t with
  | nil => cases hlex
  | cons c t =>
    have hfrom : lexFrom c t = (token, rest) := Option.some.inj hlex
    have hmore : tokens (lexFrom c (t ++ [';'])).2 = tokens rest ++ [.semicolon] := by
      have hcons := tokens_of_lex (show lex (c :: (t ++ [';'])) = some
        ((lexFrom c (t ++ [';'])).1, (lexFrom c (t ++ [';'])).2) from rfl)
      rw [← List.cons_append, h, tokens_of_lex hlex, List.cons_append] at hcons
      exact (List.cons.inj hcons).2.symm
    -- a token that took the semicolon would be the last one
    have hleaves : Leaves (lexFrom c) t := by
      refine leaves_lexFrom ⟨';', [], rfl, List.length_pos_iff.2 ?_⟩
      intro hnil
      rw [hnil, tokens_nil] at hmore
      exact absurd hmore.symm (by simp)
    rw [Leaves, hfrom] at hleaves
    refine ⟨?_, ?_⟩
    · obtain ⟨pad', hpad, heq⟩ := hleaves [] [';'] (seam_stop rfl [])
      obtain rfl : pad' = [] := by
        rcases hpad with hpad | ⟨-, hpad⟩ <;> exact hpad
      rw [List.nil_append] at heq
      rwa [heq] at hmore
    · intro pad back hseam
      obtain ⟨pad', hpad, heq⟩ := hleaves pad back hseam
      exact ⟨pad', hpad, congrArg some heq⟩

/-- All but the last of complete tokens leave a seam as it is. -/
theorem EndsTokens.lex_append {t rest : Text} {token : Token} (h : EndsTokens t)
    (hlex : lex t = some (token, rest)) (hrest : rest ≠ []) {pad back : Text}
    (hseam : Seam pad back) : lex (t ++ (pad ++ back)) = some (token, rest ++ (pad ++ back)) := by
  obtain ⟨pad', hpad, heq⟩ := (h.of_lex hlex).2 pad back hseam
  obtain rfl : pad' = pad := hpad.resolve_right fun hnil => hrest hnil.1
  exact heq

theorem ne_nil_of_closes {b : Bracket} {outer : List Bracket} {t : Text}
    (h : Closes (b :: outer) (tokens t)) : t ≠ [] := by
  rintro rfl
  rw [tokens_nil] at h
  exact not_closes_nil b outer h

/-- A token of one character is read off its character. -/
theorem lex_mark {token : Token} {c : Char} (h : token.mark? = some c) (t : Text) :
    lex (c :: t) = some (token, t) := by
  cases token with
  | semicolon =>
    obtain rfl := Option.some.inj h
    rfl
  | opening b => cases b <;> obtain rfl := Option.some.inj h <;> rfl
  | closing b => cases b <;> obtain rfl := Option.some.inj h <;> rfl
  | _ => cases h

/-- Blocks that are closed in complete tokens are skipped in the same way in front of a seam: a
closing bracket takes nothing of it. -/
theorem EndsTokens.skipBlocks_append {blocks : List Bracket} {t : Text} (h : EndsTokens t)
    (hcloses : Closes blocks (tokens t)) {pad back : Text} (hseam : Seam pad back) :
    skipBlocks blocks (t ++ (pad ++ back)) = skipBlocks blocks t ++ (pad ++ back) := by
  induction t using lex_induction generalizing blocks with
  | nil =>
    cases blocks with
    | nil => rw [skipBlocks, skipBlocks]
    | cons b outer => exact absurd rfl (ne_nil_of_closes hcloses)
  | step t token rest hlex ih =>
    cases blocks with
    | nil => rw [skipBlocks, skipBlocks]
    | cons b outer =>
      have hrest := (h.of_lex hlex).1
      rw [tokens_of_lex hlex] at hcloses
      by_cases hcloser : token = .closing b
      · subst hcloser
        have hlex' : lex (t ++ (pad ++ back)) = some (.closing b, rest ++ (pad ++ back)) := by
          obtain ⟨c, hmark⟩ : ∃ c, (Token.closing b).mark? = some c := by
            cases b <;> exact ⟨_, rfl⟩
          rw [eq_cons_of_lex hlex hmark, List.cons_append, lex_mark hmark]
        rw [skipBlocks_closer outer hlex, skipBlocks_closer outer hlex',
          ih rest (Nat.le_refl _) hrest ((closes_closer b outer _).1 hcloses)]
      -- behind any other token a block is still open, so that it is not the last one
      cases hopens : token.opens? with
      | none =>
        have hcloses' := (closes_single hcloser hopens outer _).1 hcloses
        have hlex' := h.lex_append hlex (ne_nil_of_closes hcloses') hseam
        rw [skipBlocks_single outer hlex hcloser hopens,
          skipBlocks_single outer hlex' hcloser hopens, ih rest (Nat.le_refl _) hrest hcloses']
      | some b' =>
        have hcloses' := (closes_block hopens outer _).1 hcloses
        have hlex' := h.lex_append hlex (ne_nil_of_closes hcloses') hseam
        rw [skipBlocks_block outer hlex hopens, skipBlocks_block outer hlex' hopens,
          ih rest (Nat.le_refl _) hrest hcloses']

end Scaffold.Css
