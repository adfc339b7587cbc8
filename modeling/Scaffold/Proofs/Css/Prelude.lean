import Scaffold.Proofs.Css.Sequence

/-!
# The selectors in front of a block

What stands in front of the block of a style rule, its *prelude*, gives the selectors of the rule.
With a space in front of the block these are the selectors of the whole prelude, and without one as
well, unless the prelude ends in a block of its own: the inside of that one is then missing, with
its closing bracket (`parse_prelude`).  All else about the rule and the rules behind it is the same
in both cases.
-/

namespace Scaffold.Css

open Scaffold.Text

/-! ## Selector lists with a space behind -/

/-- A space behind a selector list is trimmed off its last selector. -/
theorem map_trim_pieces_space (place : Place) (current t : Text) :
    (pieces place current (t ++ [' '])).map trim = (pieces place current t).map trim := by
  have hspace (u : Text) : trim (' ' :: u).reverse = trim u.reverse := by
    rw [List.reverse_cons]
    exact trim_append_right (by simp; decide)
  -- a slash at the end does not become the mark of a comment
  have hnext {c : Char} {t : Text} (h : ∀ u, c = '/' → t = '*' :: u → False) :
      ∀ u, c = '/' → t ++ [' '] = '*' :: u → False := by
    intro u hc heq
    cases t with
    | nil => simp at heq
    | cons d t =>
      obtain ⟨rfl, -⟩ := List.cons.inj heq
      exact h t hc rfl
  fun_induction pieces place current t with
  | case1 place current =>
    rw [List.nil_append]
    cases place with
    | outside depth =>
      rw [pieces]
      · simp only [Char.reduceEq, or_self, if_false, false_and, show isBlank ' ' = true from rfl,
          if_true]
        split
        · rw [pieces]
        · rw [pieces, List.map_singleton, List.map_singleton, hspace]
      · simp
    | inString quote depth => rw [pieces, pieces, List.map_singleton, List.map_singleton, hspace]
    | inComment last depth => rw [pieces, pieces]
  | case2 quote depth current c t ih => rw [List.cons_append, pieces, ih]
  | case3 last depth current c t ih => rw [List.cons_append, pieces, ih]
  | case4 depth current t ih => rw [List.cons_append, List.cons_append, pieces, ih]
  | case5 depth current c t hmark hquote ih =>
    rw [List.cons_append, pieces, if_pos hquote, ih]
    exact hnext hmark
  | case6 depth current c t hmark hquote hopen ih =>
    rw [List.cons_append, pieces, if_neg hquote, if_pos hopen, ih]
    exact hnext hmark
  | case7 depth current c t hmark hquote hopen hclose ih =>
    rw [List.cons_append, pieces, if_neg hquote, if_neg hopen, if_pos hclose, ih]
    exact hnext hmark
  | case8 depth current c t hmark hquote hopen hclose hcomma ih =>
    rw [List.cons_append, pieces, if_neg hquote, if_neg hopen, if_neg hclose, if_pos hcomma,
      List.map_cons, ih, List.map_cons]
    exact hnext hmark
  | case9 depth current c t hmark hquote hopen hclose hcomma hblank hdrop ih =>
    rw [List.cons_append, pieces, if_neg hquote, if_neg hopen, if_neg hclose, if_neg hcomma,
      if_pos hblank, if_pos hdrop, ih]
    exact hnext hmark
  | case10 depth current c t hmark hquote hopen hclose hcomma hblank hdrop ih =>
    rw [List.cons_append, pieces, if_neg hquote, if_neg hopen, if_neg hclose, if_neg hcomma,
      if_pos hblank, if_neg hdrop, ih]
    exact hnext hmark
  | case11 depth current c t hmark hquote hopen hclose hcomma hblank ih =>
    rw [List.cons_append, pieces, if_neg hquote, if_neg hopen, if_neg hclose, if_neg hcomma,
      if_neg hblank, ih]
    exact hnext hmark

/-- A space behind a list of selectors changes none of them. -/
theorem splitSelectors_space (t : Text) : splitSelectors (t ++ [' ']) = splitSelectors t := by
  rw [splitSelectors, map_trim_pieces_space, splitSelectors]

/-! ## Finding the block -/

/-- The search for a block passes over complete components.  Where it ends, the body of the last one
that was read is still to be skipped, unless a space comes between. -/
theorem Cursor.Facing.findBlock?_eq {c : Cursor} {ahead pad body : Text} {before : List Part}
    (h : c.Facing (lastBody before) ahead pad ('{' :: body))
    (hcurly : ∀ k ∈ Css.components ahead, k.isCurly = false) :
    findBlock? c =
      some ((if pad = [] then lastBody (before ++ parts ahead) else []) ++ '{' :: body, body) := by
  induction ahead using lex_induction generalizing c before pad with
  | nil =>
    have hsettled := h.settled
    rw [parts_nil, List.append_nil]
    rcases h.seam.pad_eq with rfl | rfl
    · have hnext : c.next? = some (.opening .curly, { rest := body, pending := some .curly }) := by
        rw [next?, hsettled]
        rfl
      rw [Css.findBlock?_eq, hnext]
      exact congrArg (fun stop => some (stop, body)) h.rest
    -- the space is a token of its own, and it leaves no block to skip
    · have hnext : c.next? = some (.space, Cursor.start ('{' :: body)) := by
        rw [next?, hsettled]
        rfl
      rw [Css.findBlock?_eq, hnext]
      exact findBlock?_openCurly body
  | step ahead token rest hlex ih =>
    obtain ⟨part, c', pad', hparts, -, -, hnext, hfacing, hpad⟩ := h.next?_cons hlex
    rw [components_of_lex hlex] at hcurly
    have htoken : token ≠ .opening .curly := by
      rintro rfl
      cases hcurly _ List.mem_cons_self
    have hskip : findBlock? c = findBlock? c' := by
      rw [Css.findBlock?_eq, hnext]
      simp
    rw [← lastBody_concat before part] at hfacing
    rw [hskip, ih _ (skipBlocks_suffix _ _).length_le hfacing fun k hk =>
      hcurly k (List.mem_cons_of_mem _ hk), hparts, List.append_assoc, List.singleton_append]
    rcases hpad with rfl | ⟨hbody, hnil, rfl⟩
    · rfl
    · rw [hnil, parts_nil, lastBody_concat, hbody]
      simp

/-! ## Preludes -/

/-- What can stand in front of the block of a style rule: complete tokens with all brackets closed,
no block in curly brackets, and at the front nothing that belongs to another item. -/
structure IsPrelude (p : Text) : Prop where
  ends : EndsTokens p
  closed : ∀ k ∈ components p, k.isClosed = true ∧ k.isCurly = false
  starts : (components p).head?.any Component.startsStyle = true

/-- A text that stands between curly brackets as the inside of one block. -/
def IsBody (b : Text) : Prop :=
  (components ('{' :: (b ++ ['}']))).length = 1

instance (b : Text) : Decidable (IsBody b) :=
  inferInstanceAs (Decidable (_ = _))

/-- A prelude starts with a token with which a style rule can start. -/
theorem IsPrelude.exists_lex {p : Text} (h : IsPrelude p) :
    ∃ token rest, lex p = some (token, rest) ∧ token.startsStyle = true := by
  have hstarts := h.starts
  cases hlex : lex p with
  | none =>
    rw [lex_eq_none_iff.1 hlex, components_nil] at hstarts
    cases hstarts
  | some result =>
    rw [components_of_lex hlex] at hstarts
    exact ⟨result.1, result.2, rfl, by simpa [startsStyle_ofToken] using hstarts⟩

/-- The selectors of a prelude are cut out of the sheet up to where the search for the block
ends. -/
theorem splitSelectors_upTo {pad : Text} (hpad : pad = [] ∨ pad = [' ']) (p body : Text) :
    splitSelectors (upTo (p ++ (pad ++ '{' :: body))
        ((if pad = [] then lastBody (parts p) else []) ++ '{' :: body)) =
      splitSelectors (if pad = [] then kept (parts p) else p) := by
  rcases hpad with rfl | rfl
  · have htext : p ++ ([] ++ '{' :: body) =
        kept (parts p) ++ (lastBody (parts p) ++ '{' :: body) := by
      rw [← List.append_assoc (kept _), kept_append_lastBody, flatMap_text_parts, List.nil_append]
    rw [if_pos rfl, if_pos rfl, htext, upTo_append]
  · have htext : p ++ ([' '] ++ '{' :: body) = (p ++ [' ']) ++ ([] ++ '{' :: body) := by simp
    rw [if_neg (by simp), if_neg (by simp), htext, upTo_append, splitSelectors_space]

/-- A style rule is read from its prelude on, with a space or none in front of its block. -/
theorem IsPrelude.readItems_eq {p pad : Text} (h : IsPrelude p) (hpad : pad = [] ∨ pad = [' '])
    (body : Text) :
    readItems (.start (p ++ (pad ++ '{' :: body))) =
      Prod.map (.style (splitSelectors (if pad = [] then kept (parts p) else p))
        (readBlock (.start body)).1 :: ·) id (readItems (.start (skipBlocks [.curly] body))) := by
  have hseam : Seam pad ('{' :: body) := ⟨hpad, by simp; rfl⟩
  have hfacing := Cursor.Facing.start h.ends (fun k hk => (h.closed k hk).1) hseam
  have hfind := @Cursor.Facing.findBlock?_eq _ p pad body [] hfacing fun k hk => (h.closed k hk).2
  obtain ⟨token, rest, hlex, hstyle⟩ := h.exists_lex
  obtain ⟨-, c', -, -, -, -, hnext, -, -⟩ := hfacing.next?_cons hlex
  rw [List.nil_append] at hfind
  rw [readItems_of_findBlock? hnext hstyle hfind, ← splitSelectors_upTo hpad p body]
  rfl

/-- A closing bracket behind the body of a block ends the block. -/
theorem IsBody.skipBlocks_eq {b : Text} (h : IsBody b) : skipBlocks [.curly] (b ++ ['}']) = [] := by
  rw [IsBody, components_of_lex (lex_openCurly (b ++ ['}'])), List.length_cons] at h
  exact eq_nil_of_components (List.length_eq_zero_iff.1 (Nat.succ.inj h))

/-- A style rule is the same with a space and without one in front of its block, as are the rules
behind it, but for the selectors: with the space they are those of the whole prelude, without it
those of what is kept of the prelude, which is all of it if it does not end in a block. -/
theorem parse_prelude {p : Text} (hp : IsPrelude p) (b : Text) :
    (∃ declarations later?, (IsBody b → later? = some []) ∧
      (parse (p ++ '{' :: (b ++ ['}']))).toOption =
        later?.map (⟨.style, splitSelectors (kept (parts p)), declarations⟩ :: ·) ∧
      (parse (p ++ ' ' :: '{' :: (b ++ ['}']))).toOption =
        later?.map (⟨.style, splitSelectors p, declarations⟩ :: ·)) ∧
    ((∀ k ∈ (components p).getLast?, k.isBlock = false) → kept (parts p) = p) := by
  refine ⟨⟨declarations (readBlock (.start (b ++ ['}']))).1,
    readRules? (readItems (.start (skipBlocks [.curly] (b ++ ['}'])))), ?_, ?_, ?_⟩, kept_parts⟩
  · intro hb
    rw [hb.skipBlocks_eq, readItems_nil]
    rfl
  · have hread := hp.readItems_eq (Or.inl rfl) (b ++ ['}'])
    rw [if_pos rfl, List.nil_append] at hread
    rw [toOption_parse, hread, readRules?_cons]
    rfl
  · have hread := hp.readItems_eq (Or.inr rfl) (b ++ ['}'])
    rw [if_neg (by simp), List.singleton_append] at hread
    rw [toOption_parse, hread, readRules?_cons]
    rfl

/-- A prelude with blocks in it, at whose end a space is part of an escape. -/
def crookedPrelude : Text :=
  ":is(a, b)>c[d=\"\x7b\"] /**/ e\\31".toList

/-- The inside of a block with brackets that do not close it. -/
def crookedBody : Text :=
  "f: \"\x7d\"; g: \x7b(\x7d)\x7d".toList

theorem isPrelude_crookedPrelude : IsPrelude crookedPrelude :=
  ⟨by decide +kernel, by decide +kernel, by decide +kernel⟩

theorem isBody_crookedBody : IsBody crookedBody := by
  decide +kernel

theorem parse_prelude_crookedPrelude :
    IsPrelude crookedPrelude ∧ IsBody crookedBody ∧
      ∃ declarations,
        (parse (crookedPrelude ++ '{' :: (crookedBody ++ ['}']))).toOption =
          some [⟨.style, splitSelectors crookedPrelude, declarations⟩] ∧
        (parse (crookedPrelude ++ ' ' :: '{' :: (crookedBody ++ ['}']))).toOption =
          some [⟨.style, splitSelectors crookedPrelude, declarations⟩] := by
  obtain ⟨⟨declarations, later?, hlater, hbare, hspaced⟩, hkept⟩ :=
    parse_prelude isPrelude_crookedPrelude crookedBody
  rw [hlater isBody_crookedBody] at hbare hspaced
  rw [hkept (by decide +kernel)] at hbare
  exact ⟨isPrelude_crookedPrelude, isBody_crookedBody, declarations, hbare, hspaced⟩

/-- A prelude that ends in a block. -/
def blockPrelude : Text :=
  "a[href]".toList

/-- The inside of the block at the end of a prelude is missing without a space behind it. -/
theorem parse_blockPrelude :
    IsPrelude blockPrelude ∧ IsBody [] ∧
      parse (blockPrelude ++ ['{', '}']) = .ok [Rule.style "a[".toList []] ∧
      parse (blockPrelude ++ [' ', '{', '}']) = .ok [Rule.style blockPrelude []] :=
  ⟨⟨by decide +kernel, by decide +kernel, by decide +kernel⟩, by decide +kernel⟩

end Scaffold.Css
