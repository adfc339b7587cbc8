import Scaffold.Proofs.Css.Value

/-!
# Blocks start afresh behind a semicolon

However malformed the items of a block are, a semicolon of the block itself ends them: what stands
behind it is read as a block of its own, and nothing in front of it takes part in that
(`readBlock_append_semicolon`).

When the semicolon comes, the reader of a block may be at the start of an item, behind a name, in a
value or on its way to a semicolon, and the last token may have left a block to be skipped.  All
these cases are one for a cursor that comes to a semicolon whatever stands behind it
(`Cursor.Clears`): each reader takes it right behind the semicolon or to another such cursor
(`Onward`), and what the reader returns does not depend on the text behind the semicolon.  A reader
that comes to a semicolon in one text does so in all of them, because no token looks past a
semicolon that it leaves (`exists_lex_stop`).
-/

namespace Scaffold.Css

open Scaffold.Text

/-! ## Texts that are cut behind a stop -/

/-- A token that ends in front of a stop is the same whatever stands behind the stop. -/
theorem exists_lex_stop {t back rest : Text} {c : Char} {token : Token} (hc : isStop c = true)
    (hlex : lex (t ++ c :: back) = some (token, rest)) (hlength : back.length < rest.length) :
    ∃ u, u.length < t.length ∧ rest = u ++ c :: back ∧
      ∀ more, lex (t ++ c :: more) = some (token, u ++ c :: more) := by
  cases t with
  | nil =>
    -- the stop would be the token
    have hstop := lex_cons_of_isStop hc hlex back
    rw [List.nil_append, hstop] at hlex
    obtain ⟨-, rfl⟩ := Prod.mk.inj (Option.some.inj hlex)
    exact absurd hlength (Nat.lt_irrefl _)
  | cons d t =>
    have hfrom : lexFrom d (t ++ c :: back) = (token, rest) := Option.some.inj hlex
    have hleaves : Leaves (lexFrom d) t := leaves_lexFrom ⟨c, back, hc, by rwa [hfrom]⟩
    have hstop (more : Text) :
        lexFrom d (t ++ c :: more) = ((lexFrom d t).1, (lexFrom d t).2 ++ c :: more) := by
      obtain ⟨pad', hpad, heq⟩ := hleaves [] (c :: more) (seam_stop hc more)
      obtain rfl : pad' = [] := by
        rcases hpad with hpad | ⟨-, hpad⟩ <;> exact hpad
      exact heq
    rw [hstop] at hfrom
    obtain ⟨rfl, rfl⟩ := Prod.mk.inj hfrom
    exact ⟨(lexFrom d t).2, Nat.lt_succ_of_le (lexFrom_suffix d t).length_le, rfl,
      fun more => congrArg some (hstop more)⟩

/-- Which blocks are open behind a token does not depend on the text that it is read from. -/
theorem exists_skipBlocks_of_lex (b : Bracket) (outer : List Bracket) (token : Token) :
    ∃ blocks, ∀ {t rest : Text}, lex t = some (token, rest) →
      skipBlocks (b :: outer) t = skipBlocks blocks rest := by
  by_cases hcloser : token = .closing b
  · subst hcloser
    exact ⟨outer, fun hlex => skipBlocks_closer outer hlex⟩
  cases hopens : token.opens? with
  | none => exact ⟨b :: outer, fun hlex => skipBlocks_single outer hlex hcloser hopens⟩
  | some b' => exact ⟨b' :: b :: outer, fun hlex => skipBlocks_block outer hlex hopens⟩

/-- Blocks that end in front of a stop end there whatever stands behind it. -/
theorem exists_skipBlocks_stop {blocks : List Bracket} {t back : Text} {c : Char}
    (hc : isStop c = true) (hlength : back.length < (skipBlocks blocks (t ++ c :: back)).length) :
    ∃ u, ∀ more, skipBlocks blocks (t ++ c :: more) = u ++ c :: more := by
  induction hn : t.length using Nat.strongRecOn generalizing blocks t with
  | _ n ih =>
    cases blocks with
    | nil => exact ⟨t, fun more => by rw [skipBlocks]⟩
    | cons b outer =>
      cases hlex : lex (t ++ c :: back) with
      | none => simp at hlex
      | some result =>
        obtain ⟨token, rest⟩ := result
        obtain ⟨blocks, hskip⟩ := exists_skipBlocks_of_lex b outer token
        rw [hskip hlex] at hlength
        obtain ⟨u, hu, rfl, hlexes⟩ :=
          exists_lex_stop hc hlex (Nat.lt_of_lt_of_le hlength (skipBlocks_suffix _ _).length_le)
        obtain ⟨v, hv⟩ := ih u.length (hn ▸ hu) hlength rfl
        exact ⟨v, fun more => by rw [hskip (hlexes more), hv]⟩

/-! ## The way to a semicolon -/

/-- A component in front of which a block ends. -/
def Component.endsBlock : Component → Bool
  | .token (.closing .curly) => true
  | _ => false

namespace Cursor

/-- A cursor in a block from which reading comes to a semicolon of the block itself, with `back`
behind it. -/
inductive Meets (back : Text) : Cursor → Prop
  | here {c : Cursor} (h : c.nextInBlock? = some (.semicolon, .start back)) : Meets back c
  | step {c c' : Cursor} {token : Token} (h : c.nextInBlock? = some (token, c'))
      (hmore : Meets back c') : Meets back c

/-- A cursor from which reading comes to a semicolon that is written behind its text, by the same
tokens whatever stands behind the semicolon. -/
inductive Clears : Cursor → Prop
  | here {c : Cursor}
      (h : ∀ back, (c.extend (';' :: back)).nextInBlock? = some (.semicolon, .start back)) :
      Clears c
  | step {c c' : Cursor} {token : Token}
      (h : ∀ back, (c.extend (';' :: back)).nextInBlock? = some (token, c'.extend (';' :: back)))
      (hmore : Clears c') : Clears c

/-- What stands behind the semicolon is shorter than what is left to read. -/
theorem Meets.length_lt {c : Cursor} {back : Text} (h : c.Meets back) :
    back.length < c.rest.length := by
  induction h with
  | here h => exact length_lt_of_nextInBlock? h
  | step h _ ih => exact Nat.lt_trans ih (length_lt_of_nextInBlock? h)

/-- If the pending block is closed in front of the semicolon once, it is so whatever stands behind
the semicolon. -/
theorem exists_settled_stop {c : Cursor} {back : Text}
    (hlength : back.length < (c.extend (';' :: back)).settled.length) :
    ∃ u, ∀ more, (c.extend (';' :: more)).settled = u ++ ';' :: more :=
  exists_skipBlocks_stop (by decide) hlength

/-- The way to a semicolon does not depend on what stands behind it. -/
theorem clears_of_meets {c : Cursor} {back : Text} (h : (c.extend (';' :: back)).Meets back) :
    c.Clears := by
  generalize hd : c.extend (';' :: back) = d at h
  -- along the tokens up to the semicolon, none of which looks past it
  induction h generalizing c with
  | here h =>
    subst hd
    obtain ⟨hlex, -⟩ := settled_of_next? (next?_of_nextInBlock? h)
    have hsettled := eq_cons_of_lex hlex rfl
    have hlength : back.length < (c.extend (';' :: back)).settled.length := by
      rw [hsettled]
      simp [start]
    obtain ⟨u, hu⟩ := exists_settled_stop hlength
    obtain rfl : u = [] := by
      rw [hu back] at hsettled
      simpa [start] using hsettled
    refine .here fun more => ?_
    rw [nextInBlock?, next?, hu more]
    rfl
  | @step d c' token h hmore ih =>
    subst hd
    obtain ⟨hlex, hpending⟩ := settled_of_next? (next?_of_nextInBlock? h)
    have hrest := hmore.length_lt
    obtain ⟨u, hu⟩ := exists_settled_stop (Nat.lt_trans hrest (length_lt_of_lex hlex))
    rw [hu back] at hlex
    obtain ⟨v, hv, hsplit, hlexes⟩ := exists_lex_stop (by decide) hlex hrest
    let c₁ : Cursor := { rest := v, pending := token.opens? }
    have hc₁ : c₁.extend (';' :: back) = c' := by
      obtain ⟨rest, pending⟩ := c'
      obtain rfl : rest = v ++ ';' :: back := hsplit
      obtain rfl : pending = token.opens? := hpending
      rfl
    refine @Clears.step c c₁ token (fun more => ?_) (ih hc₁)
    have hhead : u.head? ≠ some '}' := by
      intro hcurly
      rw [nextInBlock?, hu back, if_pos (by simp [hcurly])] at h
      cases h
    have hne : u ≠ [] := List.ne_nil_of_length_pos (Nat.zero_lt_of_lt hv)
    rw [nextInBlock?, hu more, if_neg (by rwa [List.head?_append_of_ne_nil _ hne]), next?, hu more,
      hlexes more]
    rfl

/-- Complete tokens with all brackets closed lead to a semicolon behind them, if none of them closes
the block that they stand in. -/
theorem Facing.meets {c : Cursor} {inside ahead back : Text}
    (h : c.Facing inside ahead [] (';' :: back))
    (hinside : ∀ k ∈ Css.components ahead, k.endsBlock = false) : c.Meets back := by
  induction ahead using lex_induction generalizing c inside with
  | nil =>
    refine .here ?_
    rw [nextInBlock?, next?, h.settled]
    rfl
  | step ahead token rest hlex ih =>
    obtain ⟨part, c', pad', -, -, -, hnext, hfacing, hpad⟩ := h.next?_cons hlex
    obtain rfl : pad' = [] := by
      rcases hpad with hpad | ⟨-, -, hpad⟩ <;> exact hpad
    rw [components_of_lex hlex, List.forall_mem_cons] at hinside
    have htoken : token ≠ .closing .curly := by
      rintro rfl
      cases hinside.1
    exact .step ((h.nextInBlock?_eq hlex htoken).trans hnext)
      (ih _ (skipBlocks_suffix _ _).length_le hfacing hinside.2)

end Cursor

/-! ## The readers on their way -/

/-- Cursors, one for each text behind a semicolon, that are all on the same way: right behind the
semicolon, or in front of it with a clear way to it. -/
def Onward (f : Text → Cursor) : Prop :=
  (∀ back, f back = .start back) ∨
    ∃ c : Cursor, c.Clears ∧ ∀ back, f back = c.extend (';' :: back)

theorem onward_extend {c : Cursor} (h : c.Clears) : Onward fun back => c.extend (';' :: back) :=
  Or.inr ⟨c, h, fun _ => rfl⟩

/-- Skipping a malformed item comes to the semicolon, or to one before it. -/
theorem onward_skipToSemicolon {c : Cursor} (h : c.Clears) :
    Onward fun back => skipToSemicolon (c.extend (';' :: back)) := by
  induction h with
  | here h =>
    refine Or.inl fun back => ?_
    show skipToSemicolon _ = _
    rw [skipToSemicolon_eq, h]
  | @step c c' token h hmore ih =>
    by_cases hsemicolon : token = .semicolon
    · subst hsemicolon
      refine Or.inr ⟨c', hmore, fun back => ?_⟩
      show skipToSemicolon _ = _
      rw [skipToSemicolon_eq, h]
    · have hskip (back : Text) : skipToSemicolon (c.extend (';' :: back)) =
          skipToSemicolon (c'.extend (';' :: back)) := by
        rw [skipToSemicolon_eq, h]
        simp
      simpa only [hskip] using ih

/-- The value that is read, and how reading goes on. -/
theorem readChunks_of_clears {c : Cursor} (h : c.Clears) (chunk : Text) :
    ∃ value f, Onward f ∧ ∀ back,
      readChunks (chunk ++ ';' :: back) (c.extend (';' :: back)) = (value, f back) := by
  have hupTo (c : Cursor) (chunk back : Text) :
      upTo (chunk ++ ';' :: back) (c.extend (';' :: back)).rest = upTo chunk c.rest :=
    upTo_append_append _ chunk c.rest
  induction h generalizing chunk with
  | @here c h =>
    refine ⟨upTo chunk c.rest, .start, Or.inl fun _ => rfl, fun back => ?_⟩
    rw [readChunks_eq, h, ← hupTo c chunk back]
  | @step c c' token h hmore ih =>
    by_cases hsemicolon : token = .semicolon
    · subst hsemicolon
      refine ⟨upTo chunk c.rest, _, onward_extend hmore, fun back => ?_⟩
      rw [readChunks_eq, h, ← hupTo c chunk back]
    by_cases hcomment : ∃ body, token = .comment body
    · obtain ⟨body, rfl⟩ := hcomment
      obtain ⟨value, f, hf, hread⟩ := ih c'.rest
      refine ⟨upTo chunk c.rest ++ value, f, hf, fun back => ?_⟩
      have hmoreRead : readChunks (c'.extend (';' :: back)).rest (c'.extend (';' :: back)) =
          (value, f back) := hread back
      rw [readChunks_eq, h, ← hupTo c chunk back]
      exact congrArg (Prod.map (upTo _ _ ++ ·) id) hmoreRead
    · obtain ⟨value, f, hf, hread⟩ := ih chunk
      refine ⟨value, f, hf, fun back => ?_⟩
      rw [readChunks_skip (h back) hsemicolon fun body hbody => hcomment ⟨body, hbody⟩, hread]

/-- A value is over at the semicolon, or before it. -/
theorem readValue_of_clears {c : Cursor} (h : c.Clears) :
    ∃ value? f, Onward f ∧ ∀ back, readValue (c.extend (';' :: back)) = (value?, f back) := by
  induction h with
  | here h =>
    refine ⟨none, .start, Or.inl fun _ => rfl, fun back => ?_⟩
    rw [readValue_eq, h]
  | @step c c' token h hmore ih =>
    have hstep (back : Text) := readValue_eq (c.extend (';' :: back))
    simp only [h] at hstep
    by_cases hspace : token = .space
    · subst hspace
      simpa only [hstep] using ih
    by_cases hcomment : ∃ body, token = .comment body
    · obtain ⟨body, rfl⟩ := hcomment
      simpa only [hstep] using ih
    by_cases hcolon : token = .colon
    · subst hcolon
      obtain ⟨value, f, hf, hread⟩ := readChunks_of_clears hmore c'.rest
      refine ⟨some (trim value), f, hf, fun back => ?_⟩
      rw [hstep]
      exact congrArg (Prod.map (fun value => some (trim value)) id) (hread back)
    by_cases hends : token = .semicolon ∨ token = .opening .curly
    · refine ⟨none, _, onward_extend hmore, fun back => ?_⟩
      rcases hends with rfl | rfl <;> exact hstep back
    · refine ⟨none, _, onward_skipToSemicolon hmore, fun back => ?_⟩
      rw [hstep]
      cases token <;> simp_all

/-- Readings of a block, one for each text behind a semicolon, that give the same items and then
those of a block that starts there. -/
def Resumes (f : Text → List BlockItem × Text) : Prop :=
  ∃ items, ∀ back, f back = Prod.map (items ++ ·) id (readBlock (.start back))

theorem Resumes.cons {f : Text → List BlockItem × Text} (h : Resumes f) (item : BlockItem) :
    Resumes fun back => Prod.map (item :: ·) id (f back) := by
  obtain ⟨items, hitems⟩ := h
  exact ⟨item :: items, fun back => congrArg (Prod.map (item :: ·) id) (hitems back)⟩

/-- A block is read up to the semicolon, and then as a block that starts there. -/
theorem resumes_readBlock {c : Cursor} (h : c.Clears) :
    Resumes fun back => readBlock (c.extend (';' :: back)) := by
  induction hn : c.rest.length using Nat.strongRecOn generalizing c with
  | _ n ih =>
    -- the induction is on what is left to read, as the readers of an item go past many tokens
    have honward {f : Text → Cursor} (hf : Onward f)
        (hlength : (f []).rest.length < (c.extend [';']).rest.length) :
        Resumes fun back => readBlock (f back) := by
      rcases hf with hf | ⟨c', hc', hf⟩
      · exact ⟨[], fun back => congrArg readBlock (hf back)⟩
      · rw [hf] at hlength
        have hlt : c'.rest.length < n := by simpa [Cursor.extend, hn] using hlength
        simp only [hf]
        exact ih _ hlt hc' rfl
    cases h with
    | here h =>
      refine ⟨[], fun back => ?_⟩
      have hstep := readBlock_eq (c.extend (';' :: back))
      rw [h] at hstep
      exact hstep
    | @step _ c' token h hmore =>
      have hlength := Cursor.length_lt_of_nextInBlock? (h [])
      have hgoes := honward (onward_extend hmore) hlength
      have hstep (back : Text) := readBlock_eq (c.extend (';' :: back))
      simp only [h] at hstep
      by_cases hskipped : token = .space ∨ token = .semicolon
      · simp only [hstep]
        rcases hskipped with rfl | rfl <;> exact hgoes
      by_cases hcomment : ∃ body, token = .comment body
      · obtain ⟨body, rfl⟩ := hcomment
        simp only [hstep]
        exact hgoes.cons _
      by_cases hident : ∃ name, token = .ident name
      · obtain ⟨name, rfl⟩ := hident
        obtain ⟨value?, f, hf, hread⟩ := readValue_of_clears hmore
        have hle := length_readValue_le (c'.extend [';'])
        rw [hread] at hle
        simp only [hstep, hread]
        exact (honward hf (Nat.lt_of_le_of_lt hle hlength)).cons _
      by_cases hcurly : token = .opening .curly
      · subst hcurly
        simp only [hstep]
        exact hgoes.cons _
      · have hskip (back : Text) : readBlock (c.extend (';' :: back)) =
            readBlock (skipToSemicolon (c'.extend (';' :: back))) := by
          rw [hstep]
          cases token <;> simp_all
        simp only [hskip]
        exact honward (onward_skipToSemicolon hmore)
          (Nat.lt_of_le_of_lt (length_skipToSemicolon_le _) hlength)

/-! ## Two texts with a semicolon between them -/

/-- What is read behind a semicolon of a block is what is read of a block that starts there, and
what is read in front of it does not depend on that. -/
theorem readBlock_append_semicolon {front back : Text}
    (h : (Cursor.start (front ++ ';' :: back)).Meets back) :
    readBlock (.start (front ++ ';' :: back)) =
        ((readBlock (.start (front ++ [';']))).1 ++ (readBlock (.start back)).1,
          (readBlock (.start back)).2) ∧
      declarations (readBlock (.start (front ++ ';' :: back))).1 =
        declarations (readBlock (.start (front ++ [';']))).1 ++
          declarations (readBlock (.start back)).1 := by
  have hclears : (Cursor.start front).Clears := Cursor.clears_of_meets h
  obtain ⟨items, hitems⟩ := resumes_readBlock hclears
  have hback : readBlock (.start (front ++ ';' :: back)) = _ := hitems back
  have hnil : readBlock (.start (front ++ [';'])) = _ := hitems []
  have hempty : readBlock (.start []) = ([], []) := by
    rw [readBlock_eq, Cursor.nextInBlock?, Cursor.next?, Cursor.settled_start]
    rfl
  rw [hempty] at hnil
  rw [hback, hnil]
  refine ⟨Prod.ext ?_ rfl, ?_⟩
  · simp
  · simp [declarations]

/-- Items that are malformed, each in its own way, and one whose value has blocks in it. -/
def malformedItems : Text :=
  "1 \x7b;\x7d; a/*;*/b: c; d\x7b;\x7d e: f(;) /*;*/ \"\x7d;\" [;\x7d]".toList

/-- Items behind the semicolon, with the end of the block among them. -/
def laterItems : Text :=
  ":g; h: i; /*j*/\x7d;k: l".toList

theorem meets_malformedItems :
    (Cursor.start (malformedItems ++ ';' :: laterItems)).Meets laterItems := by
  have hfacing : (Cursor.start (malformedItems ++ ';' :: laterItems)).Facing [] malformedItems []
      (';' :: laterItems) :=
    .start (by decide +kernel) (by decide +kernel) (seam_stop (by decide) laterItems)
  exact hfacing.meets (by decide +kernel)

theorem readBlock_append_semicolon_malformedItems :
    (Cursor.start (malformedItems ++ ';' :: laterItems)).Meets laterItems ∧
      declarations (readBlock (.start (malformedItems ++ ';' :: laterItems))).1 =
        [.property "e".toList "f(;)  \"\x7d;\" [".toList, .property "h".toList "i".toList,
          .comment "j".toList] := by
  refine ⟨meets_malformedItems, ?_⟩
  rw [(readBlock_append_semicolon meets_malformedItems).2]
  decide +kernel

end Scaffold.Css
