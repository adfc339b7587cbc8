import Scaffold.Proofs.Css.Seam

/-!
# Components with their texts

A text is divided into the texts of its components (`flatMap_text_parts`).  A reader never sees them
as such: what it takes from a sheet is the text between two cursors, and a cursor behind a block
that was opened stands right behind the token that opens it, for the block is skipped with the next
token only.  So of the components that were read a reader has everything but the inside of the last
block, if that is where they end (`kept`).

How far a reader gets is said by two facts about a cursor in front of complete components and a
seam (`Cursor.Facing`): at their end it stands in front of the seam, and before that it takes off
one of them and faces the others (`Cursor.Facing.next?_cons`).
-/

namespace Scaffold.Css

open Scaffold.Text

/-! ## Parts -/

/-- A component with its text: that of the token that leads it, and that of the block behind the
token, with the closing bracket, if the token opens one. -/
structure Part where
  component : Component
  mark : Text
  body : Text

/-- All the text of a component. -/
def Part.text (part : Part) : Text :=
  part.mark ++ part.body

/-- The components of a text, with their texts. -/
def parts (t : Text) : List Part :=
  match _h : lex t with
  | none => []
  | some (token, rest) =>
    let behind := skipBlocks token.opens?.toList rest
    { component := .ofToken token rest, mark := upTo t rest, body := upTo rest behind } ::
      parts behind
termination_by t.length
decreasing_by exact Nat.lt_of_le_of_lt (skipBlocks_suffix _ _).length_le (length_lt_of_lex _h)

@[simp] theorem parts_nil : parts [] = [] := by
  rw [parts]
  rfl

/-- The first part of a text is led by its first token. -/
theorem exists_parts_of_lex {t rest : Text} {token : Token} (h : lex t = some (token, rest)) :
    ∃ part, parts t = part :: parts (skipBlocks token.opens?.toList rest) ∧
      part.component = .ofToken token rest ∧ t = part.mark ++ rest ∧
      rest = part.body ++ skipBlocks token.opens?.toList rest := by
  have hparts : parts t =
      ⟨.ofToken token rest, upTo t rest, upTo rest (skipBlocks token.opens?.toList rest)⟩ ::
        parts (skipBlocks token.opens?.toList rest) := by
    rw [parts]
    split <;> simp_all
  have hupTo {s u : Text} (hsuffix : s <:+ u) : u = upTo u s ++ s := by
    obtain ⟨front, rfl⟩ := hsuffix
    rw [upTo_append]
  exact ⟨_, hparts, rfl, hupTo (suffix_of_lex h), hupTo (skipBlocks_suffix _ _)⟩

/-- A step of a cursor takes the first part off, and leaves the cursor in front of the body of that
part. -/
theorem exists_parts_of_next? {c c' : Cursor} {token : Token} (h : c.next? = some (token, c')) :
    ∃ part, parts c.settled = part :: parts c'.settled ∧
      part.component = .ofToken token c'.rest ∧ c.settled = part.mark ++ c'.rest ∧
      c'.rest = part.body ++ c'.settled := by
  obtain ⟨hlex, hpending⟩ := Cursor.settled_of_next? h
  rw [Cursor.settled.eq_1 c', hpending]
  exact exists_parts_of_lex hlex

/-- The components of a text are the one that its first token leads, and those behind that. -/
theorem components_of_lex {t rest : Text} {token : Token} (h : lex t = some (token, rest)) :
    components t = .ofToken token rest :: components (skipBlocks token.opens?.toList rest) := by
  have hnext : (Cursor.start t).next? = some (token, { rest, pending := token.opens? }) := by
    rw [Cursor.next?, Cursor.settled_start, h]
    rfl
  rw [← Cursor.components_start, Cursor.components_of_next? hnext]
  rfl

@[simp] theorem components_nil : components [] = [] := by
  rw [components, tokens_nil, group]

/-- The parts of a text are its components, each with its text. -/
theorem map_component_parts (t : Text) : (parts t).map Part.component = components t := by
  induction t using lex_induction with
  | nil => rw [parts_nil, components_nil, List.map_nil]
  | step t token rest hlex ih =>
    obtain ⟨part, hparts, hcomponent, -, -⟩ := exists_parts_of_lex hlex
    rw [hparts, List.map_cons, hcomponent, ih _ (skipBlocks_suffix _ _).length_le,
      components_of_lex hlex]

/-- The texts of the components are all of a text. -/
theorem flatMap_text_parts (t : Text) : (parts t).flatMap Part.text = t := by
  induction t using lex_induction with
  | nil => rw [parts_nil, List.flatMap_nil]
  | step t token rest hlex ih =>
    obtain ⟨part, hparts, -, hmark, hbody⟩ := exists_parts_of_lex hlex
    rw [hparts, List.flatMap_cons, ih _ (skipBlocks_suffix _ _).length_le, Part.text,
      List.append_assoc, ← hbody, ← hmark]

/-- A component that is a token has no body. -/
theorem body_eq_nil_of_token {t : Text} {part : Part} (h : part ∈ parts t) {token : Token}
    (htoken : part.component = .token token) : part.body = [] := by
  induction t using lex_induction with
  | nil =>
    rw [parts_nil] at h
    cases h
  | step t first rest hlex ih =>
    obtain ⟨front, hparts, hcomponent, -, hbody⟩ := exists_parts_of_lex hlex
    rw [hparts] at h
    rcases List.mem_cons.1 h with rfl | h
    · have hopens : first.opens? = none := by
        rw [hcomponent, Component.ofToken] at htoken
        split at htoken
        · next hnone => exact hnone
        · cases htoken
      rw [hopens, Option.toList_none, skipBlocks] at hbody
      simpa using hbody
    · exact ih _ (skipBlocks_suffix _ _).length_le h

/-! ## What a reader has of parts -/

/-- The body of the last of some parts. -/
def lastBody (ps : List Part) : Text :=
  ps.getLast?.elim [] Part.body

/-- The texts of parts, without the body of the last one. -/
def kept (ps : List Part) : Text :=
  ps.dropLast.flatMap Part.text ++ ps.getLast?.elim [] Part.mark

/-- Of the last part only the mark is kept, of the others all. -/
theorem kept_concat (ps : List Part) (part : Part) :
    kept (ps ++ [part]) = ps.flatMap Part.text ++ part.mark := by
  simp [kept]

theorem lastBody_concat (ps : List Part) (part : Part) :
    lastBody (ps ++ [part]) = part.body := by
  simp [lastBody]

/-- What is kept and what is missing make up the text of the parts. -/
theorem kept_append_lastBody (ps : List Part) : kept ps ++ lastBody ps = ps.flatMap Part.text := by
  rcases List.eq_nil_or_concat ps with rfl | ⟨front, last, rfl⟩
  · rfl
  · simp [kept_concat, lastBody_concat, Part.text]

/-- A component that is a block. -/
def Component.isBlock : Component → Bool
  | .token _ => false
  | .block .. => true

/-- Parts that do not end in a block are kept whole. -/
theorem kept_of_not_block {t : Text} {ps : List Part} (hps : ∀ part ∈ ps, part ∈ parts t)
    (hlast : ∀ part ∈ ps.getLast?, part.component.isBlock = false) :
    kept ps = ps.flatMap Part.text := by
  have hnil : lastBody ps = [] := by
    rw [lastBody]
    cases hget : ps.getLast? with
    | none => rfl
    | some last =>
      have hblock := hlast last hget
      cases hcomponent : last.component with
      | token token =>
        exact body_eq_nil_of_token (hps last (List.mem_of_getLast? hget)) hcomponent
      | block opener content closed =>
        rw [hcomponent] at hblock
        cases hblock
  rw [← kept_append_lastBody, hnil, List.append_nil]

/-- A text that does not end in a block is kept whole. -/
theorem kept_parts {t : Text} (h : ∀ k ∈ (components t).getLast?, k.isBlock = false) :
    kept (parts t) = t := by
  rw [kept_of_not_block (fun part (hpart : part ∈ parts t) => hpart), flatMap_text_parts]
  intro part hpart
  apply h
  rw [← map_component_parts, List.getLast?_map, hpart]
  rfl

/-- The parts of a text in front of its first block in curly brackets. -/
def preludeParts (t : Text) : List Part :=
  (parts t).takeWhile fun part => !part.component.isCurly

/-- The search for a block ends where the text in front of the block does, except that the body of
the last part of that text is still to be skipped. -/
theorem eq_of_findBlock? {c : Cursor} {stop body : Text} (h : findBlock? c = some (stop, body))
    (before : List Part) (hrest : c.rest = lastBody before ++ c.settled) :
    c.settled = (preludeParts c.settled).flatMap Part.text ++ '{' :: body ∧
      stop = lastBody (before ++ preludeParts c.settled) ++ '{' :: body := by
  fun_induction findBlock? c generalizing before with
  | case1 => cases h
  | case2 c c' hnext =>
    obtain ⟨rfl, rfl⟩ := Prod.mk.inj (Option.some.inj h)
    obtain ⟨part, hparts, hcomponent, -, -⟩ := exists_parts_of_next? hnext
    have hprelude : preludeParts c.settled = [] := by
      rw [preludeParts, hparts, List.takeWhile_cons_of_neg (by rw [hcomponent]; simp; rfl)]
    have hcurly := eq_cons_of_lex (Cursor.settled_of_next? hnext).1 rfl
    rw [hprelude, List.append_nil, List.flatMap_nil, List.nil_append, ← hcurly]
    exact ⟨rfl, hrest⟩
  | case3 c token c' hcurly hnext ih =>
    obtain ⟨part, hparts, hcomponent, hmark, hbody⟩ := exists_parts_of_next? hnext
    have hprelude : preludeParts c.settled = part :: preludeParts c'.settled := by
      rw [preludeParts, hparts, List.takeWhile_cons_of_pos
        (by rw [hcomponent, isCurly_ofToken hcurly]; rfl), preludeParts]
    obtain ⟨hsettled, hstop⟩ := ih h (before ++ [part]) (by rw [lastBody_concat]; exact hbody)
    rw [hprelude]
    constructor
    · rw [List.flatMap_cons, List.append_assoc, ← hsettled, Part.text, List.append_assoc, ← hbody]
      exact hmark
    · rw [hstop, List.append_assoc, List.singleton_append]

/-! ## Cursors in front of complete components -/

theorem EndsTokens.skipBlocks {t : Text} (h : EndsTokens t) (blocks : List Bracket) :
    EndsTokens (skipBlocks blocks t) :=
  skipBlocks_induction endsTokens_nil (fun h hlex => (h.of_lex hlex).1) blocks h

/-- A cursor that has complete components in front of it and a seam behind them; what is left of its
pending block is `inside`. -/
structure Cursor.Facing (c : Cursor) (inside ahead pad back : Text) : Prop where
  rest : c.rest = inside ++ (ahead ++ (pad ++ back))
  settled : c.settled = ahead ++ (pad ++ back)
  ends : EndsTokens ahead
  closed : ∀ k ∈ Css.components ahead, k.isClosed = true
  seam : Seam pad back

namespace Cursor.Facing

variable {c : Cursor} {inside ahead pad back : Text}

theorem start {t : Text} (hends : EndsTokens t)
    (hclosed : ∀ k ∈ Css.components t, k.isClosed = true) (hseam : Seam pad back) :
    (Cursor.start (t ++ (pad ++ back))).Facing [] t pad back :=
  ⟨rfl, Cursor.settled_start _, hends, hclosed, hseam⟩

/-- A step takes the first component off; with the last one the space of the seam may be gone. -/
theorem next?_cons (h : c.Facing inside ahead pad back) {token : Token} {rest : Text}
    (hlex : lex ahead = some (token, rest)) :
    ∃ part c' pad', parts ahead = part :: parts (skipBlocks token.opens?.toList rest) ∧
      part.component = .ofToken token rest ∧
      ahead = part.text ++ skipBlocks token.opens?.toList rest ∧
      c.next? = some (token, c') ∧
      c'.Facing part.body (skipBlocks token.opens?.toList rest) pad' back ∧
      (pad' = pad ∨
        part.body = [] ∧ skipBlocks token.opens?.toList rest = [] ∧ pad' = []) := by
  obtain ⟨part, hparts, hcomponent, hmark, hbody⟩ := exists_parts_of_lex hlex
  obtain ⟨hrest, hlexes⟩ := h.ends.of_lex hlex
  obtain ⟨pad', hpad, hlex'⟩ := hlexes pad back h.seam
  have hseam := h.seam.of_pad hpad
  have hclosed := h.closed
  rw [components_of_lex hlex] at hclosed
  -- a block that the token opens is closed in front of the seam
  have hcloses : Closes token.opens?.toList (tokens rest) := by
    have hfirst := hclosed _ List.mem_cons_self
    cases hopens : token.opens? with
    | none => trivial
    | some b =>
      rw [Component.ofToken, hopens] at hfirst
      exact ⟨hfirst, trivial⟩
  refine ⟨part, { rest := rest ++ (pad' ++ back), pending := token.opens? }, pad', hparts,
    hcomponent, ?_, ?_, ⟨?_, hrest.skipBlocks_append hcloses hseam, hrest.skipBlocks _,
      fun k hk => hclosed k (List.mem_cons_of_mem _ hk), hseam⟩, ?_⟩
  · rw [Part.text, List.append_assoc, ← hbody]
    exact hmark
  · rw [next?, h.settled, hlex']
    rfl
  · show rest ++ (pad' ++ back) = _
    rw [← List.append_assoc part.body, ← hbody]
  · rcases hpad with hpad | ⟨rfl, hpad⟩
    · exact Or.inl hpad
    · rw [skipBlocks_nil] at hbody ⊢
      exact Or.inr ⟨by simpa using hbody.symm, rfl, hpad⟩

end Cursor.Facing

end Scaffold.Css
