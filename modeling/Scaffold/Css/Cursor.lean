import Scaffold.Css.Token.Lexer

/-!
# Cursors

A *cursor* is a place in a style sheet: what is left to read, and the block that the last token
opened, if it opened one.  The block is skipped when the next token is asked for and not before,
so a cursor taken behind an opening bracket stands just behind that bracket.

`Cursor.next?` reads at the top level of a sheet.  `Cursor.nextInBlock?` reads inside a block in
curly brackets and stops before the bracket that closes it.
-/

namespace Scaffold.Css

/-- Skips to the end of the innermost of the given open blocks and of all around it.  A closing
bracket of another kind than the innermost block's is passed over. -/
def skipBlocks (blocks : List Bracket) (t : Text) : Text :=
  match blocks with
  | [] => t
  | b :: outer =>
    match _h : lex t with
    | none => []
    | some (.closing b', rest) =>
      if b' = b then skipBlocks outer rest else skipBlocks (b :: outer) rest
    | some (token, rest) => skipBlocks (token.opens?.toList ++ b :: outer) rest
termination_by t.length
decreasing_by all_goals exact length_lt_of_lex _h

/-- What holds of a text, of what every token leaves of such a text and of nothing holds of what is
left behind blocks. -/
theorem skipBlocks_induction {p : Text → Prop} (hnil : p [])
    (hlex : ∀ {t rest : Text} {token : Token}, p t → lex t = some (token, rest) → p rest)
    (blocks : List Bracket) {t : Text} (h : p t) : p (skipBlocks blocks t) := by
  fun_induction skipBlocks blocks t with
  | case1 => exact h
  | case2 => exact hnil
  | case3 t b outer rest hnext ih => exact ih (hlex h hnext)
  | case4 t b outer b' rest hnext _ ih => exact ih (hlex h hnext)
  | case5 t b outer token rest _ hnext ih => exact ih (hlex h hnext)

theorem skipBlocks_suffix (blocks : List Bracket) (t : Text) : skipBlocks blocks t <:+ t :=
  skipBlocks_induction (p := (· <:+ t)) List.nil_suffix
    (fun h hlex => (suffix_of_lex hlex).trans h) blocks List.suffix_rfl

/-- A place in a style sheet. -/
structure Cursor where
  /-- What is left to read. -/
  rest : Text
  /-- The block that was opened by the last token and is still to be skipped. -/
  pending : Option Bracket := none
  deriving DecidableEq, Repr

namespace Cursor

/-- The cursor at the start of a text. -/
def start (t : Text) : Cursor := { rest := t }

/-- What is left to read once the pending block is skipped. -/
def settled (c : Cursor) : Text :=
  skipBlocks c.pending.toList c.rest

/-- The cursor behind the pending block. -/
def settle (c : Cursor) : Cursor := start c.settled

/-- Reads the next token of a sheet. -/
def next? (c : Cursor) : Option (Token × Cursor) :=
  (lex c.settled).map fun (token, rest) => (token, { rest, pending := token.opens? })

/-- Reads the next token of a block; there is none before the bracket that closes it. -/
def nextInBlock? (c : Cursor) : Option (Token × Cursor) :=
  if c.settled.head? = some '}' then none else c.next?

theorem length_settled_le (c : Cursor) : c.settled.length ≤ c.rest.length :=
  (skipBlocks_suffix _ _).length_le

theorem length_settle_le (c : Cursor) : c.settle.rest.length ≤ c.rest.length :=
  (skipBlocks_suffix _ _).length_le

/-- Reading a token moves the cursor forward. -/
theorem length_lt_of_next? {c c' : Cursor} {token : Token} (h : c.next? = some (token, c')) :
    c'.rest.length < c.rest.length := by
  obtain ⟨⟨token', rest⟩, hlex, heq⟩ := Option.map_eq_some_iff.1 h
  obtain ⟨rfl, rfl⟩ := Prod.mk.inj heq
  exact Nat.lt_of_lt_of_le (length_lt_of_lex hlex) c.length_settled_le

theorem next?_of_nextInBlock? {c c' : Cursor} {token : Token}
    (h : c.nextInBlock? = some (token, c')) : c.next? = some (token, c') := by
  unfold nextInBlock? at h
  split at h
  · simp at h
  · exact h

theorem length_lt_of_nextInBlock? {c c' : Cursor} {token : Token}
    (h : c.nextInBlock? = some (token, c')) : c'.rest.length < c.rest.length :=
  length_lt_of_next? (next?_of_nextInBlock? h)

end Cursor

end Scaffold.Css
