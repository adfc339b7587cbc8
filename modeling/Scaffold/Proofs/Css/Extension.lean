import Scaffold.Proofs.Css.Grammar

/-!
# Reading with more text behind

What a reader makes of a text stays the same when more is written behind the text, as long as the
reader comes to its end before: the text must end in a token of its own (`Whole`), and the blocks
that are open must be closed in it (`Closes`).  Then a reader that starts with more behind its text
ends with more behind what it leaves, and gives the same answer (`readBlock_extend`,
`findBlock?_extend`, `skipAtRule_extend`).

One step of a cursor carries all of this: `Cursor.Inside.next?_extend` and
`Cursor.Inside.nextInBlock?_extend` say that a step is the same with more text behind, and that what
it leaves can be extended again.
-/

namespace Scaffold.Css

open Scaffold.Text

/-! ## Texts that end in a token of their own -/

/-- A token that is one character at which reading stops. -/
def Token.isStop (token : Token) : Bool :=
  token.mark?.any Css.isStop

/-- A text whose last token cannot go on in what follows: a semicolon or a curly bracket. -/
def Whole (t : Text) : Prop :=
  ∀ token ∈ (tokens t).getLast?, token.isStop = true

theorem whole_nil : Whole [] := by
  intro token h
  simp at h

/-- A token that is a stop is one character of the text. -/
theorem eq_cons_of_isStop {t rest : Text} {token : Token} (h : lex t = some (token, rest))
    (hstop : token.isStop = true) : ∃ c, isStop c = true ∧ t = c :: rest := by
  obtain ⟨c, hmark, hc⟩ := (Option.any_eq_true _ _).1 hstop
  exact ⟨c, hc, eq_cons_of_lex h hmark⟩

/-- A character at which reading stops is the same token in front of any text. -/
theorem lex_cons_of_isStop {c : Char} (hc : isStop c = true) {t rest : Text} {token : Token}
    (h : lex (c :: t) = some (token, rest)) (back : Text) :
    lex (c :: back) = some (token, back) := by
  simp only [isStop, Bool.or_eq_true, beq_iff_eq] at hc
  rcases hc with (rfl | rfl) | rfl
  all_goals
    obtain ⟨rfl, rfl⟩ := Prod.mk.inj (Option.some.inj h)
    rfl

theorem tokens_eq_nil_iff {t : Text} : tokens t = [] ↔ t = [] := by
  constructor
  · intro h
    cases hlex : lex t with
    | none => exact lex_eq_none_iff.1 hlex
    | some result =>
      rw [tokens_of_lex hlex] at h
      cases h
  · rintro rfl
    exact tokens_nil

/-- What is left behind a token ends as the text does. -/
theorem Whole.of_lex {t rest : Text} {token : Token} (h : Whole t)
    (hlex : lex t = some (token, rest)) : Whole rest := by
  intro last hlast
  apply h
  rw [tokens_of_lex hlex, List.getLast?_cons, hlast]
  rfl

/-- The last token is one at which reading stops. -/
theorem Whole.isStop_of_lex {t : Text} {token : Token} (h : Whole t)
    (hlex : lex t = some (token, [])) : token.isStop = true := by
  apply h
  rw [tokens_of_lex hlex, tokens_nil]
  rfl

/-- A text that ends in a token of its own ends in a stop. -/
theorem Whole.stops {t : Text} (h : Whole t) (hne : t ≠ []) : Stops t := by
  induction t using lex_induction with
  | nil => exact absurd rfl hne
  | step t token rest hlex ih =>
    by_cases hrest : rest = []
    · subst hrest
      obtain ⟨c, hc, rfl⟩ := eq_cons_of_isStop hlex (h.isStop_of_lex hlex)
      exact stops_singleton.2 hc
    · exact (ih rest (Nat.le_refl _) (h.of_lex hlex) hrest).of_suffix (suffix_of_lex hlex)

/-- The first token of such a text is the same with more behind the text. -/
theorem Whole.lex_append {t rest : Text} {token : Token} (h : Whole t)
    (hlex : lex t = some (token, rest)) (back : Text) :
    lex (t ++ back) = some (token, rest ++ back) := by
  by_cases hrest : rest = []
  · subst hrest
    obtain ⟨c, hc, rfl⟩ := eq_cons_of_isStop hlex (h.isStop_of_lex hlex)
    exact lex_cons_of_isStop hc hlex back
  · exact Css.lex_append hlex ((h.of_lex hlex).stops hrest) back

/-! ## Blocks that are closed -/

/-- A component that does not run into the end of the text. -/
def Component.isClosed : Component → Bool
  | .token _ => true
  | .block _ _ closed => closed

/-- Open blocks, the innermost first, that are all closed by tokens. -/
def Closes : List Bracket → List Token → Prop
  | [], _ => True
  | b :: outer, ts => (group (some b) ts).closed = true ∧ Closes outer (group (some b) ts).rest

theorem not_closes_nil (b : Bracket) (outer : List Bracket) : ¬ Closes (b :: outer) [] := by
  intro h
  have := h.1
  rw [group] at this
  cases this

/-- The bracket that the innermost block waits for closes it. -/
theorem closes_closer (b : Bracket) (outer : List Bracket) (ts : List Token) :
    Closes (b :: outer) (.closing b :: ts) ↔ Closes outer ts := by
  rw [Closes, (group_closer b ts).2.1, (group_closer b ts).2.2]
  simp

/-- A token that opens and closes nothing leaves the open blocks as they are. -/
theorem closes_single {b : Bracket} {token : Token} (hcloser : token ≠ .closing b)
    (hopens : token.opens? = none) (outer : List Bracket) (ts : List Token) :
    Closes (b :: outer) (token :: ts) ↔ Closes (b :: outer) ts := by
  have hmap : (some b).map Token.closing ≠ some token := fun h =>
    hcloser (Option.some.inj h).symm
  rw [Closes, (group_single hmap hopens ts).2.1, (group_single hmap hopens ts).2.2, Closes]

/-- A block that is opened within another is closed before it. -/
theorem closes_block {b b' : Bracket} {token : Token} (hopens : token.opens? = some b')
    (outer : List Bracket) (ts : List Token) :
    Closes (b :: outer) (token :: ts) ↔ Closes (b' :: b :: outer) ts := by
  rw [Closes, (group_block hopens ts).2.1, (group_block hopens ts).2.2, Closes, Closes]
  constructor
  · rintro ⟨hclosed, houter⟩
    refine ⟨?_, hclosed, houter⟩
    cases hinner : (group (some b') ts).closed with
    | true => rfl
    | false =>
      rw [rest_eq_nil_of_not_closed hinner, group] at hclosed
      cases hclosed
  · rintro ⟨-, h⟩
    exact h

theorem Whole.skipBlocks {t : Text} (h : Whole t) (blocks : List Bracket) :
    Whole (skipBlocks blocks t) :=
  skipBlocks_induction whole_nil of_lex blocks h

/-- Blocks that are closed are skipped in the same way with more text behind. -/
theorem skipBlocks_append {blocks : List Bracket} {t : Text} (hwhole : Whole t)
    (hcloses : Closes blocks (tokens t)) (back : Text) :
    skipBlocks blocks (t ++ back) = skipBlocks blocks t ++ back := by
  -- over the tokens; blocks are added and taken off on the way
  induction t using lex_induction generalizing blocks with
  | nil =>
    cases blocks with
    | nil => rw [skipBlocks, skipBlocks]
    | cons b outer =>
      rw [tokens_nil] at hcloses
      exact absurd hcloses (not_closes_nil b outer)
  | step t token rest hlex ih =>
    have hlex' := hwhole.lex_append hlex back
    have hwhole' := hwhole.of_lex hlex
    cases blocks with
    | nil => rw [skipBlocks, skipBlocks]
    | cons b outer =>
      rw [tokens_of_lex hlex] at hcloses
      by_cases hcloser : token = .closing b
      · subst hcloser
        rw [skipBlocks_closer outer hlex, skipBlocks_closer outer hlex',
          ih rest (Nat.le_refl _) hwhole' ((closes_closer b outer _).1 hcloses)]
      cases hopens : token.opens? with
      | none =>
        rw [skipBlocks_single outer hlex hcloser hopens,
          skipBlocks_single outer hlex' hcloser hopens,
          ih rest (Nat.le_refl _) hwhole' ((closes_single hcloser hopens outer _).1 hcloses)]
      | some b' =>
        rw [skipBlocks_block outer hlex hopens, skipBlocks_block outer hlex' hopens,
          ih rest (Nat.le_refl _) hwhole' ((closes_block hopens outer _).1 hcloses)]

/-! ## Cursors with more text behind -/

namespace Cursor

/-- A cursor with more text behind what is left to read. -/
def extend (c : Cursor) (back : Text) : Cursor :=
  { c with rest := c.rest ++ back }

/-- A cursor that stands in open blocks, the innermost first, in a text that closes its pending
block and all of them and ends in a token of its own. -/
structure Inside (c : Cursor) (blocks : List Bracket) : Prop where
  whole : Whole c.rest
  closes : Closes (c.pending.toList ++ blocks) (tokens c.rest)

namespace Inside

variable {c c' : Cursor} {token : Token} {blocks : List Bracket}

theorem whole_settled (h : c.Inside blocks) : Whole c.settled :=
  h.whole.skipBlocks _

theorem closes_settled (h : c.Inside blocks) : Closes blocks (tokens c.settled) := by
  have hcloses := h.closes
  rw [settled]
  cases hpending : c.pending with
  | none =>
    rw [hpending] at hcloses
    rw [Option.toList_none, skipBlocks]
    exact hcloses
  | some b =>
    rw [hpending] at hcloses
    rw [Option.toList_some, tokens_skipBlocks]
    exact hcloses.2

theorem settle (h : c.Inside blocks) : c.settle.Inside blocks :=
  ⟨h.whole_settled, h.closes_settled⟩

/-- The text behind is still there once the pending block is skipped: the block is closed before it.
-/
theorem settled_extend (h : c.Inside blocks) (back : Text) :
    (c.extend back).settled = c.settled ++ back := by
  have hcloses : Closes c.pending.toList (tokens c.rest) := by
    have := h.closes
    cases hpending : c.pending with
    | none => trivial
    | some b =>
      rw [hpending] at this
      exact ⟨this.1, trivial⟩
  exact skipBlocks_append h.whole hcloses back

theorem settle_extend (h : c.Inside blocks) (back : Text) :
    (c.extend back).settle = c.settle.extend back := by
  rw [Cursor.settle, h.settled_extend]
  rfl

/-- A step of a cursor is the same with more text behind. -/
theorem next?_extend (h : c.Inside blocks) (hnext : c.next? = some (token, c')) (back : Text) :
    (c.extend back).next? = some (token, c'.extend back) := by
  obtain ⟨hlex, hpending⟩ := settled_of_next? hnext
  rw [next?, h.settled_extend, h.whole_settled.lex_append hlex back, extend, hpending]
  rfl

/-- At the top level a cursor goes on if what it read is a closed component. -/
theorem of_next? (h : c.Inside []) (hnext : c.next? = some (token, c'))
    (hclosed : (Component.ofToken token c'.rest).isClosed = true) : c'.Inside [] := by
  obtain ⟨hlex, hpending⟩ := settled_of_next? hnext
  refine ⟨h.whole_settled.of_lex hlex, ?_⟩
  rw [hpending]
  cases hopens : token.opens? with
  | none => trivial
  | some b =>
    rw [Component.ofToken, hopens] at hclosed
    exact ⟨hclosed, trivial⟩

/-- In a block a cursor goes on whatever it read. -/
theorem of_nextInBlock? (h : c.Inside [.curly]) (hnext : c.nextInBlock? = some (token, c')) :
    c'.Inside [.curly] := by
  obtain ⟨hlex, hpending⟩ := settled_of_next? (next?_of_nextInBlock? hnext)
  refine ⟨h.whole_settled.of_lex hlex, ?_⟩
  have hcloses := h.closes_settled
  rw [tokens_of_lex hlex] at hcloses
  rw [hpending]
  cases hopens : token.opens? with
  | none => exact (closes_single (ne_closing_of_nextInBlock? hnext) hopens [] _).1 hcloses
  | some b => exact (closes_block hopens [] _).1 hcloses

theorem settled_ne_nil (h : c.Inside [.curly]) : c.settled ≠ [] := by
  intro hnil
  have hcloses := h.closes_settled
  rw [hnil, tokens_nil] at hcloses
  exact not_closes_nil _ _ hcloses

/-- A step within a block is the same with more text behind. -/
theorem nextInBlock?_extend (h : c.Inside [.curly]) (back : Text) :
    (c.extend back).nextInBlock? =
      c.nextInBlock?.map fun result => (result.1, result.2.extend back) := by
  have hhead : (c.settled ++ back).head? = c.settled.head? :=
    List.head?_append_of_ne_nil _ h.settled_ne_nil
  rw [nextInBlock?, h.settled_extend, hhead, nextInBlock?]
  split
  · rfl
  · rcases c.next?_cases with ⟨hnil, -⟩ | ⟨token, rest, -, hnext⟩
    · exact absurd hnil h.settled_ne_nil
    · rw [hnext, h.next?_extend hnext]
      rfl

end Inside

end Cursor

/-! ## Readers of a block -/

section Block

variable {c : Cursor} (h : c.Inside [.curly]) (back : Text)
include h

omit h in
/-- A stretch of text does not change with what is written behind its end. -/
theorem upTo_append_append (start stop : Text) :
    upTo (start ++ back) (stop ++ back) = upTo start stop := by
  have hlength : start.length + back.length - (stop.length + back.length) =
      start.length - stop.length := by omega
  rw [upTo, List.length_append, List.length_append, hlength,
    List.take_append_of_le_length (Nat.sub_le _ _), upTo]

/-- Skipping a malformed item is the same with more text behind. -/
theorem skipToSemicolon_extend :
    skipToSemicolon (c.extend back) = (skipToSemicolon c).extend back ∧
      (skipToSemicolon c).Inside [.curly] := by
  fun_induction skipToSemicolon c with
  | case1 c hnext =>
    rw [skipToSemicolon_eq, h.nextInBlock?_extend, hnext]
    exact ⟨h.settle_extend back, h.settle⟩
  | case2 c c' hnext =>
    rw [skipToSemicolon_eq, h.nextInBlock?_extend, hnext]
    exact ⟨rfl, h.of_nextInBlock? hnext⟩
  | case3 c token c' hsemicolon hnext ih =>
    rw [skipToSemicolon_eq, h.nextInBlock?_extend, hnext]
    simpa using ih (h.of_nextInBlock? hnext)

/-- Reading the stretches of a value is the same with more text behind. -/
theorem readChunks_extend (chunk : Text) :
    readChunks (chunk ++ back) (c.extend back) =
        ((readChunks chunk c).1, (readChunks chunk c).2.extend back) ∧
      (readChunks chunk c).2.Inside [.curly] := by
  fun_induction readChunks chunk c with
  | case1 chunk c hnext =>
    rw [readChunks_eq, h.nextInBlock?_extend, hnext]
    exact ⟨Prod.ext (upTo_append_append back chunk c.rest) (h.settle_extend back), h.settle⟩
  | case2 chunk c c' hnext =>
    rw [readChunks_eq, h.nextInBlock?_extend, hnext]
    exact ⟨Prod.ext (upTo_append_append back chunk c.rest) rfl, h.of_nextInBlock? hnext⟩
  | case3 chunk c body c' hnext ih =>
    obtain ⟨hread, hinside⟩ := ih (h.of_nextInBlock? hnext)
    rw [readChunks_eq, h.nextInBlock?_extend, hnext]
    refine ⟨?_, hinside⟩
    show Prod.map (upTo (chunk ++ back) (c.rest ++ back) ++ ·) id
      (readChunks (c'.rest ++ back) (c'.extend back)) = _
    rw [upTo_append_append, hread]
    rfl
  | case4 chunk c token c' hsemicolon hcomment hnext ih =>
    rw [readChunks_eq, h.nextInBlock?_extend, hnext]
    simpa using ih (h.of_nextInBlock? hnext)

/-- Reading a value is the same with more text behind. -/
theorem readValue_extend :
    readValue (c.extend back) = ((readValue c).1, (readValue c).2.extend back) ∧
      (readValue c).2.Inside [.curly] := by
  fun_induction readValue c with
  | case1 c hnext =>
    rw [readValue_eq, h.nextInBlock?_extend, hnext]
    exact ⟨Prod.ext rfl (h.settle_extend back), h.settle⟩
  | case2 c c' hnext ih =>
    rw [readValue_eq, h.nextInBlock?_extend, hnext]
    exact ih (h.of_nextInBlock? hnext)
  | case3 c body c' hnext ih =>
    rw [readValue_eq, h.nextInBlock?_extend, hnext]
    exact ih (h.of_nextInBlock? hnext)
  | case4 c c' hnext =>
    obtain ⟨hread, hinside⟩ := readChunks_extend (h.of_nextInBlock? hnext) back c'.rest
    rw [readValue_eq, h.nextInBlock?_extend, hnext]
    refine ⟨?_, hinside⟩
    exact congrArg (Prod.map (fun value => some (trim value)) id) hread
  | case5 c c' hnext =>
    rw [readValue_eq, h.nextInBlock?_extend, hnext]
    exact ⟨rfl, h.of_nextInBlock? hnext⟩
  | case6 c c' hnext =>
    rw [readValue_eq, h.nextInBlock?_extend, hnext]
    exact ⟨rfl, h.of_nextInBlock? hnext⟩
  | case7 c token c' hspace hcomment hcolon hsemicolon hcurly hnext =>
    have hskip := skipToSemicolon_extend (h.of_nextInBlock? hnext) back
    rw [readValue_eq, h.nextInBlock?_extend, hnext]
    simp [hskip]

/-- A block that is closed in a text is read in the same way with more behind the text. -/
theorem readBlock_extend :
    readBlock (c.extend back) = ((readBlock c).1, (readBlock c).2 ++ back) := by
  fun_induction readBlock c with
  | case1 c hnext =>
    rw [readBlock_eq, h.nextInBlock?_extend, hnext]
    exact Prod.ext rfl (h.settled_extend back)
  | case2 c c' hnext ih =>
    rw [readBlock_eq, h.nextInBlock?_extend, hnext]
    exact ih (h.of_nextInBlock? hnext)
  | case3 c c' hnext ih =>
    rw [readBlock_eq, h.nextInBlock?_extend, hnext]
    exact ih (h.of_nextInBlock? hnext)
  | case4 c body c' hnext ih =>
    rw [readBlock_eq, h.nextInBlock?_extend, hnext]
    exact congrArg (Prod.map (.declaration (.comment body) :: ·) id) (ih (h.of_nextInBlock? hnext))
  | case5 c name c' hnext value ih =>
    obtain ⟨hvalue, hinside⟩ := readValue_extend (h.of_nextInBlock? hnext) back
    rw [readBlock_eq, h.nextInBlock?_extend, hnext]
    simp only [Option.map_some, hvalue]
    exact congrArg (Prod.map (BlockItem.ofValue name value.1 :: ·) id) (ih hinside)
  | case6 c c' hnext ih =>
    rw [readBlock_eq, h.nextInBlock?_extend, hnext]
    exact congrArg (Prod.map (.nested :: ·) id) (ih (h.of_nextInBlock? hnext))
  | case7 c token c' hspace hsemicolon hcomment hident hcurly hnext ih =>
    obtain ⟨hskip, hinside⟩ := skipToSemicolon_extend (h.of_nextInBlock? hnext) back
    rw [readBlock_eq, h.nextInBlock?_extend, hnext]
    simp [hskip, ih hinside]

end Block

/-! ## Readers of the top level -/

/-- A cursor at the top level of a text that can be extended: all components in front of it are
closed. -/
structure Cursor.Complete (c : Cursor) : Prop where
  inside : c.Inside []
  closed : ∀ k ∈ c.components, k.isClosed = true

theorem Cursor.Complete.of_next? {c c' : Cursor} {token : Token} (h : c.Complete)
    (hnext : c.next? = some (token, c')) : c'.Complete := by
  have hclosed := h.closed
  rw [components_of_next? hnext] at hclosed
  refine ⟨h.inside.of_next? hnext (hclosed _ (List.mem_cons_self ..)), ?_⟩
  intro k hk
  exact hclosed k (List.mem_cons_of_mem _ hk)

section TopLevel

variable {c : Cursor} (h : c.Complete) (back : Text)
include h

/-- The block of a style rule is found in the same way with more text behind, and it is closed. -/
theorem findBlock?_extend {stop body : Text} (hfind : findBlock? c = some (stop, body)) :
    findBlock? (c.extend back) = some (stop ++ back, body ++ back) ∧
      (Cursor.start body).Inside [.curly] := by
  fun_induction findBlock? c with
  | case1 => cases hfind
  | case2 c c' hnext =>
    obtain ⟨rfl, rfl⟩ := Prod.mk.inj (Option.some.inj hfind)
    have hinside := (h.of_next? hnext).inside
    have hpending := (Cursor.settled_of_next? hnext).2
    rw [findBlock?_eq, h.inside.next?_extend hnext]
    refine ⟨rfl, hinside.whole, ?_⟩
    have hcloses := hinside.closes
    rw [hpending] at hcloses
    exact hcloses
  | case3 c token c' hcurly hnext ih =>
    rw [findBlock?_eq, h.inside.next?_extend hnext]
    simpa using ih (h.of_next? hnext) hfind

/-- An at-rule that ends within a text is skipped in the same way with more behind the text. -/
theorem skipAtRule_extend (hend : c.components.any Component.endsAtRule = true) :
    skipAtRule (c.extend back) = (skipAtRule c).extend back ∧ (skipAtRule c).Complete := by
  fun_induction skipAtRule c with
  | case1 c hnext =>
    rw [Cursor.components_of_next?_eq_none hnext] at hend
    cases hend
  | case2 c c' hnext =>
    rw [skipAtRule_eq, h.inside.next?_extend hnext]
    exact ⟨rfl, h.of_next? hnext⟩
  | case3 c c' hnext =>
    rw [skipAtRule_eq, h.inside.next?_extend hnext]
    exact ⟨rfl, h.of_next? hnext⟩
  | case4 c token c' hsemicolon hcurly hnext ih =>
    rw [Cursor.components_of_next? hnext, List.any_cons, endsAtRule_ofToken hsemicolon hcurly,
      Bool.false_or] at hend
    rw [skipAtRule_eq, h.inside.next?_extend hnext]
    simpa using ih (h.of_next? hnext) hend

end TopLevel

end Scaffold.Css
