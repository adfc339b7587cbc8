import Scaffold.Proofs.Css.Lexing

/-!
# Component values

The tokens of a style sheet group into *components*: single tokens, and blocks that run from an
opening bracket or a function to the matching closing bracket, or to the end if there is none.  A
closing bracket that matches no innermost block is a component like any other.  No token is lost
(`flattenAll_components`).

`group` reads components by recursion, as the grammar is usually given.  The readers of a sheet
never build them: they keep a pending block and skip it when they go on.  The two views agree
(`Cursor.components_of_next?`): reading a token with a cursor takes one component off what the
cursor has in front of it, the whole block if the token opens one.
-/

namespace Scaffold.Css

open Scaffold.Text

/-! ## Tokens and components -/

/-- The tokens of a text. -/
def tokens (t : Text) : List Token :=
  match _h : lex t with
  | none => []
  | some (token, rest) => token :: tokens rest
termination_by t.length
decreasing_by exact length_lt_of_lex _h

/-- A token that stands alone, or a block with the token that opens it. -/
inductive Component where
  | token (token : Token)
  /-- A block; it is closed by its bracket, or left open at the end of the text. -/
  | block (opener : Token) (content : List Component) (closed : Bool)

/-- The components up to a closing bracket, whether the bracket was found, and the tokens behind
it, of which there are at most `bound`. -/
structure Grouped (bound : Nat) where
  components : List Component
  closed : Bool
  rest : List Token
  length_rest_le : rest.length ≤ bound

/-- Reads components up to the closing bracket of the kind `closer`, or to the end. -/
def group (closer : Option Bracket) : (ts : List Token) → Grouped ts.length
  | [] => ⟨[], false, [], Nat.le_refl 0⟩
  | token :: ts =>
    if closer.map Token.closing = some token then ⟨[], true, ts, Nat.le_succ _⟩
    else match token.opens? with
      | none =>
        let more := group closer ts
        ⟨.token token :: more.components, more.closed, more.rest,
          Nat.le_succ_of_le more.length_rest_le⟩
      | some b =>
        let inner := group (some b) ts
        let more := group closer inner.rest
        ⟨.block token inner.components inner.closed :: more.components, more.closed, more.rest,
          Nat.le_succ_of_le (Nat.le_trans more.length_rest_le inner.length_rest_le)⟩
termination_by ts => ts.length
decreasing_by
  · simp
  · simp
  · exact Nat.lt_succ_of_le (Grouped.length_rest_le _)

/-- The components of a text. -/
def components (t : Text) : List Component :=
  (group none (tokens t)).components

/-! ## Reading tokens -/

@[simp] theorem tokens_nil : tokens [] = [] := by
  rw [tokens]
  rfl

theorem tokens_of_lex {t rest : Text} {token : Token} (h : lex t = some (token, rest)) :
    tokens t = token :: tokens rest := by
  rw [tokens]
  split <;> simp_all

/-- The bracket that is looked for ends the components. -/
theorem group_closer (b : Bracket) (ts : List Token) :
    (group (some b) (.closing b :: ts)).components = [] ∧
      (group (some b) (.closing b :: ts)).closed = true ∧
      (group (some b) (.closing b :: ts)).rest = ts := by
  rw [group]
  simp

/-- A token that opens and closes nothing is a component by itself. -/
theorem group_single {closer : Option Bracket} {token : Token}
    (hcloser : closer.map Token.closing ≠ some token) (hopens : token.opens? = none)
    (ts : List Token) :
    (group closer (token :: ts)).components = .token token :: (group closer ts).components ∧
      (group closer (token :: ts)).closed = (group closer ts).closed ∧
      (group closer (token :: ts)).rest = (group closer ts).rest := by
  rw [group]
  simp [hcloser, hopens]

/-- A token that opens a block takes all of the block with it. -/
theorem group_block {closer : Option Bracket} {token : Token} {b : Bracket}
    (hopens : token.opens? = some b) (ts : List Token) :
    (group closer (token :: ts)).components =
        .block token (group (some b) ts).components (group (some b) ts).closed ::
          (group closer (group (some b) ts).rest).components ∧
      (group closer (token :: ts)).closed = (group closer (group (some b) ts).rest).closed ∧
      (group closer (token :: ts)).rest = (group closer (group (some b) ts).rest).rest := by
  have hcloser : closer.map Token.closing ≠ some token := by
    intro h
    obtain ⟨b', -, rfl⟩ := Option.map_eq_some_iff.1 h
    cases hopens
  rw [group]
  simp [hcloser, hopens]

mutual

/-- The tokens that a component consists of. -/
def Component.flatten : Component → List Token
  | .token t => [t]
  | .block opener content closed =>
    opener :: Component.flattenAll content ++
      if closed then (opener.opens?.map Token.closing).toList else []

/-- The tokens that components consist of, one component after the other. -/
def Component.flattenAll : List Component → List Token
  | [] => []
  | k :: ks => k.flatten ++ Component.flattenAll ks

end

/-- Grouping loses no token. -/
theorem flattenAll_group (closer : Option Bracket) (ts : List Token) :
    Component.flattenAll (group closer ts).components ++
        (if (group closer ts).closed then (closer.map Token.closing).toList else []) ++
        (group closer ts).rest = ts := by
  fun_induction group closer ts with
  | case1 => rfl
  | case2 closer token ts hcloser =>
    rw [hcloser]
    rfl
  | case3 closer token ts hcloser hopens more ih =>
    simp only [Component.flattenAll, Component.flatten, List.cons_append, List.nil_append]
    exact congrArg (token :: ·) ih
  | case4 closer token ts hcloser b hopens inner more ihinner ihmore =>
    have hinner : Component.flattenAll inner.components ++
        ((if inner.closed then [Token.closing b] else []) ++ inner.rest) = ts := by
      rw [← List.append_assoc]
      exact ihinner
    simp only [Component.flattenAll, Component.flatten, hopens, List.cons_append,
      List.append_assoc] at ihmore ⊢
    rw [ihmore]
    exact congrArg (token :: ·) hinner

/-- Where its bracket is missing, a block runs to the end. -/
theorem rest_eq_nil_of_not_closed {closer : Option Bracket} {ts : List Token}
    (h : (group closer ts).closed = false) : (group closer ts).rest = [] := by
  fun_induction group closer ts with
  | case1 => rfl
  | case2 => cases h
  | case3 _ _ _ _ _ _ ih => exact ih h
  | case4 _ _ _ _ _ _ inner more _ ih _ => exact ih h

/-- Outside blocks there is no bracket to wait for. -/
theorem not_closed_of_none {closer : Option Bracket} (h : closer = none) (ts : List Token) :
    (group closer ts).closed = false := by
  fun_induction group closer ts with
  | case1 => rfl
  | case2 closer token ts hcloser =>
    rw [h] at hcloser
    cases hcloser
  | case3 _ _ _ _ _ _ ih => exact ih h
  | case4 _ _ _ _ _ _ inner more _ ih => exact ih h

/-- The components of a text consist of all its tokens. -/
theorem flattenAll_components (t : Text) : Component.flattenAll (components t) = tokens t := by
  have hopen := not_closed_of_none rfl (tokens t)
  have hflat := flattenAll_group none (tokens t)
  rw [hopen, rest_eq_nil_of_not_closed hopen] at hflat
  simpa [components] using hflat

/-- A text is read token by token, so that what holds of a text when it holds of all that is shorter
than what is left behind its first token holds of every text. -/
theorem lex_induction {motive : Text → Prop} (nil : motive [])
    (step : ∀ t token rest, lex t = some (token, rest) →
      (∀ u, u.length ≤ rest.length → motive u) → motive t) (t : Text) : motive t := by
  induction hn : t.length using Nat.strongRecOn generalizing t with
  | _ n ih =>
    cases hlex : lex t with
    | none =>
      rw [lex_eq_none_iff.1 hlex]
      exact nil
    | some result =>
      obtain ⟨token, rest⟩ := result
      apply step t token rest hlex
      intro u hu
      have := length_lt_of_lex hlex
      exact ih u.length (by omega) u rfl

/-! ## Skipping blocks -/

theorem skipBlocks_nil (blocks : List Bracket) : skipBlocks blocks [] = [] := by
  cases blocks with
  | nil => rw [skipBlocks]
  | cons b outer =>
    rw [skipBlocks_eq]
    rfl

section Skipping

variable {t rest : Text} {token : Token} {b b' : Bracket} (outer : List Bracket)

theorem skipBlocks_closer (h : lex t = some (.closing b, rest)) :
    skipBlocks (b :: outer) t = skipBlocks outer rest := by
  rw [skipBlocks_eq, h]
  simp

theorem skipBlocks_single (h : lex t = some (token, rest)) (hcloser : token ≠ .closing b)
    (hopens : token.opens? = none) : skipBlocks (b :: outer) t = skipBlocks (b :: outer) rest := by
  rw [skipBlocks_eq, h]
  cases token with
  | closing b' =>
    have hb : b' ≠ b := by
      rintro rfl
      exact hcloser rfl
    simp [hb]
  | _ => simp [hopens]

theorem skipBlocks_block (h : lex t = some (token, rest)) (hopens : token.opens? = some b') :
    skipBlocks (b :: outer) t = skipBlocks (b' :: b :: outer) rest := by
  rw [skipBlocks_eq, h]
  cases token with
  | closing b' => cases hopens
  | _ => simp [hopens]

end Skipping

/-- Blocks are skipped one after the other, the innermost first. -/
theorem skipBlocks_cons (b : Bracket) (outer : List Bracket) (t : Text) :
    skipBlocks (b :: outer) t = skipBlocks outer (skipBlocks [b] t) := by
  induction t using lex_induction generalizing b outer with
  | nil => rw [skipBlocks_nil, skipBlocks_nil, skipBlocks_nil]
  | step t token rest hlex ih =>
    by_cases hcloser : token = .closing b
    · subst hcloser
      rw [skipBlocks_closer outer hlex, skipBlocks_closer [] hlex, skipBlocks]
    cases hopens : token.opens? with
    | none =>
      rw [skipBlocks_single outer hlex hcloser hopens, skipBlocks_single [] hlex hcloser hopens,
        ih rest (Nat.le_refl _)]
    | some b' =>
      have hshort := (skipBlocks_suffix [b'] rest).length_le
      rw [skipBlocks_block outer hlex hopens, skipBlocks_block [] hlex hopens,
        ih rest (Nat.le_refl _) b' (b :: outer), ih _ hshort,
        ih rest (Nat.le_refl _) b' [b]]

/-- Skipping a block leaves the tokens that stand behind it. -/
theorem tokens_skipBlocks (b : Bracket) (t : Text) :
    tokens (skipBlocks [b] t) = (group (some b) (tokens t)).rest := by
  induction t using lex_induction generalizing b with
  | nil =>
    rw [skipBlocks_nil, tokens_nil, group]
  | step t token rest hlex ih =>
    rw [tokens_of_lex hlex]
    by_cases hcloser : token = .closing b
    · subst hcloser
      rw [skipBlocks_closer [] hlex, skipBlocks, (group_closer b (tokens rest)).2.2]
    have hmap : (some b).map Token.closing ≠ some token := fun h =>
      hcloser (Option.some.inj h).symm
    cases hopens : token.opens? with
    | none =>
      rw [skipBlocks_single [] hlex hcloser hopens, ih rest (Nat.le_refl _),
        (group_single hmap hopens (tokens rest)).2.2]
    | some b' =>
      -- the inner block is skipped first, and the rest of the outer one behind it
      have hshort := (skipBlocks_suffix [b'] rest).length_le
      rw [skipBlocks_block [] hlex hopens, skipBlocks_cons, ih _ hshort,
        ih rest (Nat.le_refl _), (group_block hopens (tokens rest)).2.2]

/-! ## Components in front of a cursor -/

/-- The component that a token leads: itself, or the block that it opens in front of `behind`. -/
def Component.ofToken (token : Token) (behind : Text) : Component :=
  match token.opens? with
  | none => .token token
  | some b =>
    .block token (group (some b) (tokens behind)).components (group (some b) (tokens behind)).closed

namespace Cursor

/-- The components that a cursor has in front of it. -/
def components (c : Cursor) : List Component :=
  Css.components c.settled

@[simp] theorem components_start (t : Text) : (start t).components = Css.components t := by
  rw [components, settled_start]

/-- What a cursor has behind the next token when it goes on. -/
theorem next?_cases (c : Cursor) :
    (c.settled = [] ∧ c.next? = none) ∨
      ∃ token rest, lex c.settled = some (token, rest) ∧
        c.next? = some (token, { rest, pending := token.opens? }) := by
  rw [next?]
  cases hlex : lex c.settled with
  | none => exact Or.inl ⟨lex_eq_none_iff.1 hlex, rfl⟩
  | some result => exact Or.inr ⟨result.1, result.2, rfl, rfl⟩

/-- A cursor reads the token behind its pending block, and the block that this one opens becomes
pending. -/
theorem settled_of_next? {c c' : Cursor} {token : Token} (h : c.next? = some (token, c')) :
    lex c.settled = some (token, c'.rest) ∧ c'.pending = token.opens? := by
  rcases c.next?_cases with ⟨-, hnone⟩ | ⟨token', rest, hlex, hnext⟩
  · rw [hnone] at h
    cases h
  · rw [hnext] at h
    obtain ⟨rfl, rfl⟩ := Prod.mk.inj (Option.some.inj h)
    exact ⟨hlex, rfl⟩

theorem components_of_next?_eq_none {c : Cursor} (h : c.next? = none) : c.components = [] := by
  rcases c.next?_cases with ⟨hsettled, -⟩ | ⟨token, rest, -, hnext⟩
  · rw [components, hsettled, Css.components, tokens_nil, group]
  · rw [hnext] at h
    cases h

/-- Reading a token takes one component off, the whole block if the token opens one. -/
theorem components_of_next? {c c' : Cursor} {token : Token} (h : c.next? = some (token, c')) :
    c.components = .ofToken token c'.rest :: c'.components := by
  obtain ⟨hlex, hpending⟩ := settled_of_next? h
  rw [components, Css.components, tokens_of_lex hlex, Component.ofToken, components, settled,
    hpending, Css.components]
  cases hopens : token.opens? with
  | none => rw [(group_single (by simp) hopens _).1, Option.toList_none, skipBlocks]
  | some b => rw [(group_block hopens _).1, Option.toList_some, tokens_skipBlocks]

end Cursor

end Scaffold.Css
