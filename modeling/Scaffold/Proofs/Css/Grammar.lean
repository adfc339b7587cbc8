import Scaffold.Fragment
import Scaffold.Proofs.Css.Component

/-!
# The grammar of a style sheet

At the top level a style sheet is a sequence of items, told from its components alone: comments,
at-rules up to a semicolon or a block in curly brackets, and style rules up to such a block.
`kinds?` walks over the components and lists the kinds of the items; there is no such list if a
style rule has no block.

Reading a sheet follows this grammar exactly (`parse_follows_grammar`).  Two things make that work.
A cursor moves along the components (`Cursor.components_of_next?`), so the searches for the end of
an item do the same as the walk.  And whatever stands in the block of a style rule, reading it ends
in front of the bracket that closes it: every step inside keeps what stands behind the block
(`Cursor.behindBlock`).
-/

namespace Scaffold.Css

open Scaffold.Text

/-! ## Walking over components -/

/-- A block in curly brackets. -/
def Component.isCurly : Component → Bool
  | .block (.opening .curly) _ _ => true
  | _ => false

/-- A component with which an at-rule ends: a semicolon or a block in curly brackets. -/
def Component.endsAtRule : Component → Bool
  | .token .semicolon => true
  | k => k.isCurly

/-- What is left behind an at-rule; one without an end takes everything. -/
def afterAtRule (ks : List Component) : List Component :=
  (ks.dropWhile fun k => !k.endsAtRule).tail

/-- What is left behind a style rule, which must have a block. -/
def afterStyleRule? (ks : List Component) : Option (List Component) :=
  (ks.dropWhile fun k => !k.isCurly).tail?

theorem length_afterAtRule_le (ks : List Component) : (afterAtRule ks).length ≤ ks.length := by
  have hdrop := (List.dropWhile_sublist (fun k => !Component.endsAtRule k) (l := ks)).length_le
  rw [afterAtRule, List.length_tail]
  omega

theorem length_lt_of_afterStyleRule? {ks rest : List Component}
    (h : afterStyleRule? ks = some rest) : rest.length < ks.length := by
  have hdrop := (List.dropWhile_sublist (fun k => !Component.isCurly k) (l := ks)).length_le
  rw [afterStyleRule?] at h
  cases hks : ks.dropWhile fun k => !Component.isCurly k with
  | nil =>
    rw [hks] at h
    cases h
  | cons k more =>
    rw [hks] at h hdrop
    obtain rfl := Option.some.inj h
    exact hdrop

/-- The kinds of the items that components make up, unless the last one is a style rule without a
block. -/
def kinds? (ks : List Component) : Option (List RuleKind) :=
  match ks with
  | [] => some []
  | .token .space :: ks => kinds? ks
  | .token .commentOpen :: ks => kinds? ks
  | .token .commentClose :: ks => kinds? ks
  | .token (.comment _) :: ks => (kinds? ks).map (.comment :: ·)
  | .token (.atKeyword name) :: ks => (kinds? (afterAtRule ks)).map (.atRule name :: ·)
  | k :: ks =>
    match _h : afterStyleRule? (k :: ks) with
    | none => none
    | some rest => (kinds? rest).map (.style :: ·)
termination_by ks.length
decreasing_by
  · simp
  · simp
  · simp
  · simp
  · exact Nat.lt_succ_of_le (length_afterAtRule_le ks)
  · exact length_lt_of_afterStyleRule? _h

/-! ## The end of an item -/

/-- Only an opening curly bracket leads a block in such brackets. -/
theorem isCurly_ofToken {token : Token} (hcurly : token ≠ .opening .curly) (behind : Text) :
    (Component.ofToken token behind).isCurly = false := by
  cases token with
  | opening b =>
    cases b with
    | curly => exact absurd rfl hcurly
    | _ => rfl
  | _ => rfl

theorem endsAtRule_ofToken {token : Token} (hsemicolon : token ≠ .semicolon)
    (hcurly : token ≠ .opening .curly) (behind : Text) :
    (Component.ofToken token behind).endsAtRule = false := by
  cases token with
  | semicolon => exact absurd rfl hsemicolon
  | _ => exact isCurly_ofToken hcurly behind

/-- A token with which a style rule can start does start one. -/
theorem kinds?_style {token : Token} (hstyle : token.startsStyle = true) (behind : Text)
    (cs : List Component) :
    kinds? (.ofToken token behind :: cs) =
      (afterStyleRule? (.ofToken token behind :: cs)).bind
        fun rest => (kinds? rest).map (.style :: ·) := by
  cases token with
  | space => cases hstyle
  | comment body => cases hstyle
  | commentOpen => cases hstyle
  | commentClose => cases hstyle
  | atKeyword name => cases hstyle
  | _ =>
    simp only [Component.ofToken, Token.opens?]
    rw [kinds?]
    · split <;> simp_all
    all_goals simp

/-- The search for the end of an at-rule moves along the components. -/
theorem components_skipAtRule (c : Cursor) :
    (skipAtRule c).components = afterAtRule c.components := by
  fun_induction skipAtRule c with
  | case1 c h =>
    have hnil := Cursor.components_of_next?_eq_none h
    rw [Cursor.settle, Cursor.components_start, ← Cursor.components, hnil]
    rfl
  | case2 c c' h =>
    rw [Cursor.components_of_next? h]
    rfl
  | case3 c c' h =>
    rw [Cursor.components_of_next? h]
    rfl
  | case4 c token c' hsemicolon hcurly h ih =>
    rw [ih, Cursor.components_of_next? h, afterAtRule, afterAtRule, List.dropWhile_cons_of_pos]
    simp [endsAtRule_ofToken hsemicolon hcurly]

/-- So does the search for the block of a style rule. -/
theorem afterStyleRule?_components (c : Cursor) :
    afterStyleRule? c.components =
      (findBlock? c).map fun found => components (skipBlocks [.curly] found.2) := by
  fun_induction findBlock? c with
  | case1 c h =>
    rw [Cursor.components_of_next?_eq_none h]
    rfl
  | case2 c c' h =>
    have hpending := (Cursor.settled_of_next? h).2
    rw [Cursor.components_of_next? h, Cursor.components, Cursor.settled, hpending]
    rfl
  | case3 c token c' hcurly h ih =>
    rw [← ih, Cursor.components_of_next? h, afterStyleRule?, afterStyleRule?,
      List.dropWhile_cons_of_pos]
    simp [isCurly_ofToken hcurly]

/-! ## Reading a block to its end -/

namespace Cursor

/-- What stands behind the block in curly brackets in which a cursor stands. -/
def behindBlock (c : Cursor) : Text :=
  skipBlocks [.curly] c.settled

theorem behindBlock_settle (c : Cursor) : c.settle.behindBlock = c.behindBlock := by
  rw [settle, behindBlock, settled_start, behindBlock]

/-- A block is over at its closing bracket, so none stands in front of a token that was read within
it. -/
theorem head?_settled_of_nextInBlock? {c c' : Cursor} {token : Token}
    (h : c.nextInBlock? = some (token, c')) : c.settled.head? ≠ some '}' := by
  intro hhead
  rw [nextInBlock?, if_pos hhead] at h
  cases h

/-- A token read in a block is not the bracket that closes it. -/
theorem ne_closing_of_nextInBlock? {c c' : Cursor} {token : Token}
    (h : c.nextInBlock? = some (token, c')) : token ≠ .closing .curly := by
  rintro rfl
  have hlex := (settled_of_next? (next?_of_nextInBlock? h)).1
  have hhead := head?_settled_of_nextInBlock? h
  rw [eq_cons_of_lex hlex rfl] at hhead
  exact hhead rfl

/-- Reading on in a block keeps what stands behind it. -/
theorem behindBlock_of_nextInBlock? {c c' : Cursor} {token : Token}
    (h : c.nextInBlock? = some (token, c')) : c'.behindBlock = c.behindBlock := by
  obtain ⟨hlex, hpending⟩ := settled_of_next? (next?_of_nextInBlock? h)
  rw [behindBlock, settled, hpending, behindBlock]
  cases hopens : token.opens? with
  | none =>
    rw [skipBlocks_single [] hlex (ne_closing_of_nextInBlock? h) hopens, Option.toList_none,
      skipBlocks]
  | some b => rw [skipBlocks_block [] hlex hopens, skipBlocks_cons b [.curly], Option.toList_some]

/-- Where a block ends there is nothing left, or the bracket that closes it. -/
theorem settled_of_nextInBlock?_eq_none {c : Cursor} (h : c.nextInBlock? = none) :
    c.settled.tail = c.behindBlock := by
  rw [behindBlock]
  rw [nextInBlock?] at h
  split at h
  · next hhead =>
    cases ht : c.settled with
    | nil =>
      rw [ht] at hhead
      cases hhead
    | cons d rest =>
      rw [ht] at hhead
      obtain rfl := Option.some.inj hhead
      rw [skipBlocks_closer [] (show lex ('}' :: rest) = some (.closing .curly, rest) from rfl),
        skipBlocks, List.tail_cons]
  · rw [next?] at h
    rw [lex_eq_none_iff.1 (Option.map_eq_none_iff.1 h), skipBlocks_nil]
    rfl

end Cursor

/-- Skipping a malformed item does not leave the block. -/
theorem behindBlock_skipToSemicolon (c : Cursor) :
    (skipToSemicolon c).behindBlock = c.behindBlock := by
  fun_induction skipToSemicolon c with
  | case1 c _ => exact c.behindBlock_settle
  | case2 c c' h => exact Cursor.behindBlock_of_nextInBlock? h
  | case3 c token c' _ h ih => rw [ih, Cursor.behindBlock_of_nextInBlock? h]

/-- Reading the stretches of a value does not leave the block. -/
theorem behindBlock_readChunks (chunk : Text) (c : Cursor) :
    (readChunks chunk c).2.behindBlock = c.behindBlock := by
  fun_induction readChunks chunk c with
  | case1 chunk c _ => exact c.behindBlock_settle
  | case2 chunk c c' h => exact Cursor.behindBlock_of_nextInBlock? h
  | case3 chunk c _ c' h ih => exact ih.trans (Cursor.behindBlock_of_nextInBlock? h)
  | case4 chunk c token c' _ _ h ih => exact ih.trans (Cursor.behindBlock_of_nextInBlock? h)

/-- Reading a value does not leave the block. -/
theorem behindBlock_readValue (c : Cursor) : (readValue c).2.behindBlock = c.behindBlock := by
  fun_induction readValue c with
  | case1 c _ => exact c.behindBlock_settle
  | case2 c c' h ih => exact ih.trans (Cursor.behindBlock_of_nextInBlock? h)
  | case3 c _ c' h ih => exact ih.trans (Cursor.behindBlock_of_nextInBlock? h)
  | case4 c c' h =>
    exact (behindBlock_readChunks _ _).trans (Cursor.behindBlock_of_nextInBlock? h)
  | case5 c c' h => exact Cursor.behindBlock_of_nextInBlock? h
  | case6 c c' h => exact Cursor.behindBlock_of_nextInBlock? h
  | case7 c token c' _ _ _ _ _ h =>
    exact (behindBlock_skipToSemicolon _).trans (Cursor.behindBlock_of_nextInBlock? h)

/-- A block is read up to the bracket that closes it, whatever stands in it. -/
theorem tail_readBlock (c : Cursor) : (readBlock c).2.tail = c.behindBlock := by
  fun_induction readBlock c with
  | case1 c h => exact Cursor.settled_of_nextInBlock?_eq_none h
  | case2 c c' h ih => exact ih.trans (Cursor.behindBlock_of_nextInBlock? h)
  | case3 c c' h ih => exact ih.trans (Cursor.behindBlock_of_nextInBlock? h)
  | case4 c body c' h ih => exact ih.trans (Cursor.behindBlock_of_nextInBlock? h)
  | case5 c name c' h value ih =>
    exact (ih.trans (behindBlock_readValue c')).trans (Cursor.behindBlock_of_nextInBlock? h)
  | case6 c c' h ih => exact ih.trans (Cursor.behindBlock_of_nextInBlock? h)
  | case7 c token c' _ _ _ _ _ h ih =>
    exact (ih.trans (behindBlock_skipToSemicolon c')).trans (Cursor.behindBlock_of_nextInBlock? h)

/-- What is left of a block that was read holds nothing more of it. -/
theorem nextInBlock?_readBlock (c : Cursor) :
    (Cursor.start (readBlock c).2).nextInBlock? = none := by
  fun_induction readBlock c with
  | case1 c h =>
    rw [Cursor.nextInBlock?] at h ⊢
    rw [Cursor.settled_start, Cursor.next?, Cursor.settled_start]
    split at h
    · next hhead => rw [if_pos hhead]
    · next hhead => rw [if_neg hhead]; exact h
  | case2 _ _ _ ih => exact ih
  | case3 _ _ _ ih => exact ih
  | case4 _ _ _ _ ih => exact ih
  | case5 _ _ _ _ _ ih => exact ih
  | case6 _ _ _ ih => exact ih
  | case7 _ _ _ _ _ _ _ _ _ ih => exact ih

/-! ## The items of a sheet -/

/-- The rules of a reading of items, if no style rule lacks a block. -/
def readRules? (reading : List Item × Option Text) : Option (List Rule) :=
  match reading.2 with
  | none => some (reading.1.map Item.rule)
  | some _ => none

/-- An item in front of a reading adds its rule in front. -/
theorem readRules?_cons (item : Item) (reading : List Item × Option Text) :
    readRules? (Prod.map (item :: ·) id reading) =
      (readRules? reading).map (item.rule :: ·) := by
  obtain ⟨items, stop⟩ := reading
  cases stop with
  | none => rfl
  | some stop => rfl

/-- A sheet is read as the rules of its items. -/
theorem toOption_parse (css : Text) :
    (parse css).toOption = readRules? (readItems (.start css)) := by
  rw [parse, read]
  obtain ⟨items, stop⟩ := readItems (.start css)
  cases stop with
  | none => rfl
  | some stop => rfl

theorem map_kind_readRules?_cons (item : Item) (reading : List Item × Option Text) :
    (readRules? (Prod.map (item :: ·) id reading)).map (List.map Rule.kind) =
      ((readRules? reading).map (List.map Rule.kind)).map (item.rule.kind :: ·) := by
  rw [readRules?_cons, Option.map_map, Option.map_map]
  rfl

section Style

variable {c c' : Cursor} {token : Token} (h : c.next? = some (token, c'))
  (hstyle : token.startsStyle = true)
include h hstyle

/-- Where a style rule starts, everything hangs on its block: reading ends if there is none, and
otherwise goes on behind it. -/
theorem readItems_of_startsStyle :
    readItems c = (findBlock? c).elim ([], some c.rest) fun found =>
      Prod.map
        (.style (splitSelectors (upTo c.rest found.1)) (readBlock (.start found.2)).1 :: ·) id
        (readItems (.start (readBlock (.start found.2)).2.tail)) := by
  rw [readItems_eq, h]
  cases token with
  | space => cases hstyle
  | comment body => cases hstyle
  | commentOpen => cases hstyle
  | commentClose => cases hstyle
  | atKeyword name => cases hstyle
  | _ => cases findBlock? c <;> rfl

/-- A style rule without a block ends the reading, and nothing is read of it. -/
theorem readItems_of_findBlock?_eq_none (hfind : findBlock? c = none) :
    readItems c = ([], some c.rest) := by
  rw [readItems_of_startsStyle h hstyle, hfind, Option.elim_none]

/-- A style rule is read up to the end of its block. -/
theorem readItems_of_findBlock? {stop body : Text} (hfind : findBlock? c = some (stop, body)) :
    readItems c =
      Prod.map (.style (splitSelectors (upTo c.rest stop)) (readBlock (.start body)).1 :: ·) id
        (readItems (.start (skipBlocks [.curly] body))) := by
  rw [readItems_of_startsStyle h hstyle, hfind, Option.elim_some, tail_readBlock,
    Cursor.behindBlock, Cursor.settled_start]

end Style

/-- The items that are read from a cursor have the kinds that its components make up. -/
theorem map_kind_readItems (c : Cursor) :
    (readRules? (readItems c)).map (List.map Rule.kind) = kinds? c.components := by
  induction hn : c.rest.length using Nat.strongRecOn generalizing c with
  | _ n ih =>
    cases hnext : c.next? with
    | none =>
      rw [Cursor.components_of_next?_eq_none hnext, kinds?, readItems_eq, hnext]
      rfl
    | some result =>
      obtain ⟨token, c'⟩ := result
      have hshort := Cursor.length_lt_of_next? hnext
      have hcomponents := Cursor.components_of_next? hnext
      have hmore := ih _ (by omega) c' rfl
      -- only a style rule searches for its block; all other items are told by their first token
      by_cases hstyle : token.startsStyle = true
      · have hblock := afterStyleRule?_components c
        rw [hcomponents] at hblock
        rw [hcomponents, kinds?_style hstyle, hblock]
        cases hfind : findBlock? c with
        | none =>
          rw [readItems_of_findBlock?_eq_none hnext hstyle hfind]
          rfl
        | some found =>
          obtain ⟨stop, body⟩ := found
          have hbody := length_lt_of_findBlock? hfind
          have hskip := (skipBlocks_suffix [.curly] body).length_le
          rw [readItems_of_findBlock? hnext hstyle hfind, map_kind_readRules?_cons,
            ih _ (by show (skipBlocks [.curly] body).length < n; omega) _ rfl,
            Cursor.components_start]
          rfl
      · rw [hcomponents, readItems_eq, hnext]
        cases token with
        | space =>
          show _ = kinds? (.token .space :: c'.components)
          rw [kinds?, ← hmore]
        | commentOpen =>
          show _ = kinds? (.token .commentOpen :: c'.components)
          rw [kinds?, ← hmore]
        | commentClose =>
          show _ = kinds? (.token .commentClose :: c'.components)
          rw [kinds?, ← hmore]
        | comment body =>
          show _ = kinds? (.token (.comment body) :: c'.components)
          rw [kinds?, ← hmore]
          exact map_kind_readRules?_cons _ _
        | atKeyword name =>
          have hskip := length_skipAtRule_le c'
          show _ = kinds? (.token (.atKeyword name) :: c'.components)
          rw [kinds?, ← components_skipAtRule, ← ih _ (by omega) (skipAtRule c') rfl]
          exact map_kind_readRules?_cons _ _
        | _ => exact absurd rfl hstyle

/-- Reading a sheet succeeds with the kinds that its components make up. -/
theorem map_kind_parse (css : Text) :
    (parse css).toOption.map (List.map Rule.kind) = kinds? (components css) := by
  rw [toOption_parse, map_kind_readItems, Cursor.components_start]

/-- A sheet is read exactly if its components make up a sequence of items, and then its rules are
of the kinds of these items.  It is refused only for a style rule without a block: no block that
was found is left before its end. -/
theorem parse_follows_grammar (css : Text) :
    ((∃ location, parse css = .error location) ↔ kinds? (components css) = none) ∧
      (∀ rules, parse css = .ok rules → kinds? (components css) = some (rules.map Rule.kind)) ∧
      (∀ e, fragment css = .error e →
        ∃ location, parse css = .error location ∧ e = .missingBlock location) ∧
      ∀ c, (Cursor.start (readBlock c).2).nextInBlock? = none := by
  have hkinds := map_kind_parse css
  refine ⟨?_, ?_, ?_, nextInBlock?_readBlock⟩
  · rw [← hkinds]
    cases parse css with
    | error location => simp [Except.toOption]
    | ok rules => simp [Except.toOption]
  · intro rules hparse
    rw [← hkinds, hparse]
    rfl
  · intro e he
    rw [fragment] at he
    cases hparse : parse css with
    | error location =>
      rw [hparse] at he
      exact ⟨location, rfl, (Except.error.inj he).symm⟩
    | ok rules =>
      rw [hparse] at he
      cases he

end Scaffold.Css
