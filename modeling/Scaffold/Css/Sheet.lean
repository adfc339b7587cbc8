import Scaffold.Css.Block
import Scaffold.Css.Location
import Scaffold.Css.SelectorList

/-!
# Style sheets

`readItems` reads a style sheet from a cursor: the items it could read, and where the one starts
that has no block, if there is such a one.  `parse` gives the rules of a whole text.
-/

namespace Scaffold.Css

open Scaffold.Text

/-- A top-level item, with everything that its block was found to consist of. -/
inductive Item where
  | comment (body : Text)
  | atRule (name : Text)
  | style (selectors : List Text) (items : List BlockItem)
  deriving DecidableEq, Repr

/-- The rule that an item is read as. -/
def Item.rule : Item → Rule
  | .comment body => { kind := .comment, selectors := [], declarations := [.comment body] }
  | .atRule name => { kind := .atRule name, selectors := [], declarations := [] }
  | .style selectors items =>
    { kind := .style, selectors, declarations := declarations items }

/-- Skips an at-rule behind its keyword: it ends with a semicolon or with a block, which is left
pending. -/
def skipAtRule (c : Cursor) : Cursor :=
  match _h : c.next? with
  | none => c.settle
  | some (.semicolon, c') => c'
  | some (.opening .curly, c') => c'
  | some (_, c') => skipAtRule c'
termination_by c.rest.length
decreasing_by exact Cursor.length_lt_of_next? _h

theorem length_skipAtRule_le (c : Cursor) : (skipAtRule c).rest.length ≤ c.rest.length := by
  fun_induction skipAtRule c with
  | case1 c _ => exact c.length_settle_le
  | case2 c c' h => exact Nat.le_of_lt (Cursor.length_lt_of_next? h)
  | case3 c c' h => exact Nat.le_of_lt (Cursor.length_lt_of_next? h)
  | case4 c token c' _ _ h ih =>
    exact Nat.le_trans ih (Nat.le_of_lt (Cursor.length_lt_of_next? h))

/-- Looks for the block of a style rule: what is left to read where the selectors end, and what
is left inside the block. -/
def findBlock? (c : Cursor) : Option (Text × Text) :=
  match _h : c.next? with
  | none => none
  | some (.opening .curly, c') => some (c.rest, c'.rest)
  | some (_, c') => findBlock? c'
termination_by c.rest.length
decreasing_by exact Cursor.length_lt_of_next? _h

theorem length_lt_of_findBlock? {c : Cursor} {stop body : Text}
    (h : findBlock? c = some (stop, body)) : body.length < c.rest.length := by
  fun_induction findBlock? c with
  | case1 => simp at h
  | case2 c c' hn =>
    obtain ⟨-, rfl⟩ := Prod.mk.inj (Option.some.inj h)
    exact Cursor.length_lt_of_next? hn
  | case3 c token c' _ hn ih => exact Nat.lt_trans (ih h) (Cursor.length_lt_of_next? hn)

/-- Reads the items of a sheet.  With the items comes what is left to read at the start of a
style rule without a block; reading ends there. -/
def readItems (c : Cursor) : List Item × Option Text :=
  match _h : c.next? with
  | none => ([], none)
  | some (.space, c') => readItems c'
  | some (.commentOpen, c') => readItems c'
  | some (.commentClose, c') => readItems c'
  | some (.comment body, c') => Prod.map (.comment body :: ·) id (readItems c')
  | some (.atKeyword name, c') => Prod.map (.atRule name :: ·) id (readItems (skipAtRule c'))
  | some (_, _) =>
    match _hb : findBlock? c with
    | none => ([], some c.rest)
    | some (stop, body) =>
      let block := readBlock (.start body)
      Prod.map (.style (splitSelectors (upTo c.rest stop)) block.1 :: ·) id
        (readItems (.start block.2.tail))
termination_by c.rest.length
decreasing_by
  all_goals
    have h := Cursor.length_lt_of_next? _h
    first
      | exact h
      | exact Nat.lt_of_le_of_lt (length_skipAtRule_le _) h
      | refine Nat.lt_of_le_of_lt ?_ (length_lt_of_findBlock? _hb)
        have := length_readBlock_le (.start body)
        simp only [Cursor.start, List.length_tail] at this ⊢
        omega

/-- The items of a text, and where the style rule starts that has no block. -/
def read (source : Text) : List Item × Option Location :=
  Prod.map id (Option.map (Location.within source)) (readItems (.start source))

/-- The rules of a text, or the place where a style rule starts that has no block. -/
def parse (source : Text) : Except Location (List Rule) :=
  match read source with
  | (items, none) => .ok (items.map Item.rule)
  | (_, some location) => .error location

end Scaffold.Css
