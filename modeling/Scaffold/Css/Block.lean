import Scaffold.Css.Cursor
import Scaffold.Css.Rule
import Scaffold.Text.Blank

/-!
# Blocks of declarations

A block is read to its end whatever stands in it: what is no declaration is skipped up to the
next semicolon.  `readBlock` lists everything it met, so that what was skipped can be reported;
`declarations` keeps the declarations and comments.
-/

namespace Scaffold.Css

open Scaffold.Text

/-- What a block is found to consist of. -/
inductive BlockItem where
  | declaration (declaration : Declaration)
  /-- A name that no value follows. -/
  | malformed (name : Text)
  /-- A block that stands where a declaration could. -/
  | nested
  deriving DecidableEq, Repr

/-- Skips to the next semicolon of a block, or to its end. -/
def skipToSemicolon (c : Cursor) : Cursor :=
  match _h : c.nextInBlock? with
  | none => c.settle
  | some (.semicolon, c') => c'
  | some (_, c') => skipToSemicolon c'
termination_by c.rest.length
decreasing_by exact Cursor.length_lt_of_nextInBlock? _h

theorem length_skipToSemicolon_le (c : Cursor) :
    (skipToSemicolon c).rest.length ≤ c.rest.length := by
  fun_induction skipToSemicolon c with
  | case1 c _ => exact c.length_settle_le
  | case2 c c' h => exact Nat.le_of_lt (Cursor.length_lt_of_nextInBlock? h)
  | case3 c token c' _ h ih =>
    exact Nat.le_trans ih (Nat.le_of_lt (Cursor.length_lt_of_nextInBlock? h))

/-- Reads a value up to the next semicolon or the end of the block.  Comments are cut out of it;
`chunk` is what was left to read where the text behind the last comment starts. -/
def readChunks (chunk : Text) (c : Cursor) : Text × Cursor :=
  match _h : c.nextInBlock? with
  | none => (upTo chunk c.rest, c.settle)
  | some (.semicolon, c') => (upTo chunk c.rest, c')
  | some (.comment _, c') => Prod.map (upTo chunk c.rest ++ ·) id (readChunks c'.rest c')
  | some (_, c') => readChunks chunk c'
termination_by c.rest.length
decreasing_by all_goals exact Cursor.length_lt_of_nextInBlock? _h

theorem length_readChunks_le (chunk : Text) (c : Cursor) :
    (readChunks chunk c).2.rest.length ≤ c.rest.length := by
  fun_induction readChunks chunk c with
  | case1 chunk c _ => exact c.length_settle_le
  | case2 chunk c c' h => exact Nat.le_of_lt (Cursor.length_lt_of_nextInBlock? h)
  | case3 chunk c _ c' h ih =>
    exact Nat.le_trans ih (Nat.le_of_lt (Cursor.length_lt_of_nextInBlock? h))
  | case4 chunk c token c' _ _ h ih =>
    exact Nat.le_trans ih (Nat.le_of_lt (Cursor.length_lt_of_nextInBlock? h))

/-- Reads what follows the name of a property: a colon and a value, or nothing of use. -/
def readValue (c : Cursor) : Option Text × Cursor :=
  match _h : c.nextInBlock? with
  | none => (none, c.settle)
  | some (.space, c') => readValue c'
  | some (.comment _, c') => readValue c'
  | some (.colon, c') => Prod.map (fun value => some (trim value)) id (readChunks c'.rest c')
  | some (.semicolon, c') => (none, c')
  | some (.opening .curly, c') => (none, c')
  | some (_, c') => (none, skipToSemicolon c')
termination_by c.rest.length
decreasing_by all_goals exact Cursor.length_lt_of_nextInBlock? _h

theorem length_readValue_le (c : Cursor) : (readValue c).2.rest.length ≤ c.rest.length := by
  fun_induction readValue c with
  | case1 c _ => exact c.length_settle_le
  | case2 c c' h ih => exact Nat.le_trans ih (Nat.le_of_lt (Cursor.length_lt_of_nextInBlock? h))
  | case3 c _ c' h ih =>
    exact Nat.le_trans ih (Nat.le_of_lt (Cursor.length_lt_of_nextInBlock? h))
  | case4 c c' h =>
    exact Nat.le_trans (length_readChunks_le _ _)
      (Nat.le_of_lt (Cursor.length_lt_of_nextInBlock? h))
  | case5 c c' h => exact Nat.le_of_lt (Cursor.length_lt_of_nextInBlock? h)
  | case6 c c' h => exact Nat.le_of_lt (Cursor.length_lt_of_nextInBlock? h)
  | case7 c token c' _ _ _ _ _ h =>
    exact Nat.le_trans (length_skipToSemicolon_le _)
      (Nat.le_of_lt (Cursor.length_lt_of_nextInBlock? h))

/-- What a name and what was read behind it amount to. -/
def BlockItem.ofValue (name : Text) : Option Text → BlockItem
  | some value => .declaration (.property name value)
  | none => .malformed name

/-- Reads a block to its end: what it consists of, and what is left, which is empty or starts
with the closing bracket. -/
def readBlock (c : Cursor) : List BlockItem × Text :=
  match _h : c.nextInBlock? with
  | none => ([], c.settled)
  | some (.space, c') => readBlock c'
  | some (.semicolon, c') => readBlock c'
  | some (.comment body, c') =>
    Prod.map (.declaration (.comment body) :: ·) id (readBlock c')
  | some (.ident name, c') =>
    let value := readValue c'
    Prod.map (BlockItem.ofValue name value.1 :: ·) id (readBlock value.2)
  | some (.opening .curly, c') => Prod.map (.nested :: ·) id (readBlock c')
  | some (_, c') => readBlock (skipToSemicolon c')
termination_by c.rest.length
decreasing_by
  all_goals
    have := Cursor.length_lt_of_nextInBlock? _h
    first
      | exact this
      | exact Nat.lt_of_le_of_lt (length_readValue_le _) this
      | exact Nat.lt_of_le_of_lt (length_skipToSemicolon_le _) this

theorem length_readBlock_le (c : Cursor) : (readBlock c).2.length ≤ c.rest.length := by
  fun_induction readBlock c with
  | case1 c _ => exact c.length_settled_le
  | case2 c c' h ih => exact Nat.le_trans ih (Nat.le_of_lt (Cursor.length_lt_of_nextInBlock? h))
  | case3 c c' h ih => exact Nat.le_trans ih (Nat.le_of_lt (Cursor.length_lt_of_nextInBlock? h))
  | case4 c body c' h ih =>
    exact Nat.le_trans ih (Nat.le_of_lt (Cursor.length_lt_of_nextInBlock? h))
  | case5 c name c' h value ih =>
    exact Nat.le_trans ih (Nat.le_trans (length_readValue_le _)
      (Nat.le_of_lt (Cursor.length_lt_of_nextInBlock? h)))
  | case6 c c' h ih => exact Nat.le_trans ih (Nat.le_of_lt (Cursor.length_lt_of_nextInBlock? h))
  | case7 c token c' _ _ _ _ _ h ih =>
    exact Nat.le_trans ih (Nat.le_trans (length_skipToSemicolon_le _)
      (Nat.le_of_lt (Cursor.length_lt_of_nextInBlock? h)))

/-- The declarations and comments among the items of a block. -/
def declarations (items : List BlockItem) : List Declaration :=
  items.filterMap fun
    | .declaration d => some d
    | _ => none

end Scaffold.Css
