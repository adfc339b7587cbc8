import Scaffold.Css.Token.Lexer

/-!
# Locations

A place in a style sheet as it is reported: lines and columns count from one, a carriage return
with a line feed behind it ends one line, and columns count UTF-16 units.
-/

namespace Scaffold.Css

open Scaffold.Text

/-- A line and a column, both counted from one. -/
structure Location where
  line : Nat
  column : Nat
  deriving DecidableEq, Repr

namespace Location

/-- Where a text starts. -/
def first : Location := { line := 1, column := 1 }

/-- The location behind a text that starts here. -/
def advance : Location → Text → Location
  | here, [] => here
  | here, '\r' :: '\n' :: t => advance { line := here.line + 1, column := 1 } t
  | here, c :: t =>
    if isNewline c then advance { line := here.line + 1, column := 1 } t
    else advance { here with column := here.column + units16 c } t

/-- The location in `source` where `rest` is left to read. -/
def within (source rest : Text) : Location :=
  first.advance (upTo source rest)

end Location

end Scaffold.Css
