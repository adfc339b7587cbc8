import Scaffold.Text.Basic

/-!
# Tokens of a style sheet

The lexical units of a style sheet, as coarse as the library needs them: names are kept with
their escapes resolved, the contents of strings, numbers and addresses are not kept, because a
rule takes its texts from the source between two tokens.
-/

namespace Scaffold.Css

/-- The three kinds of brackets that open a block. -/
inductive Bracket where
  | round
  | square
  | curly
  deriving DecidableEq, Repr

/-- A lexical unit of a style sheet. -/
inductive Token where
  | space
  | comment (body : Text)
  | ident (name : Text)
  | atKeyword (name : Text)
  | function (name : Text)
  | hash (name : Text)
  | string
  | badString
  | url
  | badUrl
  | number
  | colon
  | semicolon
  | comma
  /-- The mark that opens a markup comment, which style sheets skip. -/
  | commentOpen
  /-- The mark that closes a markup comment. -/
  | commentClose
  | opening (bracket : Bracket)
  | closing (bracket : Bracket)
  | delim (c : Char)
  deriving DecidableEq, Repr

/-- The bracket whose block a token opens; a function opens a round one. -/
def Token.opens? : Token → Option Bracket
  | .opening b => some b
  | .function _ => some .round
  | _ => none

end Scaffold.Css
