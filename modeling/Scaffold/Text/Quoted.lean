import Scaffold.Text.Visible

/-!
# Quoted text

A text as it is shown in a message: between double quotes, with the quote, the backslash, the
common controls and every character that is not visible written as an escape.
-/

namespace Scaffold.Text

/-- The digits of a code point in lower-case hexadecimal. -/
def hexDigits (n : Nat) : Text :=
  Nat.toDigits 16 n

/-- A character as it is shown between quotes. -/
def quotedChar (c : Char) : Text :=
  if c = '"' then "\\\"".toList
  else if c = '\\' then "\\\\".toList
  else if c = '\n' then "\\n".toList
  else if c = '\r' then "\\r".toList
  else if c = '\t' then "\\t".toList
  else if c = nul then "\\0".toList
  else if isVisible c then [c]
  else "\\u".toList ++ '{' :: hexDigits c.toNat ++ ['}']

/-- A text as it is shown in a message. -/
def quotedText (t : Text) : Text :=
  '"' :: t.flatMap quotedChar ++ ['"']

end Scaffold.Text
