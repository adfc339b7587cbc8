import Scaffold.Text.Basic

/-!
# Blank characters

A character is *blank* when it has the Unicode property White_Space.  The twenty-five of them
are wider than the whitespace of style sheets and of markup: no-break spaces and the line
separator are blank, the zero-width space is not.  Trimming takes the blanks off a text or off its
lines.
-/

namespace Scaffold.Text

/-- The Unicode property White_Space. -/
def isBlank (c : Char) : Bool :=
  let n := c.toNat
  (0x09 ≤ n && n ≤ 0x0D) || n == 0x20 || n == 0x85 || n == 0xA0 || n == 0x1680 ||
    (0x2000 ≤ n && n ≤ 0x200A) || n == 0x2028 || n == 0x2029 || n == 0x202F || n == 0x205F ||
    n == 0x3000

/-- A text without its leading blanks. -/
def trimStart (t : Text) : Text :=
  t.dropWhile isBlank

/-- A text without its trailing blanks. -/
def trimEnd (t : Text) : Text :=
  (t.reverse.dropWhile isBlank).reverse

/-- A text without the blanks at its two ends. -/
def trim (t : Text) : Text :=
  trimEnd (trimStart t)

@[simp] theorem trim_nil : trim [] = [] := rfl

/-- The lines of a text, each trimmed; lines with nothing on them are left out. -/
def trimmedLines (t : Text) : List Text :=
  ((t.splitOn '\n').map trim).filter (fun line => !line.isEmpty)

end Scaffold.Text
