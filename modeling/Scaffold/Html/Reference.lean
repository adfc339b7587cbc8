import Scaffold.Html.Entity
import Scaffold.Text.Basic

/-!
# Character references

What stands behind an ampersand: a number, a name or nothing of the kind.  `reference` resolves
it and returns what is left (`reference_suffix`); an ampersand that starts no reference stands
for itself.
-/

namespace Scaffold.Html

open Scaffold.Text

/-- What the numbers from 80 to 9f, in hexadecimal, stand for: the characters that windows-1252
has in these places, or the control characters of the same number. -/
def windows1252 : List Nat :=
  [0x20AC, 0x81, 0x201A, 0x192, 0x201E, 0x2026, 0x2020, 0x2021, 0x2C6, 0x2030, 0x160, 0x2039,
    0x152, 0x8D, 0x17D, 0x8F, 0x90, 0x2018, 0x2019, 0x201C, 0x201D, 0x2022, 0x2013, 0x2014,
    0x2DC, 0x2122, 0x161, 0x203A, 0x153, 0x9D, 0x17E, 0x178]

/-- The character that a number stands for. -/
def ofNumber (n : Nat) : Char :=
  if n = 0 ∨ ¬ n.isValidChar then replacement
  else if 0x80 ≤ n then Char.ofNat (windows1252.getD (n - 0x80) n)
  else Char.ofNat n

/-- Drops a semicolon, if there is one. -/
def dropSemicolon : Text → Text
  | ';' :: t => t
  | t => t

/-- Reads digits, of which there must be one, and the semicolon behind them. -/
def digits? (base : Nat) (isDigit : Char → Bool) (t : Text) : Option (Char × Text) :=
  if (t.takeWhile isDigit).isEmpty then none
  else some (ofNumber (number base (t.takeWhile isDigit)), dropSemicolon (t.dropWhile isDigit))

/-- Reads a number behind its mark, in hexadecimal behind an `x`. -/
def numeric? : Text → Option (Char × Text)
  | 'x' :: t => digits? 16 isHexDigit t
  | 'X' :: t => digits? 16 isHexDigit t
  | t => digits? 10 Char.isDigit t

/-- Whether the text behind a name goes on as if it were part of a longer word. -/
def goesOn : Text → Bool
  | [] => false
  | c :: _ => c == '=' || c.isAlphanum

/-- Reads the longest name that a text starts with.  In the value of an attribute a name without
a semicolon does not count if the text goes on behind it. -/
def named? (inAttribute : Bool) (t : Text) : Option (Text × Text) :=
  match t with
  | [] => none
  | c :: _ =>
    match (entitiesFrom c).find? fun entity => entity.1.toList.isPrefixOf t with
    | none => none
    | some (name, characters) =>
      let rest := t.drop name.toList.length
      if inAttribute && name.toList.getLast? != some ';' && goesOn rest then none
      else some (characters.toList, rest)

/-- Resolves what stands behind an ampersand. -/
def reference (inAttribute : Bool) (t : Text) : Text × Text :=
  match t with
  | '#' :: rest =>
    match numeric? rest with
    | some (c, rest) => ([c], rest)
    | none => (['&'], t)
  | _ => (named? inAttribute t).getD (['&'], t)

theorem dropSemicolon_suffix (t : Text) : dropSemicolon t <:+ t := by
  unfold dropSemicolon
  split
  · exact List.suffix_cons _ _
  · exact List.suffix_rfl

theorem suffix_of_digits? {base : Nat} {isDigit : Char → Bool} {t rest : Text} {c : Char}
    (h : digits? base isDigit t = some (c, rest)) : rest <:+ t := by
  unfold digits? at h
  split at h
  · cases h
  · obtain ⟨-, rfl⟩ := Prod.mk.inj (Option.some.inj h)
    exact (dropSemicolon_suffix _).trans (List.dropWhile_suffix _)

theorem suffix_of_numeric? {t rest : Text} {c : Char} (h : numeric? t = some (c, rest)) :
    rest <:+ t := by
  unfold numeric? at h
  split at h
  · exact (suffix_of_digits? h).trans (List.suffix_cons _ _)
  · exact (suffix_of_digits? h).trans (List.suffix_cons _ _)
  · exact suffix_of_digits? h

theorem suffix_of_named? {inAttribute : Bool} {t characters rest : Text}
    (h : named? inAttribute t = some (characters, rest)) : rest <:+ t := by
  unfold named? at h
  split at h
  · cases h
  · split at h
    · cases h
    · dsimp only at h
      split at h
      · cases h
      · obtain ⟨-, rfl⟩ := Prod.mk.inj (Option.some.inj h)
        exact List.drop_suffix _ _

theorem reference_suffix (inAttribute : Bool) (t : Text) : (reference inAttribute t).2 <:+ t := by
  unfold reference
  split
  · split
    · next h => exact (suffix_of_numeric? h).trans (List.suffix_cons _ _)
    · exact List.suffix_rfl
  · cases h : named? inAttribute t with
    | none => exact List.suffix_rfl
    | some result => exact suffix_of_named? h

end Scaffold.Html
