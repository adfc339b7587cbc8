/-!
# Text

Everything the library reads or writes is a list of characters: recursion on it is
structural, and a position in a text is simply what is left to read.  This file holds the
operations that every other module shares: the stretch between two positions, the sizes of a
text in bytes and in UTF-16 units, and the case folding of ASCII letters.
-/

namespace Scaffold

/-- A text is the list of its characters. -/
abbrev Text := List Char

namespace Text

/-- The character that stands for one that cannot be kept. -/
def replacement : Char := '\ufffd'

/-- The null character, which no reader takes for an ordinary one. -/
def nul : Char := '\x00'

/-! ## Positions -/

/-- The stretch of `start` in front of its suffix `stop`. -/
def upTo (start stop : Text) : Text :=
  start.take (start.length - stop.length)

theorem upTo_append (stretch stop : Text) : upTo (stretch ++ stop) stop = stretch := by
  simp [upTo]

@[simp] theorem upTo_self (t : Text) : upTo t t = [] := by
  simp [upTo]

/-! ## Sizes -/

/-- How many bytes a text takes in UTF-8. -/
def byteSize : Text → Nat
  | [] => 0
  | c :: t => c.utf8Size + byteSize t

@[simp] theorem byteSize_append (s t : Text) : byteSize (s ++ t) = byteSize s + byteSize t := by
  induction s with
  | nil => simp [byteSize]
  | cons c s ih => simp only [List.cons_append, byteSize, ih, Nat.add_assoc]

/-- How many UTF-16 units a character takes. -/
def units16 (c : Char) : Nat :=
  if c.toNat < 0x10000 then 1 else 2

/-! ## ASCII letters and digits -/

/-- The lower-case form of a text, for ASCII letters only. -/
def lower (t : Text) : Text :=
  t.map Char.toLower

/-- What follows `word` at the front of a text, ASCII case aside. -/
def dropWord? : (word : Text) → Text → Option Text
  | [], t => some t
  | _ :: _, [] => none
  | w :: word, c :: t => if w.toLower = c.toLower then dropWord? word t else none

theorem dropWord?_append_of_lower_eq {word front : Text} (h : lower front = lower word)
    (rest : Text) : dropWord? word (front ++ rest) = some rest := by
  induction word generalizing front with
  | nil =>
    obtain rfl : front = [] := List.map_eq_nil_iff.1 h
    rfl
  | cons w word ih =>
    cases front with
    | nil => cases h
    | cons c front =>
      simp only [lower, List.map_cons, List.cons.injEq] at h
      rw [List.cons_append, dropWord?, if_pos h.1.symm]
      exact ih h.2

theorem exists_of_dropWord? {word t rest : Text} (h : dropWord? word t = some rest) :
    ∃ front, t = front ++ rest ∧ lower front = lower word := by
  induction word generalizing t with
  | nil =>
    obtain rfl := Option.some.inj h
    exact ⟨[], rfl, rfl⟩
  | cons w word ih =>
    cases t with
    | nil => cases h
    | cons c t =>
      rw [dropWord?] at h
      split at h
      · next hw =>
        obtain ⟨front, rfl, hfront⟩ := ih h
        refine ⟨c :: front, rfl, ?_⟩
        simpa [lower, hw] using hfront
      · cases h

/-- The value of a hexadecimal digit; zero for any other character. -/
def hexDigit (c : Char) : Nat :=
  if '0' ≤ c ∧ c ≤ '9' then c.toNat - '0'.toNat
  else if 'a' ≤ c ∧ c ≤ 'f' then c.toNat - 'a'.toNat + 10
  else if 'A' ≤ c ∧ c ≤ 'F' then c.toNat - 'A'.toNat + 10
  else 0

/-- Hexadecimal digits are the decimal ones and the letters up to `f`, in either case. -/
def isHexDigit (c : Char) : Bool :=
  c.isDigit || ('a' ≤ c && c ≤ 'f') || ('A' ≤ c && c ≤ 'F')

/-- The number that a run of digits stands for in a base, most significant digit first. -/
def number (base : Nat) (digits : Text) : Nat :=
  digits.foldl (fun n c => base * n + hexDigit c) 0

end Text

end Scaffold
