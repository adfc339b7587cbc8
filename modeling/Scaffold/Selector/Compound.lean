import Scaffold.Text.Blank

/-!
# Compound selectors

The last segment of a selector describes one element: a tag and then any number of components,
each an id, a class or an attribute test.  `components` reads the components in the order in
which they are written, and `Compound.ofComponents` gathers them: the last id counts, a class
counts once at its first place, and every attribute test counts.

Whatever is no component is passed over, so every text has a compound.
-/

namespace Scaffold.Selector

open Scaffold.Text

/-- How an attribute's value is compared. -/
inductive Comparison where
  | equals
  | includes
  | dashMatch
  | startsWith
  | endsWith
  | contains
  deriving DecidableEq, Repr

namespace Comparison

/-- A comparison as it is written. -/
def symbol : Comparison → Text
  | .equals => "=".toList
  | .includes => "~=".toList
  | .dashMatch => "|=".toList
  | .startsWith => "^=".toList
  | .endsWith => "$=".toList
  | .contains => "*=".toList

/-- All comparisons. -/
def all : List Comparison :=
  [.equals, .includes, .dashMatch, .startsWith, .endsWith, .contains]

/-- The comparison that is written in this way. -/
def ofSymbol? (symbol : Text) : Option Comparison :=
  all.find? fun c => c.symbol = symbol

end Comparison

/-- One attribute test: a name, and a value that the attribute is compared with. -/
structure AttributeTest where
  name : Text
  value : Option (Comparison × Text)
  deriving DecidableEq, Repr

/-- An attribute test as it lands on the element. -/
def AttributeTest.display (a : AttributeTest) : Text :=
  match a.value with
  | none => a.name
  | some (comparison, value) => a.name ++ comparison.symbol ++ '"' :: value ++ ['"']

/-- One component of a compound selector. -/
inductive Component where
  | id (name : Text)
  | className (name : Text)
  | attr (test : AttributeTest)
  deriving DecidableEq, Repr

/-! ## Reading components -/

/-- A character with which a component starts. -/
def startsComponent (c : Char) : Bool :=
  c == '#' || c == '.' || c == '['

/-- A character of which comparisons are made. -/
def isComparisonChar (c : Char) : Bool :=
  c == '=' || c == '~' || c == '|' || c == '^' || c == '$' || c == '*'

/-- A character that ends the name of an attribute. -/
def endsAttributeName (c : Char) : Bool :=
  c == ']' || isBlank c || isComparisonChar c

/-- A character that ends a value without quotes. -/
def endsBareValue (c : Char) : Bool :=
  c == ']' || isBlank c

/-- What is left behind the first occurrence of a character. -/
def dropThrough (c : Char) (t : Text) : Text :=
  (t.dropWhile fun d => d != c).tail

/-- Reads the value of an attribute test, which may stand in quotes. -/
def readTestValue (t : Text) : Text × Text :=
  match t with
  | [] => ([], [])
  | c :: rest =>
    if c = '"' ∨ c = '\x27' then (rest.takeWhile fun d => d != c, dropThrough c rest)
    else (t.takeWhile fun d => !endsBareValue d, t.dropWhile fun d => !endsBareValue d)

/-- Reads what follows the name of an attribute: a comparison with its value, if there is
one. -/
def readTest (t : Text) : Option (Comparison × Text) × Text :=
  match Comparison.ofSymbol? (t.takeWhile isComparisonChar) with
  | none => (none, t.dropWhile isComparisonChar)
  | some comparison =>
    let value := readTestValue (trimStart (t.dropWhile isComparisonChar))
    (some (comparison, value.1), value.2)

/-- Reads an attribute test behind its opening bracket, and goes on behind the bracket that
closes it.  A test without a name is none. -/
def readAttribute (t : Text) : Option AttributeTest × Text :=
  let t := trimStart t
  let name := t.takeWhile fun c => !endsAttributeName c
  let test := readTest (trimStart (t.dropWhile fun c => !endsAttributeName c))
  (if name.isEmpty then none else some { name, value := test.1 }, dropThrough ']' test.2)

theorem length_dropThrough_le (c : Char) (t : Text) : (dropThrough c t).length ≤ t.length := by
  have := (List.dropWhile_suffix (fun d => d != c) (l := t)).length_le
  simp only [dropThrough, List.length_tail]
  omega

theorem length_readTestValue_le (t : Text) : (readTestValue t).2.length ≤ t.length := by
  unfold readTestValue
  split
  · simp
  · split
    · next c rest _ =>
      have := length_dropThrough_le c rest
      simp only [List.length_cons]
      omega
    · exact (List.dropWhile_suffix _).length_le

theorem length_readTest_le (t : Text) : (readTest t).2.length ≤ t.length := by
  unfold readTest
  split
  · exact (List.dropWhile_suffix _).length_le
  · exact Nat.le_trans (length_readTestValue_le _) <|
      Nat.le_trans (List.dropWhile_suffix _).length_le (List.dropWhile_suffix _).length_le

theorem length_readAttribute_le (t : Text) : (readAttribute t).2.length ≤ t.length :=
  Nat.le_trans (length_dropThrough_le _ _) <| Nat.le_trans (length_readTest_le _) <|
    Nat.le_trans (List.dropWhile_suffix _).length_le <|
      Nat.le_trans (List.dropWhile_suffix _).length_le (List.dropWhile_suffix _).length_le

/-- The component of a kind that a name makes; none if it is empty. -/
def named (make : Text → Component) (name : Text) : List Component :=
  if name.isEmpty then [] else [make name]

/-- Reads the components of a text in order. -/
def components (t : Text) : List Component :=
  match t with
  | [] => []
  | c :: t =>
    if c = '#' then
      named .id (t.takeWhile fun d => !startsComponent d) ++
        components (t.dropWhile fun d => !startsComponent d)
    else if c = '.' then
      named .className (t.takeWhile fun d => !startsComponent d) ++
        components (t.dropWhile fun d => !startsComponent d)
    else if c = '[' then
      (readAttribute t).1.toList.map .attr ++ components (readAttribute t).2
    else components t
termination_by t.length
decreasing_by
  all_goals
    have := (List.dropWhile_suffix (fun d => !startsComponent d) (l := t)).length_le
    have := length_readAttribute_le t
    simp only [List.length_cons]
    omega

/-! ## Compounds -/

/-- What a compound selector says of its element. -/
structure Compound where
  tag : Option Text
  id : Option Text
  classes : List Text
  attributes : List AttributeTest
  deriving DecidableEq, Repr

namespace Compound

/-- The compound of a tag and components in order. -/
def ofComponents (tag : Option Text) (cs : List Component) : Compound where
  tag := tag
  id := (cs.filterMap fun | .id name => some name | _ => none).getLast?
  classes := (cs.filterMap fun | .className name => some name | _ => none).eraseDups
  attributes := cs.filterMap fun | .attr test => some test | _ => none

/-- Reads a compound selector: what stands before the first component is the tag. -/
def parse (t : Text) : Compound :=
  let tag := t.takeWhile fun c => !startsComponent c
  ofComponents (if tag.isEmpty then none else some tag)
    (components (t.dropWhile fun c => !startsComponent c))

end Compound

end Scaffold.Selector
