import Scaffold.Css.Rule
import Scaffold.Text.Blank

/-!
# Declared attributes

Properties of three families put attributes on an element:

* `--attr-NAME` writes the attribute `NAME`, bare if the value is empty;
* `--data-NAME` writes the attribute `data-NAME` in the same way;
* `--attrs` writes its value as it stands, without the quotes around it.
-/

namespace Scaffold

open Scaffold.Text

/-- The characters that can stand around a value. -/
def isQuote (c : Char) : Bool :=
  c == '"' || c == '\x27' || c == '\x60'

/-- A value without the pair of equal quotes around it, if there is one. -/
def stripQuotes : Text → Text
  | [] => []
  | c :: t => if isQuote c ∧ t.getLast? = some c then t.dropLast else c :: t

/-- The name of the attribute that a property of the first two families writes, which may be
empty.  The family is told by what stands behind the second hyphen. -/
def attributeName? (property : Text) : Option Text :=
  match (property.splitOn '-')[2]? with
  | none => none
  | some family =>
    if family = "attr".toList then "--attr-".toList.isPrefixOf? property
    else if family = "data".toList then "--".toList.isPrefixOf? property
    else none

/-- The property whose value is written as it stands. -/
def verbatimProperty : Text :=
  "--attrs".toList

/-- What a property with its value writes into the tag. -/
def renderAttribute (property value : Text) : Option Text :=
  if property = verbatimProperty then some (stripQuotes value)
  else match attributeName? property with
    | none => none
    | some [] => none
    | some name =>
      if value = [] then some name else some (name ++ "=\"".toList ++ stripQuotes value ++ ['"'])

/-- Whether a property is of a family that writes attributes, but names none. -/
def isNameless (property : Text) : Bool :=
  property != verbatimProperty && attributeName? property == some []

/-- Everything that the properties of a rule write into the tag, each behind a space. -/
def declaredAttributes (rule : Css.Rule) : Text :=
  rule.properties.flatMap fun property =>
    match renderAttribute property.1 property.2 with
    | none => []
    | some written => ' ' :: written

end Scaffold
