import Scaffold.Html.Node
import Scaffold.Text.Blank

/-!
# Layout

Markup is laid out with one node on a line and two spaces for each level.  Tags stay where they
were written; none is added or dropped.  Text is trimmed line by line and escaped again, except
where it is printed as it stands.  An element that holds at most one line of text stays on one
line.
-/

namespace Scaffold.Html

open Scaffold.Text

/-! ## Pieces of a line -/

/-- A line at a depth. -/
def line (depth : Nat) (t : Text) : Text :=
  (List.replicate depth "  ".toList).flatten ++ t ++ ['\n']

/-- A character of ordinary text as it is written. -/
def escapeTextChar (c : Char) : Text :=
  if c = '&' then "&amp;".toList
  else if c = '<' then "&lt;".toList
  else if c = '>' then "&gt;".toList
  else [c]

/-- Ordinary text as it is written. -/
def escapeText (t : Text) : Text :=
  t.flatMap escapeTextChar

/-- A character of an attribute's value as it is written. -/
def escapeValueChar (c : Char) : Text :=
  if c = '&' then "&amp;".toList
  else if c = '"' then "&quot;".toList
  else [c]

/-- The value of an attribute as it is written. -/
def escapeValue (t : Text) : Text :=
  t.flatMap escapeValueChar

/-- An attribute behind a space, bare if its value is empty. -/
def Attribute.layout (a : Attribute) : Text :=
  ' ' :: a.name ++
    if a.value.isEmpty then [] else "=\"".toList ++ escapeValue a.value ++ ['"']

/-- A tag up to its closing bracket. -/
def openTag (name : Text) (attributes : List Attribute) : Text :=
  '<' :: name ++ attributes.flatMap Attribute.layout

/-- A closing tag. -/
def closeTag (name : Text) : Text :=
  "</".toList ++ name ++ ['>']

/-- Text as it is written, in an element that prints it as it stands or not. -/
def written (verbatim : Bool) (t : Text) : Text :=
  if verbatim then t else escapeText t

/-- The text of nodes that are all text. -/
def plainText? : List Node → Option Text
  | [] => some []
  | .text t :: nodes => (plainText? nodes).map (t ++ ·)
  | _ :: _ => none

/-- The content of an element that fits on the line of its tags: text of at most one line. -/
def inlineText? (verbatim : Bool) (children : List Node) : Option Text :=
  match plainText? children with
  | none => none
  | some t => if (trim t).contains '\n' then none else some (written verbatim (trim t))

/-! ## Nodes -/

mutual

/-- The lines of a node at a depth. -/
def Node.layout (depth : Nat) (verbatim : Bool) : Node → Text
  | .doctype name => line depth ("<!doctype ".toList ++ name ++ ['>'])
  | .comment t => line depth ("<!--".toList ++ t ++ "-->".toList)
  | .strayEnd name => line depth (closeTag name)
  | .text t => (trimmedLines t).flatMap fun l => line depth (written verbatim l)
  | .element name attributes selfClosing closed children =>
    if selfClosing then line depth (openTag name attributes ++ " />".toList)
    else
      match if closed then inlineText? (printsVerbatim name) children else none with
      | some t => line depth (openTag name attributes ++ '>' :: t ++ closeTag name)
      | none =>
        line depth (openTag name attributes ++ ['>']) ++
          layoutAll (depth + 1) (printsVerbatim name) children ++
          if closed then line depth (closeTag name) else []

/-- The lines of a list of nodes at a depth. -/
def layoutAll (depth : Nat) (verbatim : Bool) : List Node → Text
  | [] => []
  | node :: nodes => node.layout depth verbatim ++ layoutAll depth verbatim nodes

end

/-- Lays out the nodes of a whole text. -/
def layout (nodes : List Node) : Text :=
  layoutAll 0 false nodes

/-- Lays out a text. -/
def format (t : Text) : Text :=
  layout (parse t)

end Scaffold.Html
