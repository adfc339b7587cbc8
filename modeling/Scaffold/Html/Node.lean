import Scaffold.Html.Token.Lexer

/-!
# The tree of a markup text

Elements nest as their tags are written, and nothing else is assumed of them:

* a start tag opens an element inside the innermost open one;
* a void or self-closing tag opens nothing;
* an end tag closes the nearest open element of its name, and what was opened inside it stays
  unclosed;
* an end tag that closes nothing is kept where it stands.
-/

namespace Scaffold.Html

/-- A node of the tree. -/
inductive Node where
  | doctype (name : Text)
  | comment (text : Text)
  | text (text : Text)
  /-- An end tag that closes nothing. -/
  | strayEnd (name : Text)
  | element (name : Text) (attributes : List Attribute) (selfClosing closed : Bool)
      (children : List Node)

/-- An open element, with the nodes that stand before it under the same parent. -/
structure OpenElement where
  name : Text
  attributes : List Attribute
  before : List Node

namespace OpenElement

/-- The nodes of the parent once the element ends with these children. -/
def finish (e : OpenElement) (closed : Bool) (children : List Node) : List Node :=
  e.before ++ [.element e.name e.attributes false closed children]

end OpenElement

/-- A tree in the making: the open elements, the innermost first, and the nodes read so far in
the innermost one. -/
structure Growth where
  stack : List OpenElement
  nodes : List Node

namespace Growth

/-- Adds a node to the innermost open element. -/
def add (g : Growth) (node : Node) : Growth :=
  { g with nodes := g.nodes ++ [node] }

/-- Closes the nearest open element of a name, if there is one. -/
def close? (name : Text) : List OpenElement → List Node → Option Growth
  | [], _ => none
  | e :: stack, nodes =>
    if e.name = name then some { stack, nodes := e.finish true nodes }
    else close? name stack (e.finish false nodes)

/-- Goes on with a token. -/
def step (g : Growth) : Token → Growth
  | .startTag name attributes selfClosing =>
    if selfClosing || isVoid name then g.add (.element name attributes true true [])
    else { stack := { name, attributes, before := g.nodes } :: g.stack, nodes := [] }
  | .endTag name => (close? name g.stack g.nodes).getD (g.add (.strayEnd name))
  | .text text => g.add (.text text)
  | .comment text => g.add (.comment text)
  | .doctype name => g.add (.doctype (name.getD []))
  | .null | .problem _ | .endOfInput => g

/-- The nodes of the whole tree; what is open stays unclosed. -/
def finish (g : Growth) : List Node :=
  g.stack.foldl (fun nodes e => e.finish false nodes) g.nodes

end Growth

/-- The tree of a list of tokens. -/
def ofTokens (tokens : List Token) : List Node :=
  ((Token.tidy tokens).foldl Growth.step { stack := [], nodes := [] }).finish

/-- The tree of a text. -/
def parse (t : Text) : List Node :=
  ofTokens (tokens (prepare t))

/-! ## Walking the tree -/

mutual

/-- The names of the end tags below a node that close nothing, in order. -/
def Node.strayEnds : Node → List Text
  | .strayEnd name => [name]
  | .element _ _ _ _ children => strayEnds children
  | _ => []

/-- The names of the end tags in a list of nodes that close nothing, in order. -/
def strayEnds : List Node → List Text
  | [] => []
  | node :: nodes => node.strayEnds ++ strayEnds nodes

end

end Scaffold.Html
