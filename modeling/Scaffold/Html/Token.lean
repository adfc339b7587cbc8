import Scaffold.Text.Basic

/-!
# Tokens of markup

The lexical units of markup, in the order in which they are written.  `Token.tidy` keeps those
that carry content and joins texts that stand next to each other.
-/

namespace Scaffold.Html

/-- An attribute of a tag; the value of a bare one is empty. -/
structure Attribute where
  name : Text
  value : Text
  deriving DecidableEq, Repr

/-- A lexical unit of markup. -/
inductive Token where
  | startTag (name : Text) (attributes : List Attribute) (selfClosing : Bool)
  | endTag (name : Text)
  | text (text : Text)
  | comment (text : Text)
  | doctype (name : Option Text)
  /-- A null character in ordinary text. -/
  | null
  /-- A remark on markup that is not well formed. -/
  | problem (message : String)
  | endOfInput
  deriving DecidableEq, Repr

namespace Token

/-- Whether a token carries content. -/
def hasContent : Token → Bool
  | .null | .problem _ | .endOfInput => false
  | _ => true

/-- Puts a token in front of others; two texts become one. -/
def join : Token → List Token → List Token
  | .text s, .text t :: tokens => .text (s ++ t) :: tokens
  | token, tokens => token :: tokens

/-- The tokens that carry content, with adjacent texts joined. -/
def tidy (tokens : List Token) : List Token :=
  (tokens.filter hasContent).foldr join []

end Token

end Scaffold.Html
