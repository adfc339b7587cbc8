import Scaffold.Text.Basic

/-!
# Tags

What the library knows of single tags: which of them never have a closing tag, and whose content
is not read as markup.
-/

namespace Scaffold

/-- The tags that are written without a closing tag. -/
def voidTags : List Text :=
  ["input", "br", "hr", "col", "link", "area", "img", "base", "embed", "keygen", "menuitem",
    "meta", "param", "source", "track", "wbr"].map String.toList

/-- Whether a tag is written without a closing tag. -/
def isVoid (tag : Text) : Bool :=
  voidTags.contains tag

/-- How the content of an element is read when it is not read as markup. -/
inductive Content where
  /-- Text that may hold a comment with script tags of its own. -/
  | script
  /-- Text up to the closing tag. -/
  | raw
  /-- Text up to the closing tag, in which references are resolved. -/
  | escapable
  deriving DecidableEq, Repr

/-- The tags whose content is not read as markup. -/
def contentOf? (tag : Text) : Option Content :=
  if tag = "script".toList then some .script
  else if (["style", "xmp", "iframe", "noembed", "noframes"].map String.toList).contains tag then
    some .raw
  else if (["title", "textarea"].map String.toList).contains tag then some .escapable
  else none

/-- Whether the text of an element is printed as it stands. -/
def printsVerbatim (tag : Text) : Bool :=
  tag == "script".toList || tag == "style".toList

end Scaffold
