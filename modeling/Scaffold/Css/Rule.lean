import Scaffold.Text.Basic

/-!
# Rules

A style sheet is a list of rules in the order in which they are written.  Selectors, values and
the bodies of comments are kept as texts; `Rule.display` writes a rule on one line.
-/

namespace Scaffold.Css

/-- What a top-level item of a sheet is. -/
inductive RuleKind where
  /-- Selectors and a block of declarations. -/
  | style
  /-- A rule that starts with an at-keyword of this name; its body is not kept. -/
  | atRule (name : Text)
  /-- A comment between rules. -/
  | comment
  deriving DecidableEq, Repr

/-- One entry of a block. -/
inductive Declaration where
  /-- A property with its value as written, quotes included. -/
  | property (name value : Text)
  /-- The body of a comment, without its marks. -/
  | comment (body : Text)
  deriving DecidableEq, Repr

/-- A top-level item of a sheet. -/
structure Rule where
  kind : RuleKind
  selectors : List Text
  declarations : List Declaration
  deriving DecidableEq, Repr

namespace Rule

/-- A style rule with one selector. -/
def style (selector : Text) (declarations : List Declaration) : Rule where
  kind := .style
  selectors := [selector]
  declarations := declarations

/-- The selector that a rule stands for: its first. -/
def selector? (rule : Rule) : Option Text :=
  rule.selectors.head?

/-- The properties of a rule with their values, in block order. -/
def properties (rule : Rule) : List (Text × Text) :=
  rule.declarations.filterMap fun
    | .property name value => some (name, value)
    | .comment _ => none

/-- The comments of a rule, in block order. -/
def comments (rule : Rule) : List Text :=
  rule.declarations.filterMap fun
    | .property _ _ => none
    | .comment body => some body

/-- The first value of a property. -/
def value? (rule : Rule) (name : Text) : Option Text :=
  (rule.properties.find? fun property => property.1 = name).map Prod.snd

end Rule

/-- A declaration as it is written on the line of its rule. -/
def Declaration.display : Declaration → Text
  | .property name value => ' ' :: name ++ ": ".toList ++ value ++ ";".toList
  | .comment body => " /*".toList ++ body ++ "*/".toList

/-- What stands before the bracket of a rule, with a space behind it. -/
def Rule.head (rule : Rule) : Text :=
  match rule.kind with
  | .style => ", ".toList.intercalate rule.selectors ++ " ".toList
  | .atRule name => '@' :: name ++ " ".toList
  | .comment => []

/-- A rule on one line. -/
def Rule.display (rule : Rule) : Text :=
  rule.head ++ '{' :: rule.declarations.flatMap Declaration.display ++ " \x7d".toList

end Scaffold.Css
