import Scaffold.Css.Rule

/-!
# Rules that become elements

Only a style rule whose first selector is a path of plain compounds can become an element.  A
pseudo-class, the universal selector and every combinator but the space rule it out.
-/

namespace Scaffold.Css

/-- The characters that a selector must not hold to become an element. -/
def unsupportedChars : Text :=
  ":*+>~|".toList

/-- What becomes of a rule. -/
inductive Verdict where
  | kept
  /-- The rule is no style rule. -/
  | notStyle (kind : RuleKind)
  /-- The rule's selector describes no element. -/
  | unsupported (selector : Text)
  /-- The rule has no selector. -/
  | noSelector
  deriving DecidableEq, Repr

namespace Rule

/-- Decides what becomes of a rule. -/
def verdict (rule : Rule) : Verdict :=
  if rule.kind = .style then
    match rule.selector? with
    | none => .noSelector
    | some selector =>
      if selector.any unsupportedChars.contains then .unsupported selector else .kept
  else .notStyle rule.kind

/-- Whether a rule becomes an element. -/
def isSupported (rule : Rule) : Bool :=
  rule.verdict == .kept

/-- A style rule becomes an element if no character of its selector rules that out. -/
theorem isSupported_style {selector : Text} (h : selector.any unsupportedChars.contains = false)
    (declarations : List Declaration) : (style selector declarations).isSupported = true := by
  have hverdict : (style selector declarations).verdict = .kept := by
    show (if selector.any unsupportedChars.contains then _ else _) = _
    rw [h]
    rfl
  rw [isSupported, hverdict]
  rfl

end Rule

/-- The rules that become elements, in order. -/
def supported (rules : List Rule) : List Rule :=
  rules.filter Rule.isSupported

end Scaffold.Css
