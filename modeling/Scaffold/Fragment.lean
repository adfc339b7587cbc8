import Scaffold.Css.Sheet
import Scaffold.Css.Support
import Scaffold.Element.Forest
import Scaffold.Element.Markup
import Scaffold.Error
import Scaffold.Log

/-!
# Fragments

The fragment of a style sheet is the markup of the page that it describes: the rules that can
become elements do, the elements are nested, and the roots are rendered.  A sheet that describes
no root has no fragment, which is not the same as an empty one.
-/

namespace Scaffold

/-- The elements of the rules that become elements, in order. -/
def elements (rules : List Css.Rule) : List Element :=
  (Css.supported rules).filterMap Element.ofRule?

theorem elements_append (rules others : List Css.Rule) :
    elements (rules ++ others) = elements rules ++ elements others := by
  simp only [elements, Css.supported, List.filter_append, List.filterMap_append]

/-- The markup of the page that rules describe. -/
def page? (rules : List Css.Rule) : Option Text :=
  match nest (elements rules) with
  | [] => none
  | roots => some (renderRoots roots).1

/-- The fragment of a style sheet, if it describes one. -/
def fragment (css : Text) : Except Error (Option Text) :=
  match Css.parse css with
  | .ok rules => .ok (page? rules)
  | .error location => .error (.missingBlock location)

/-! ## Remarks -/

/-- What is remarked on the items of a block. -/
def blockLog (items : List Css.BlockItem) : List LogEntry :=
  items.filterMap fun
    | .declaration _ => none
    | .malformed name =>
      some ⟨.debug, s!"skipping malformed declaration `{String.ofList name}`"⟩
    | .nested => some ⟨.debug, "skipping nested block"⟩

/-- What is remarked on a top-level item. -/
def itemLog : Css.Item → List LogEntry
  | .style _ items => blockLog items
  | _ => []

/-- How a kind of rule is shown. -/
def Css.RuleKind.shown : Css.RuleKind → String
  | .style => "Style"
  | .comment => "Comment"
  | .atRule name => s!"At({String.ofList (Text.quotedText name)})"

/-- What is remarked on a rule that does not become an element. -/
def verdictLog (rule : Css.Rule) : List LogEntry :=
  match rule.verdict with
  | .notStyle kind => [⟨.debug, s!"dropping non-style rule {kind.shown}"⟩]
  | .unsupported selector =>
    [⟨.debug, s!"dropping rule with unsupported selector `{String.ofList selector}`"⟩]
  | .kept | .noSelector => []

/-- What is remarked on the properties of a rule that becomes an element. -/
def attributeLog (rule : Css.Rule) : List LogEntry :=
  (rule.properties.filter fun property => isNameless property.1).map fun property =>
    ⟨.debug, s!"ignoring attribute property without a name: `{String.ofList property.1}`"⟩

/-- What is remarked on an element that is lost. -/
def orphanLog (e : Element) : LogEntry :=
  let full := String.ofList e.path.full
  let parent := String.ofList e.path.parent
  ⟨.warn, s!"`{full}` has no preceding `{parent}` rule to nest under; it is not rendered"⟩

/-- What is remarked while the page of rules is built. -/
def pageLog (rules : List Css.Rule) : List LogEntry :=
  let kept := Css.supported rules
  rules.flatMap verdictLog ++
    kept.map (fun rule => ⟨.trace, s!"compiling rule {String.ofList rule.display}"⟩) ++
    kept.flatMap attributeLog ++
    (orphans (elements rules)).map orphanLog ++
    (if (nest (elements rules)).isEmpty then [⟨.debug, "no elements to render"⟩] else [])

/-- What is remarked while the fragment of a style sheet is made. -/
def fragmentLog (css : Text) : List LogEntry :=
  match Css.read css with
  | (items, some _) => items.flatMap itemLog
  | (items, none) =>
    items.flatMap itemLog ++ [⟨.debug, s!"parsed {items.length} top-level rules"⟩] ++
      (if items.isEmpty then [] else pageLog (items.map Css.Item.rule))

end Scaffold
