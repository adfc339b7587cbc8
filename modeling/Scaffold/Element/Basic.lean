import Scaffold.Css.Rule
import Scaffold.Element.Slots
import Scaffold.Selector.Compound
import Scaffold.Selector.Path
import Scaffold.Tag

/-!
# Elements

One element stands for one rule: its selector gives the place in the page, the tag, id, classes
and attribute tests, and its declarations give further attributes and texts.
-/

namespace Scaffold

/-- The tag of an element whose selector names none. -/
def defaultTag : Text :=
  "div".toList

/-- An element of the page, with the elements below it. -/
structure Element where
  path : Selector.Path
  tag : Text
  id : Option Text
  classes : List Text
  /-- The further attributes as they are written, each behind a space. -/
  attributes : Text
  slots : Slots
  children : List Element
  /-- What the element was first rendered as. -/
  rendered : Option Text

namespace Element

/-- The element of a rule; a rule without a selector has none. -/
def ofRule? (rule : Css.Rule) : Option Element :=
  rule.selector?.map fun selector =>
    let path : Selector.Path := { full := selector }
    let compound := Selector.Compound.parse path.own
    { path
      tag := compound.tag.getD defaultTag
      id := compound.id
      classes := compound.classes
      attributes :=
        (compound.attributes.flatMap fun test => ' ' :: test.display) ++ declaredAttributes rule
      slots := Slots.ofRule rule
      children := []
      rendered := none }

/-- The element of a rule is not rendered and has nothing below it. -/
theorem bare_of_ofRule? {rule : Css.Rule} {e : Element} (h : ofRule? rule = some e) :
    e.children = [] ∧ e.rendered = none := by
  obtain ⟨selector, -, rfl⟩ := Option.map_eq_some_iff.1 h
  exact ⟨rfl, rfl⟩

/-- Whether an element is written without a closing tag. -/
def isSelfClosing (e : Element) : Bool :=
  isVoid e.tag

/-- Whether an element was rendered. -/
def isRendered (e : Element) : Bool :=
  e.rendered.isSome

end Element

end Scaffold
