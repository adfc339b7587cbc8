import Scaffold.Element.Markup

/-!
# Editing an element

The steps that can be taken on a single element, one after the other, and what each of them
answers.
-/

namespace Scaffold

/-- A step on an element. -/
inductive Edit where
  | render
  /-- Renders the element as the only root of a page. -/
  | renderRoot
  | setTag (tag : Text)
  | setId (id : Option Text)
  | setClasses (classes : List Text)
  | setAttributes (attributes : Text)
  | setText (slot : Slot) (text : Option Text)
  /-- Adds the element of a rule behind the children, if the rule has one. -/
  | addChild (rule : Css.Rule)
  | removeChild (index : Nat)
  | renderChild (index : Nat)
  /-- Asks for the plan with the given markups for the children. -/
  | plan (markups : List Text)
  deriving DecidableEq, Repr

/-- What a step answers. -/
inductive EditAnswer where
  | markup (text : Text)
  /-- The element as it is after the step. -/
  | changed
  | childCount (count : Nat)
  /-- There is no child at the index. -/
  | noChild
  | plan (plan : Plan)
  deriving DecidableEq, Repr

namespace Element

/-- Takes a step on an element. -/
def edit (e : Element) : Edit → EditAnswer × Element
  | .render =>
    let result := e.render
    (.markup result.1, result.2)
  | .renderRoot =>
    let result := renderRoots [e]
    (.markup result.1, result.2.headD e)
  | .setTag tag => (.changed, { e with tag })
  | .setId id => (.changed, { e with id })
  | .setClasses classes => (.changed, { e with classes })
  | .setAttributes attributes => (.changed, { e with attributes })
  | .setText slot text => (.changed, { e with slots := e.slots.set text slot })
  | .addChild rule =>
    let children := e.children ++ (ofRule? rule).toList
    (.childCount children.length, { e with children })
  | .removeChild index =>
    let children := e.children.eraseIdx index
    (.childCount children.length, { e with children })
  | .renderChild index =>
    match e.children[index]? with
    | none => (.noChild, e)
    | some child =>
      let result := child.render
      (.markup result.1, { e with children := e.children.set index result.2 })
  | .plan markups => (.plan (e.plan markups), e)

end Element

end Scaffold
