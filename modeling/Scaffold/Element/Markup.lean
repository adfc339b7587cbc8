import Scaffold.Element.Basic

/-!
# Markup of elements

An element is written by a fixed plan of six parts, each of which may be left out: the text
before it, its opening tag, the text inside it, its children, its closing tag and the text after
it.

The markup of an element is fixed when it is first rendered: `Element.render` keeps it, and later
changes to the element do not show.
-/

namespace Scaffold

/-- The six parts of an element's markup, in the order in which they are written. -/
structure Plan where
  before : Option Text
  openTag : Option Text
  inside : Option Text
  children : Option Text
  closeTag : Option Text
  after : Option Text
  deriving DecidableEq, Repr

namespace Plan

/-- The parts in order. -/
def parts (plan : Plan) : List (Option Text) :=
  [plan.before, plan.openTag, plan.inside, plan.children, plan.closeTag, plan.after]

/-- The parts that are not left out, one behind the other. -/
def markup (plan : Plan) : Text :=
  (plan.parts.map fun part => part.getD []).flatten

end Plan

namespace Element

/-- The opening tag, which is also the whole tag of a self-closing element. -/
def openTag (e : Element) : Text :=
  let id := match e.id with
    | none => []
    | some id => " id=\"".toList ++ id ++ ['"']
  let classes :=
    if e.classes.isEmpty then []
    else " class=\"".toList ++ [' '].intercalate e.classes ++ ['"']
  '<' :: e.tag ++ id ++ classes ++ e.attributes ++
    (if e.isSelfClosing then " />".toList else ">".toList)

/-- The closing tag, which a self-closing element has not. -/
def closeTag? (e : Element) : Option Text :=
  if e.isSelfClosing then none else some ("</".toList ++ e.tag ++ ">".toList)

/-- A text with the end of a line behind it, unless it ends in one. -/
def endLine (t : Text) : Text :=
  if t.getLast? = some '\n' then t else t ++ ['\n']

/-- Whether text stands before an element. -/
def hasTextBefore (e : Element) : Bool :=
  e.slots.before.any fun text => !text.isEmpty

/-- The children, each on its own line.  The text before the first child, if there is one, goes
on the line of the opening tag. -/
def childLines (e : Element) (markups : List Text) : Text :=
  (if e.children.head?.any hasTextBefore then [] else ['\n']) ++ markups.flatMap endLine

/-- The plan of an element whose children were rendered as `markups`. -/
def plan (e : Element) (markups : List Text) : Plan where
  before := e.slots.before
  openTag := some e.openTag
  inside := e.slots.inside
  children := if markups.isEmpty then none else some (e.childLines markups)
  closeTag := e.closeTag?
  after := e.slots.after.map fun text => text ++ ['\n']

mutual

/-- The markup of an element, and the element with its markup fixed. -/
def render : Element → Text × Element
  | e@⟨path, tag, id, classes, attributes, slots, children, rendered⟩ =>
    match rendered with
    | some text => (text, e)
    | none =>
      let results := renderAll children
      let text := (e.plan (results.map Prod.fst)).markup
      (text, ⟨path, tag, id, classes, attributes, slots, results.map Prod.snd, some text⟩)

/-- The markups of a list of elements, with their elements. -/
def renderAll : List Element → List (Text × Element)
  | [] => []
  | e :: es => e.render :: renderAll es

end

theorem renderAll_eq_map (es : List Element) : renderAll es = es.map render := by
  induction es with
  | nil => rw [renderAll, List.map_nil]
  | cons e es ih => rw [renderAll, ih, List.map_cons]

theorem render_of_rendered {e : Element} {text : Text} (h : e.rendered = some text) :
    e.render = (text, e) := by
  obtain ⟨path, tag, id, classes, attributes, slots, children, rendered⟩ := e
  obtain rfl : rendered = some text := h
  rw [render]

theorem render_of_unrendered {e : Element} (h : e.rendered = none) :
    e.render =
      ((e.plan (e.children.map fun c => c.render.1)).markup,
        { e with
          children := e.children.map fun c => c.render.2
          rendered := some (e.plan (e.children.map fun c => c.render.1)).markup }) := by
  obtain ⟨path, tag, id, classes, attributes, slots, children, rendered⟩ := e
  obtain rfl : rendered = none := h
  simp [render, renderAll_eq_map, Function.comp_def]

end Element

/-- The markup of the roots of a page, each with the end of a line behind it, and the roots with
their markup fixed. -/
def renderRoots (roots : List Element) : Text × List Element :=
  let results := Element.renderAll roots
  (results.flatMap fun result => result.1 ++ ['\n'], results.map Prod.snd)

theorem renderRoots_append (roots others : List Element) :
    renderRoots (roots ++ others) =
      ((renderRoots roots).1 ++ (renderRoots others).1,
        (renderRoots roots).2 ++ (renderRoots others).2) := by
  simp [renderRoots, Element.renderAll_eq_map]

end Scaffold
