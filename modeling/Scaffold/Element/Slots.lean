import Scaffold.Element.Attributes

/-!
# Texts around an element

An element has three places for text: before it, inside it and after it.  A rule fills them in
two ways.

* The property `--text` lists them, divided by commas: one text is inside, two are inside and
  after, three or more are before, inside and after.  Where it leaves a place empty,
  `--text-before` and `--text-after` fill it; without `--text` they do nothing.
* A comment that starts with a label fills the place of that label.  Comments win over
  properties, and the last one of a label wins.
-/

namespace Scaffold

open Scaffold.Text

/-- A place for text. -/
inductive Slot where
  | before
  | inside
  | after
  deriving DecidableEq, Repr

/-- The texts of an element. -/
structure Slots where
  before : Option Text := none
  inside : Option Text := none
  after : Option Text := none
  deriving DecidableEq, Repr

namespace Slots

/-- The text of a place. -/
def get (slots : Slots) : Slot → Option Text
  | .before => slots.before
  | .inside => slots.inside
  | .after => slots.after

/-- Sets the text of a place, or clears it. -/
def set (slots : Slots) (text : Option Text) : Slot → Slots
  | .before => { slots with before := text }
  | .inside => { slots with inside := text }
  | .after => { slots with after := text }

/-- Fills a place. -/
def put (slots : Slots) (text : Text) (slot : Slot) : Slots :=
  slots.set (some text) slot

@[simp] theorem get_put_self (slots : Slots) (text : Text) (slot : Slot) :
    (slots.put text slot).get slot = some text := by
  cases slot <;> rfl

theorem get_put_of_ne (slots : Slots) (text : Text) {slot other : Slot} (h : other ≠ slot) :
    (slots.put text slot).get other = slots.get other := by
  cases slot <;> cases other <;> first | rfl | exact absurd rfl h

end Slots

/-! ## Labelled comments -/

/-- The labels of comments, each with its place. -/
def labels : List (Text × Slot) :=
  [("text-before:".toList, .before), ("text-after:".toList, .after), ("text:".toList, .inside)]

/-- A text without its last character if that is a space. -/
def dropFinalSpace (t : Text) : Text :=
  if t.getLast? = some ' ' then t.dropLast else t

/-- The place and the text of a labelled comment.  Blanks may stand before the label, whose case
does not matter; one space must follow it, and one at the end is dropped. -/
def labelled? (comment : Text) : Option (Slot × Text) :=
  match labels.findSome? fun label =>
      (dropWord? label.1 (trimStart comment)).map fun rest => (label.2, rest) with
  | some (slot, ' ' :: text) => some (slot, dropFinalSpace text)
  | _ => none

/-! ## The slots of a rule -/

/-- The slots that a list of texts fills. -/
def Slots.ofList : List Text → Slots
  | [] => {}
  | [inside] => { inside := some inside }
  | [inside, after] => { inside := some inside, after := some after }
  | before :: inside :: after :: _ =>
    { before := some before, inside := some inside, after := some after }

/-- The slots that the properties of a rule fill. -/
def declaredSlots (rule : Css.Rule) : Slots :=
  match rule.value? "--text".toList with
  | none => {}
  | some list =>
    let slots := Slots.ofList ((list.splitOn ',').map fun part => stripQuotes (trim part))
    { slots with
      before := slots.before <|> (rule.value? "--text-before".toList).map stripQuotes
      after := slots.after <|> (rule.value? "--text-after".toList).map stripQuotes }

/-- The slots that a rule fills. -/
def Slots.ofRule (rule : Css.Rule) : Slots :=
  rule.comments.foldl
    (fun slots comment =>
      match labelled? comment with
      | none => slots
      | some (slot, text) => slots.put text slot)
    (declaredSlots rule)

end Scaffold
