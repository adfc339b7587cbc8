import Scaffold.Tag

/-!
# Sketches

A *sketch* is a page drawn as a tree: every node has a tag, perhaps an id, classes and texts
around it.  A sketch can be written down in two ways, as the style sheet that describes the page
(`Sketch.css`) and as the markup of the page itself (`Sketch.markup`).  Both are read off the tree
directly; that the library turns the first into the second is shown in
`Scaffold.Proofs.Sketch.Compile`.

Names and texts carry the proof that they can be written, so every sketch can be.
-/

namespace Scaffold

/-! ## Names and notes -/

/-- The letters with which a plain name starts. -/
def isPlainHead (c : Char) : Bool :=
  'a' ≤ c && c ≤ 'z'

/-- The characters with which a plain name goes on: letters, digits and hyphens. -/
def isPlainChar (c : Char) : Bool :=
  isPlainHead c || ('0' ≤ c && c ≤ '9') || c == '-'

/-- Whether a text is a plain name. -/
def isPlainName : Text → Bool
  | [] => false
  | c :: t => isPlainHead c && t.all isPlainChar

/-- A plain name: a lower-case letter, and lower-case letters, digits and hyphens behind it. -/
structure PlainName where
  text : Text
  plain : isPlainName text = true

/-- A text that can stand in a comment, because it does not end one. -/
structure Note where
  text : Text
  open_ended : ¬ "*/".toList <:+: text

/-! ## Nodes -/

/-- What a node of a sketch says of its element. -/
structure Mark where
  tag : PlainName
  id : Option PlainName
  classes : List PlainName
  before : Option Note
  inside : Option Note
  after : Option Note
  /-- No class stands twice. -/
  distinct : (classes.map PlainName.text).Nodup

/-- A node with the sketches below it. -/
inductive Sketch where
  | node (mark : Mark) (children : List Sketch)

namespace Mark

/-- A mark as the last segment of a selector. -/
def compound (m : Mark) : Text :=
  m.tag.text ++ (m.id.toList.flatMap fun id => '#' :: id.text) ++
    m.classes.flatMap fun name => '.' :: name.text

/-- A comment that gives the text of a place. -/
def remark (label : Text) (note : Option Note) : Text :=
  note.toList.flatMap fun n => "/* ".toList ++ label ++ ": ".toList ++ n.text ++ " */".toList

/-- The comments of a mark, one for each text that it has. -/
def remarks (m : Mark) : Text :=
  remark "text-before".toList m.before ++ remark "text".toList m.inside ++
    remark "text-after".toList m.after

/-- The selector of the last of the given marks, each of which stands below the one before it. -/
def selector (path : List Mark) : Text :=
  " ".toList.intercalate (path.map compound)

/-- The rule of a mark below other marks, the outermost first. -/
def rule (above : List Mark) (m : Mark) : Text :=
  selector (above ++ [m]) ++ " \x7b".toList ++ m.remarks ++ " \x7d".toList

/-- The text of a note, if there is one. -/
def noteText (note : Option Note) : Text :=
  (note.map Note.text).getD []

/-- The opening tag of a mark, which is the whole tag of a void one. -/
def openTag (m : Mark) : Text :=
  "<".toList ++ m.tag.text ++
    (m.id.toList.flatMap fun id => " id=\"".toList ++ id.text ++ "\"".toList) ++
    (if m.classes.isEmpty then []
      else " class=\"".toList ++ " ".toList.intercalate (m.classes.map PlainName.text) ++
        "\"".toList) ++
    (if isVoid m.tag.text then " />".toList else ">".toList)

/-- The closing tag of a mark, which a void one has not. -/
def closeTag (m : Mark) : Text :=
  if isVoid m.tag.text then [] else "</".toList ++ m.tag.text ++ ">".toList

/-- The text behind a mark, with the end of its line. -/
def trailer (m : Mark) : Text :=
  m.after.toList.flatMap fun n => n.text ++ "\n".toList

end Mark

namespace Sketch

/-- The mark of a sketch's topmost node. -/
def mark : Sketch → Mark
  | .node m _ => m

mutual

/-- The rules of a sketch below the given marks, one for each node, parents first. -/
def css (above : List Mark) : Sketch → Text
  | .node m children => m.rule above ++ cssAll (above ++ [m]) children

/-- The rules of a list of sketches, one sketch behind the other. -/
def cssAll (above : List Mark) : List Sketch → Text
  | [] => []
  | s :: ss => s.css above ++ cssAll above ss

end

/-- A new line in front of children, unless text stands before the first of them. -/
def lineBreak : List Sketch → Text
  | [] => []
  | first :: _ => if Mark.noteText first.mark.before = [] then "\n".toList else []

/-- A text as a line of its own. -/
def asLine (t : Text) : Text :=
  if t.getLast? = some '\n' then t else t ++ "\n".toList

mutual

/-- The markup of a sketch. -/
def markup : Sketch → Text
  | .node m children =>
    Mark.noteText m.before ++ m.openTag ++ Mark.noteText m.inside ++
      (lineBreak children ++ markupLines children) ++ m.closeTag ++ m.trailer

/-- The markups of a list of sketches, each on lines of its own. -/
def markupLines : List Sketch → Text
  | [] => []
  | s :: ss => asLine s.markup ++ markupLines ss

end

/-- The style sheet that describes a page. -/
def sheet (roots : List Sketch) : Text :=
  cssAll [] roots

/-- The markup of a page: that of its roots, each with the end of a line behind it. -/
def page (roots : List Sketch) : Text :=
  roots.flatMap fun s => s.markup ++ "\n".toList

end Sketch

end Scaffold
