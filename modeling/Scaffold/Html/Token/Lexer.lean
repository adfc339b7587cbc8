import Scaffold.Html.Token.Content

/-!
# Reading markup

`tokens` reads a text that `prepare` made ready: without a byte order mark in front, and with
line feeds for all line ends.  Every text is read to its end.  A bracket that starts no tag and an
ampersand that starts no reference stand for themselves.
-/

namespace Scaffold.Html

open Scaffold.Text

/-! ## Making a text ready -/

/-- Writes every line end as a line feed. -/
def lineFeeds : Text → Text
  | [] => []
  | '\r' :: '\n' :: t => '\n' :: lineFeeds t
  | c :: t => (if c = '\r' then '\n' else c) :: lineFeeds t

/-- Drops one byte order mark. -/
def dropMark : Text → Text
  | '\ufeff' :: t => t
  | t => t

/-- Makes a text ready to be read. -/
def prepare (t : Text) : Text :=
  lineFeeds (dropMark t)

/-! ## Behind an opening bracket -/

/-- Reads up to the closing bracket as a comment. -/
def bogusComment (t : Text) : List Token × Text :=
  ([.comment ((t.takeWhile fun c => c != '>').map kept)], (t.dropWhile fun c => c != '>').tail)

/-- Reads a document type behind its keyword.  Only its name counts. -/
def doctype (t : Text) : List Token × Text :=
  let t := t.dropWhile isSpace
  let name := t.takeWhile fun c => !(isSpace c || c == '>')
  ([.doctype (if name.isEmpty then none else some (name.map nameChar))],
    (t.dropWhile fun c => c != '>').tail)

/-- Reads what follows a bracket and an exclamation mark. -/
def declaration (t : Text) : List Token × Text :=
  match t with
  | '-' :: '-' :: t => Prod.map (fun text => [.comment text]) id (readComment .start t)
  | t =>
    match dropWord? "doctype".toList t with
    | some t => doctype t
    | none => bogusComment t

/-- What is remarked on a tag that is still open at the end. -/
def openTagProblem : Token :=
  .problem "eof-in-tag"

/-- Reads what follows a bracket and a slash. -/
def endTag (t : Text) : List Token × Text :=
  match t with
  | [] => ([.text "</".toList], [])
  | '>' :: t => ([], t)
  | c :: _ =>
    if c.isAlpha then
      match readTag? t with
      | none => ([openTagProblem], [])
      | some tag => ([.endTag tag.name], tag.rest)
    else bogusComment t

/-- Reads a start tag, and the content of the element if it is not read as markup. -/
def startTag (t : Text) : List Token × Text :=
  match readTag? t with
  | none => ([openTagProblem], [])
  | some tag =>
    let token := Token.startTag tag.name tag.attributes tag.selfClosing
    if tag.selfClosing || isVoid tag.name then ([token], tag.rest)
    else match contentOf? tag.name with
      | none => ([token], tag.rest)
      | some content =>
        Prod.map (fun text => token :: if text.isEmpty then [] else [.text text]) id
          (readContent content tag.name tag.rest)

/-- Reads what follows an opening bracket. -/
def markup (t : Text) : List Token × Text :=
  match t with
  | [] => ([.text ['<']], [])
  | '!' :: t => declaration t
  | '/' :: t => endTag t
  | '?' :: _ => bogusComment t
  | c :: _ => if c.isAlpha then startTag t else ([.text ['<']], t)

theorem bogusComment_suffix (t : Text) : (bogusComment t).2 <:+ t :=
  (List.tail_suffix _).trans (List.dropWhile_suffix _)

theorem doctype_suffix (t : Text) : (doctype t).2 <:+ t :=
  ((List.tail_suffix _).trans (List.dropWhile_suffix _)).trans (List.dropWhile_suffix _)

theorem suffix_of_dropWord? {word t rest : Text} (h : dropWord? word t = some rest) :
    rest <:+ t := by
  obtain ⟨front, rfl, -⟩ := exists_of_dropWord? h
  exact List.suffix_append front rest

theorem declaration_suffix (t : Text) : (declaration t).2 <:+ t := by
  unfold declaration
  split
  · next t =>
    exact ((readComment_suffix .start t).trans (List.suffix_cons _ _)).trans
      (List.suffix_cons _ _)
  · split
    · next h => exact (doctype_suffix _).trans (suffix_of_dropWord? h)
    · exact bogusComment_suffix _

theorem endTag_suffix (t : Text) : (endTag t).2 <:+ t := by
  unfold endTag
  split
  · exact List.suffix_rfl
  · exact List.suffix_cons _ _
  · split
    · split
      · exact List.nil_suffix
      · next h => exact suffix_of_readTag? h
    · exact bogusComment_suffix _

theorem startTag_suffix (t : Text) : (startTag t).2 <:+ t := by
  unfold startTag
  split
  · exact List.nil_suffix
  · next tag h =>
    have h := suffix_of_readTag? h
    dsimp only
    split
    · exact h
    · split
      · exact h
      · exact (readContent_suffix _ _ _).trans h

theorem markup_suffix (t : Text) : (markup t).2 <:+ t := by
  unfold markup
  split
  · exact List.suffix_rfl
  · exact (declaration_suffix _).trans (List.suffix_cons _ _)
  · exact (endTag_suffix _).trans (List.suffix_cons _ _)
  · exact bogusComment_suffix _
  · split
    · exact startTag_suffix _
    · exact List.suffix_rfl

/-! ## The whole text -/

/-- Reads the tokens of a text that was made ready. -/
def tokens (t : Text) : List Token :=
  match t with
  | [] => [.endOfInput]
  | c :: t =>
    if c = '<' then (markup t).1 ++ tokens (markup t).2
    else if c = '&' then .text (reference false t).1 :: tokens (reference false t).2
    else if c = nul then .null :: tokens t
    else .text [c] :: tokens t
termination_by t.length
decreasing_by
  all_goals
    have := (markup_suffix t).length_le
    have := (reference_suffix false t).length_le
    simp only [List.length_cons]
    omega

end Scaffold.Html
