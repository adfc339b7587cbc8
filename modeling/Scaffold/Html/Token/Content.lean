import Scaffold.Html.Token.Tag
import Scaffold.Tag

/-!
# Content that is not read as markup

Some elements hold plain text up to their own closing tag.  Each reader here returns that text
and what is left, which is empty or starts with the closing tag.

Script text is the odd one: behind the opening mark of a comment a script may hold script tags of
its own, and the closing tag of such an inner script does not end the outer one.
-/

namespace Scaffold.Html

open Scaffold.Text

/-- Whether a word, ASCII case aside, stands at the front of a text and ends there as the name of
a tag does. -/
def startsTag (word t : Text) : Bool :=
  match dropWord? word t with
  | some (c :: _) => endsTagName c
  | _ => false

/-- Whether a text, behind an opening bracket, goes on with the closing tag of `name`. -/
def closes (name : Text) : Text → Bool
  | '/' :: t => startsTag name t
  | _ => false

/-! ## Raw and escapable text -/

/-- Reads text up to the closing tag of `name`. -/
def readRaw (name : Text) : Text → Text × Text
  | [] => ([], [])
  | c :: t =>
    if c = '<' ∧ closes name t then ([], c :: t)
    else Prod.map (kept c :: ·) id (readRaw name t)

/-- Reads text up to the closing tag of `name`, resolving references. -/
def readEscapable (name t : Text) : Text × Text :=
  readResolved (fun c t => c == '<' && closes name t) false t

/-! ## Script text -/

/-- Where in a script a character stands. -/
inductive ScriptPlace where
  | plain
  /-- In a comment, behind this many hyphens, of which two count. -/
  | escaped (dashes : Nat)
  /-- In a script within a comment, behind this many hyphens. -/
  | nested (dashes : Nat)
  deriving DecidableEq, Repr

/-- The name of the tag that holds a script. -/
def scriptTag : Text :=
  "script".toList

namespace ScriptPlace

/-- The place behind an opening bracket, told from what follows it. -/
def afterBracket (rest : Text) : ScriptPlace → ScriptPlace
  | .plain => if "!--".toList.isPrefixOf rest then .escaped 0 else .plain
  | .escaped _ => if startsTag scriptTag rest then .nested 0 else .escaped 0
  | .nested _ => if closes scriptTag rest then .escaped 0 else .nested 0

/-- The place behind a character other than an opening bracket. -/
def after (c : Char) : ScriptPlace → ScriptPlace
  | .plain => .plain
  | .escaped dashes =>
    if c = '-' then .escaped (dashes + 1)
    else if c = '>' ∧ 2 ≤ dashes then .plain
    else .escaped 0
  | .nested dashes =>
    if c = '-' then .nested (dashes + 1)
    else if c = '>' ∧ 2 ≤ dashes then .plain
    else .nested 0

/-- Whether a closing tag ends the whole script here. -/
def canClose : ScriptPlace → Bool
  | .nested _ => false
  | _ => true

end ScriptPlace

/-- Reads the text of a script up to its closing tag. -/
def readScript (place : ScriptPlace) : Text → Text × Text
  | [] => ([], [])
  | c :: t =>
    if c = '<' then
      if place.canClose ∧ closes scriptTag t then ([], c :: t)
      else Prod.map (c :: ·) id (readScript (place.afterBracket t) t)
    else Prod.map (kept c :: ·) id (readScript (place.after c) t)

/-! ## All of them -/

/-- Reads the content of the element `name`. -/
def readContent (content : Content) (name t : Text) : Text × Text :=
  match content with
  | .script => readScript .plain t
  | .raw => readRaw name t
  | .escapable => readEscapable name t

theorem readRaw_suffix (name t : Text) : (readRaw name t).2 <:+ t := by
  induction t with
  | nil => exact List.suffix_rfl
  | cons c t ih =>
    rw [readRaw]
    split
    · exact List.suffix_rfl
    · exact ih.trans (List.suffix_cons _ _)

theorem readScript_suffix (place : ScriptPlace) (t : Text) : (readScript place t).2 <:+ t := by
  induction t generalizing place with
  | nil => exact List.suffix_rfl
  | cons c t ih =>
    rw [readScript]
    split
    · split
      · exact List.suffix_rfl
      · exact (ih _).trans (List.suffix_cons _ _)
    · exact (ih _).trans (List.suffix_cons _ _)

theorem readContent_suffix (content : Content) (name t : Text) :
    (readContent content name t).2 <:+ t := by
  cases content with
  | script => exact readScript_suffix _ _
  | raw => exact readRaw_suffix _ _
  | escapable => exact readResolved_suffix _ _ _

end Scaffold.Html
