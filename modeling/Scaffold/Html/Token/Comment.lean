import Scaffold.Text.Basic

/-!
# Comments of markup

A comment ends at two hyphens and a closing bracket, with a few variants: the bracket may follow
the opening mark at once or behind one hyphen, and an exclamation mark may stand before it.
What is still open at the end of the text ends there.
-/

namespace Scaffold.Html

open Scaffold.Text

/-- A character as it is kept: a null character is replaced. -/
def kept (c : Char) : Char :=
  if c = nul then replacement else c

/-- How much of the end of a comment was read. -/
inductive CommentEnd where
  /-- Nothing, and nothing of the comment either. -/
  | start
  /-- One hyphen right behind the opening mark. -/
  | startDash
  | none
  | dash
  | dashes
  /-- Two hyphens and an exclamation mark. -/
  | bang
  deriving DecidableEq, Repr

/-- Reads a comment behind its opening mark: its text, and what is left. -/
def readComment : CommentEnd → Text → Text × Text
  | _, [] => ([], [])
  | .start, c :: t =>
    if c = '-' then readComment .startDash t
    else if c = '>' then ([], t)
    else Prod.map (kept c :: ·) id (readComment .none t)
  | .startDash, c :: t =>
    if c = '-' then readComment .dashes t
    else if c = '>' then ([], t)
    else Prod.map ("-".toList ++ kept c :: ·) id (readComment .none t)
  | .none, c :: t =>
    if c = '-' then readComment .dash t
    else Prod.map (kept c :: ·) id (readComment .none t)
  | .dash, c :: t =>
    if c = '-' then readComment .dashes t
    else Prod.map ("-".toList ++ kept c :: ·) id (readComment .none t)
  | .dashes, c :: t =>
    if c = '>' then ([], t)
    else if c = '!' then readComment .bang t
    else if c = '-' then Prod.map ('-' :: ·) id (readComment .dashes t)
    else Prod.map ("--".toList ++ kept c :: ·) id (readComment .none t)
  | .bang, c :: t =>
    if c = '-' then Prod.map ("--!".toList ++ ·) id (readComment .dash t)
    else if c = '>' then ([], t)
    else Prod.map ("--!".toList ++ kept c :: ·) id (readComment .none t)

theorem readComment_suffix (e : CommentEnd) (t : Text) : (readComment e t).2 <:+ t := by
  induction t generalizing e with
  | nil => cases e <;> exact List.suffix_rfl
  | cons c t ih =>
    have h := fun e => (ih e).trans (List.suffix_cons c t)
    cases e <;> simp only [readComment] <;> (repeat' split) <;>
      first | exact h _ | exact List.suffix_cons _ _

end Scaffold.Html
