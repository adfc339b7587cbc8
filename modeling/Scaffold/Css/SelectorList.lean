import Scaffold.Text.Blank

/-!
# Selector lists

What stands before a rule's block is a list of selectors divided by commas.  `splitSelectors`
divides it and brings every selector into a normal form: comments are dropped, and blanks
outside quotes are single spaces between other characters.
-/

namespace Scaffold.Css

open Scaffold.Text

/-- Where in a selector list a character stands. -/
inductive Place where
  /-- Outside quotes and comments, within this many brackets. -/
  | outside (depth : Nat)
  /-- Within a quoted string that this character ends; the brackets around it are kept. -/
  | inString (quote : Char) (depth : Nat)
  /-- Within a comment, behind this character of it. -/
  | inComment (last : Char) (depth : Nat)
  deriving DecidableEq, Repr

/-- The selectors of a list before they are trimmed.  `current` holds, last character first,
what was read of the selector at hand. -/
def pieces : Place → (current : Text) → Text → List Text
  | _, current, [] => [current.reverse]
  | .inString quote depth, current, c :: t =>
    pieces (if c = quote then .outside depth else .inString quote depth) (c :: current) t
  | .inComment last depth, current, c :: t =>
    pieces (if last = '*' ∧ c = '/' then .outside depth else .inComment c depth) current t
  | .outside depth, current, '/' :: '*' :: t => pieces (.inComment nul depth) current t
  | .outside depth, current, c :: t =>
    if c = '"' ∨ c = '\x27' then pieces (.inString c depth) (c :: current) t
    else if c = '[' ∨ c = '(' then pieces (.outside (depth + 1)) (c :: current) t
    else if c = ']' ∨ c = ')' then pieces (.outside (depth - 1)) (c :: current) t
    else if c = ',' ∧ depth = 0 then current.reverse :: pieces (.outside 0) [] t
    else if isBlank c then
      if current = [] ∨ current.head? = some ' ' then pieces (.outside depth) current t
      else pieces (.outside depth) (' ' :: current) t
    else pieces (.outside depth) (c :: current) t

/-- The selectors of a list, in order; empty ones are left out. -/
def splitSelectors (list : Text) : List Text :=
  ((pieces (.outside 0) [] list).map trim).filter fun selector => !selector.isEmpty

/-- No selector of a list is empty. -/
theorem ne_nil_of_mem_splitSelectors {list selector : Text}
    (h : selector ∈ splitSelectors list) : selector ≠ [] := by
  have := (List.mem_filter.1 h).2
  simpa using this

end Scaffold.Css
