import Scaffold.Element.Basic

/-!
# Nesting

A page is given as a flat list of elements, each of which stands somewhere behind the element
above it.  An element looks forward for its children: elements that may lie below it are passed
over, and the first one that cannot ends the search.

`nest` builds the forest from the back, so that every subtree is complete before its parent
takes it.  What no parent takes is a root of the page if its path says so and is lost otherwise
(`orphans`).
-/

namespace Scaffold

open Scaffold.Selector

/-! ## Who is whose child -/

/-- The positions of the children of `parent` in a list that starts at position `i`. -/
def childrenFrom (parent : Path) (i : Nat) : List Element → List Nat
  | [] => []
  | e :: es =>
    if parent.isParentOf e.path then i :: childrenFrom parent (i + 1) es
    else if parent.covers e.path then childrenFrom parent (i + 1) es
    else []

/-- For every element of a list that starts at position `i`, the positions of its children. -/
def childPositionsFrom (i : Nat) : List Element → List (List Nat)
  | [] => []
  | e :: es => childrenFrom e.path (i + 1) es :: childPositionsFrom (i + 1) es

/-- For every element of a list, the positions of its children. -/
def childPositions (es : List Element) : List (List Nat) :=
  childPositionsFrom 0 es

/-! ## The forest -/

/-- A place in the list, with the tree that grew there until a parent takes it. -/
structure Spot where
  path : Path
  tree : Option Element

/-- Takes the children of `parent` from the places behind it. -/
def takeChildren (parent : Path) : List Spot → List Element × List Spot
  | [] => ([], [])
  | spot :: spots =>
    if parent.isParentOf spot.path then
      Prod.map (spot.tree.toList ++ ·) ({ spot with tree := none } :: ·)
        (takeChildren parent spots)
    else if parent.covers spot.path then Prod.map id (spot :: ·) (takeChildren parent spots)
    else ([], spot :: spots)

/-- Puts an element in front of the places behind it, with its children taken from them. -/
def grow (e : Element) (spots : List Spot) : List Spot :=
  let taken := takeChildren e.path spots
  { path := e.path, tree := some { e with children := taken.1 } } :: taken.2

/-- The trees of a list that no parent takes. -/
def trees (es : List Element) : List Element :=
  (es.foldr grow []).filterMap Spot.tree

/-- The roots of the page that a list of elements describes, with everything below them. -/
def nest (es : List Element) : List Element :=
  (trees es).filter fun e => e.path.isRoot

/-- The trees that are neither roots nor below one. -/
def orphans (es : List Element) : List Element :=
  (trees es).filter fun e => !e.path.isRoot

/-! ## Outlines -/

mutual

/-- An element and those below it, each with its depth, parents first. -/
def Element.outline (depth : Nat) : Element → List (Nat × Text)
  | ⟨path, _, _, _, _, _, children, _⟩ => (depth, path.full) :: outlineAll (depth + 1) children

/-- The outlines of a list of elements, one behind the other. -/
def outlineAll (depth : Nat) : List Element → List (Nat × Text)
  | [] => []
  | e :: es => e.outline depth ++ outlineAll depth es

end

end Scaffold
