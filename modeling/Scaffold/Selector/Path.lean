import Scaffold.Text.Basic

/-!
# Selector paths

A selector names its element by the way down to it: segments divided by spaces, the last of
which is the element's own.  Between two paths there are two questions: whether one is the other
with one more segment (`isParentOf`), and whether an element may still lie below another
(`covers`), which is decided on the text alone.
-/

namespace Scaffold.Selector

open Scaffold.Text

/-- A selector seen as a path of segments. -/
structure Path where
  /-- The selector as written. -/
  full : Text
  deriving DecidableEq, Repr

namespace Path

/-- The segments of a path, the outermost first; there is always one. -/
def segments (p : Path) : List Text :=
  p.full.splitOn ' '

/-- The last segment. -/
def own (p : Path) : Text :=
  p.segments.getLastD []

/-- Everything but the last segment; empty for a path of one segment. -/
def parent (p : Path) : Text :=
  [' '].intercalate p.segments.dropLast

/-- Whether nothing stands above a path. -/
def isRoot (p : Path) : Bool :=
  p.parent.isEmpty

/-- Whether `child` is `p` with its own segment added. -/
def isParentOf (p child : Path) : Bool :=
  child.full == p.full ++ ' ' :: child.own

/-- Whether `q` may lie below `p`: what stands above `q` starts with the text of `p`. -/
def covers (p q : Path) : Bool :=
  p.full.isPrefixOf q.parent

end Path

end Scaffold.Selector
