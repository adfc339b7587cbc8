import Scaffold.Css.Location
import Scaffold.Text.Quoted

/-!
# Errors

What can stop a run, and the wording of each cause.
-/

namespace Scaffold

/-- Why a file could not be read or written. -/
inductive Fault where
  | notFound
  | notDirectory
  | isDirectory
  /-- The file does not hold UTF-8 text. -/
  | notText
  deriving DecidableEq, Repr

/-- The wording of a fault. -/
def Fault.message : Fault → String
  | .notFound => "No such file or directory (os error 2)"
  | .notDirectory => "Not a directory (os error 20)"
  | .isDirectory => "Is a directory (os error 21)"
  | .notText => "stream did not contain valid UTF-8"

/-- What can stop a run. -/
inductive Error where
  /-- A style rule starts here and has no block. -/
  | missingBlock (location : Css.Location)
  /-- An anchor does not stand in the target. -/
  | anchorNotFound (anchor path : Text)
  /-- The anchor that ends the window stands before the end of the one that starts it. -/
  | anchorOrder (path : Text)
  /-- The formatter gave up, for this reason. -/
  | format (reason : Text)
  /-- A file could not be read or written. -/
  | file (path : Text) (fault : Fault)
  deriving DecidableEq, Repr

/-- The wording of an error. -/
def Error.message : Error → String
  | .missingBlock location =>
    s!"CSS parse error at {location.line}:{location.column}: missing `\x7b` after selector"
  | .anchorNotFound anchor path =>
    s!"anchor {String.ofList (Text.quotedText anchor)} was not found in {String.ofList path}"
  | .anchorOrder path =>
    s!"the `before` anchor precedes the `after` anchor in {String.ofList path}"
  | .format reason => s!"HTML formatting failed: {String.ofList reason}"
  | .file path fault => s!"I/O error on {String.ofList path}: {fault.message}"

end Scaffold
