import Scaffold.Error
import Scaffold.Text.Basic

/-!
# Stores

A *store* is a tree of directories and files, seen from the directory in which a run takes place.
Files hold bytes; a file is read as text only if it holds UTF-8.  A path is a text with slashes,
in which a single dot stays where it is and two dots go up.
-/

namespace Scaffold

open Scaffold.Text

/-- What a path can lead to. -/
inductive Entry where
  | file (content : ByteArray)
  | directory

/-- The names on the way down to an entry. -/
abbrev Names := List Text

/-- A tree of directories and files. -/
structure Store where
  entries : List (Names × Entry)

/-! ## Text in files -/

/-- The bytes of a text. -/
def encode (t : Text) : ByteArray :=
  (String.ofList t).toByteArray

/-- The text of bytes, if they hold one. -/
def decode? (content : ByteArray) : Option Text :=
  (String.fromUTF8? content).map String.toList

@[simp] theorem decode?_encode (t : Text) : decode? (encode t) = some t := by
  have h := (String.ofList t).isValidUTF8
  rw [decode?, encode, String.fromUTF8?, dif_pos h]
  exact congrArg some String.toList_ofList

namespace Store

/-- A store with nothing in it. -/
def empty : Store := { entries := [] }

/-- What stands at the end of a list of names; no names lead to the top directory. -/
def get? (s : Store) (names : Names) : Option Entry :=
  if names = [] then some .directory else s.entries.lookup names

/-- Puts an entry at the end of a list of names. -/
def put (s : Store) (names : Names) (entry : Entry) : Store :=
  { entries := (names, entry) :: s.entries.filter fun e => e.1 != names }

/-- Puts a directory at the end of a list of names, and directories on the way to it. -/
def putDirectory (s : Store) (names : Names) : Store :=
  (List.range names.length).foldl (fun s n => s.put (names.take (n + 1)) .directory) s

/-- Takes away what stands at the end of a list of names. -/
def erase (s : Store) (names : Names) : Store :=
  { entries := s.entries.filter fun e => e.1 != names }

/-- The files of a store, each with its names. -/
def files (s : Store) : List (Names × ByteArray) :=
  s.entries.filterMap fun
    | (names, .file content) => some (names, content)
    | (_, .directory) => none

/-! ## Paths -/

/-- The steps of a path.  A slash too many is no step. -/
def steps (path : Text) : Names :=
  (path.splitOn '/').filter fun step => !step.isEmpty

/-- Whether a path ends in a slash, so that it can only lead to a directory. -/
def endsInSlash (path : Text) : Bool :=
  path.getLast? == some '/'

/-- Where a step leads from a directory. -/
def follow (names : Names) (step : Text) : Names :=
  if step = ".".toList then names
  else if step = "..".toList then names.dropLast
  else names ++ [step]

/-- Where a path leads if there are directories all the way. -/
def destination (path : Text) : Names :=
  (steps path).foldl follow []

/-- Follows steps through directories. -/
def walk (s : Store) (names : Names) : Names → Except Fault Names
  | [] => .ok names
  | step :: steps =>
    match s.get? (follow names step) with
    | none => .error .notFound
    | some (.file _) => .error .notDirectory
    | some .directory => walk s (follow names step) steps

/-- Where a path leads that need not exist yet: its directory must. -/
def locate (s : Store) (path : Text) : Except Fault Names :=
  if path = [] then .error .notFound
  else (walk s [] (steps path).dropLast).map fun names =>
    match (steps path).getLast? with
    | none => names
    | some step => follow names step

/-- What a path leads to. -/
def find (s : Store) (path : Text) : Except Fault Entry :=
  match locate s path with
  | .error fault => .error fault
  | .ok names =>
    match s.get? names with
    | none => .error .notFound
    | some .directory => .ok .directory
    | some (.file content) =>
      if endsInSlash path then .error .notDirectory else .ok (.file content)

/-- Whether a path leads to something. -/
def contains (s : Store) (path : Text) : Bool :=
  match find s path with
  | .ok _ => true
  | .error _ => false

/-- The text of a file. -/
def read (s : Store) (path : Text) : Except Fault Text :=
  match find s path with
  | .error fault => .error fault
  | .ok .directory => .error .isDirectory
  | .ok (.file content) =>
    match decode? content with
    | none => .error .notText
    | some t => .ok t

/-- Writes a file, which need not exist yet. -/
def write (s : Store) (path : Text) (content : ByteArray) : Except Fault Store :=
  match locate s path with
  | .error fault => .error fault
  | .ok names =>
    if endsInSlash path then .error .isDirectory
    else match s.get? names with
      | some .directory => .error .isDirectory
      | _ => .ok (s.put names (.file content))

/-- Takes a file away. -/
def remove (s : Store) (path : Text) : Except Fault Store :=
  match find s path with
  | .error fault => .error fault
  | .ok .directory => .error .isDirectory
  | .ok (.file _) => (locate s path).map s.erase

end Store

end Scaffold
