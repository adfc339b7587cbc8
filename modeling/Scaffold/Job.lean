import Scaffold.Document.Window
import Scaffold.Fragment
import Scaffold.Html.Layout
import Scaffold.Store

/-!
# Jobs

A *job* makes the fragment of a style sheet, puts it into the window of a target file if it has
one, formats the result and writes it back.  The target is read, or created empty, before
anything else is done; nothing is written once anything has failed, and a sheet without a
fragment leaves the target as it is.
-/

namespace Scaffold

/-- Where the fragment goes: a file, and the anchors of its window. -/
structure Target where
  path : Text
  after : Option Text := none
  before : Option Text := none
  deriving DecidableEq, Repr

/-- What is to be done. -/
structure Job where
  css : Text
  target : Option Target := none
  format : Bool := true
  deriving DecidableEq, Repr

/-- A way to format markup, which may fail, and what it remarks while it does. -/
structure Formatter where
  run : Text → Except Error Text
  log : Text → List LogEntry := fun _ => []

namespace Formatter

/-- Lays markup out with indentation. -/
def indented : Formatter where
  run markup := .ok (Html.format markup)
  log markup :=
    ⟨.debug, s!"formatting {Text.byteSize markup} bytes of HTML"⟩ ::
      (Html.strayEnds (Html.parse markup)).map fun name =>
        ⟨.debug, s!"keeping unmatched end tag </{String.ofList name}>"⟩

/-- Leaves markup as it is. -/
def verbatim : Formatter where
  run markup := .ok markup

end Formatter

/-- What a job ends with: its markup, if there is any, and the store it leaves. -/
structure Outcome where
  result : Except Error (Option Text)
  store : Store

/-- Reads the target of a job, or creates it empty. -/
def openTarget (store : Store) (path : Text) : Except Error Text × Store :=
  if store.contains path then
    match store.read path with
    | .ok document => (.ok document, store)
    | .error fault => (.error (.file path fault), store)
  else
    match store.write path (encode []) with
    | .ok store => (.ok [], store)
    | .error fault => (.error (.file path fault), store)

namespace Job

/-- The markup before it is formatted: the fragment alone, or within the target's document. -/
def draft (job : Job) (document : Text) : Except Error (Option Text) :=
  match fragment job.css with
  | .error e => .error e
  | .ok none => .ok none
  | .ok (some fragment) =>
    match job.target with
    | none => .ok (some fragment)
    | some target =>
      (window document target.path target.after target.before).map fun w =>
        some (w.fill fragment)

/-- The markup that a job makes. -/
def produce (job : Job) (formatter : Formatter) (document : Text) :
    Except Error (Option Text) :=
  match job.draft document with
  | .error e => .error e
  | .ok none => .ok none
  | .ok (some markup) =>
    if job.format then (formatter.run markup).map some else .ok (some markup)

/-- Does a job in a store. -/
def run (job : Job) (formatter : Formatter) (store : Store) : Outcome :=
  match job.target with
  | none => { result := job.produce formatter [], store }
  | some target =>
    match openTarget store target.path with
    | (.error e, store) => { result := .error e, store }
    | (.ok document, store) =>
      match job.produce formatter document with
      | .error e => { result := .error e, store }
      | .ok none => { result := .ok none, store }
      | .ok (some markup) =>
        match store.write target.path (encode markup) with
        | .ok store => { result := .ok (some markup), store }
        | .error fault => { result := .error (.file target.path fault), store }

/-! ## Remarks -/

/-- What is remarked while the markup is made. -/
def produceLog (job : Job) (formatter : Formatter) (document : Text) : List LogEntry :=
  fragmentLog job.css ++
    match job.draft document with
    | .ok (some markup) => if job.format then formatter.log markup else []
    | _ => []

/-- What is remarked while a job is done. -/
def log (job : Job) (formatter : Formatter) (store : Store) : List LogEntry :=
  match job.target with
  | none => job.produceLog formatter []
  | some target =>
    let path := String.ofList target.path
    (if store.contains target.path then []
      else [⟨.warn, s!"the {path} file was not found, so it will be created"⟩]) ++
    match (openTarget store target.path).1 with
    | .error _ => []
    | .ok document =>
      job.produceLog formatter document ++
        match (job.run formatter store).result with
        | .ok (some markup) => [⟨.info, s!"wrote {Text.byteSize markup} bytes to {path}"⟩]
        | _ => []

end Job

end Scaffold
