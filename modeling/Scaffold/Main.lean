import Scaffold.CommandLine

/-!
# The program

The outer layer: it reads the files that a call names, does the job and writes the result.
-/

namespace Scaffold.Program

/-- The fault that an error of the system stands for, if it is one. -/
def faultOf? : IO.Error → Option Fault
  | .noFileOrDirectory _ _ _ => some .notFound
  | .inappropriateType _ code _ => some (if code = 20 then .notDirectory else .isDirectory)
  | _ => none

/-- Does something with a file; a fault is an answer and not an error. -/
def attempt {α : Type} (action : IO α) : IO (Except Fault α) := do
  try
    return .ok (← action)
  catch e =>
    match faultOf? e with
    | some fault => return .error fault
    | none => throw e

/-- Reads a file as text. -/
def readText (path : Text) : IO (Except Fault Text) := do
  match ← attempt (IO.FS.readBinFile (String.ofList path)) with
  | .error fault => return .error fault
  | .ok content =>
    match decode? content with
    | none => return .error .notText
    | some t => return .ok t

/-- Writes a text to a file. -/
def writeText (path t : Text) : IO (Except Fault Unit) :=
  attempt (IO.FS.writeBinFile (String.ofList path) (encode t))

/-- Reads the target of a job, or creates it empty. -/
def readTarget (path : Text) : IO (Except Fault Text) := do
  match ← readText path with
  | .error .notFound | .error .notDirectory =>
    return (← writeText path []).map fun _ => []
  | result => return result

/-- Does a job on the files of the system. -/
def runJob (job : Job) : IO (Except Error (Option Text)) := do
  match job.target with
  | none => return job.produce .indented []
  | some target =>
    match ← readTarget target.path with
    | .error fault => return .error (.file target.path fault)
    | .ok document =>
      match job.produce .indented document with
      | .ok (some markup) =>
        match ← writeText target.path markup with
        | .error fault => return .error (.file target.path fault)
        | .ok () => return .ok (some markup)
      | result => return result

/-- Runs a call on the files of the system. -/
def call (args : List Text) : IO CommandLine.Result := do
  match CommandLine.parse args with
  | .error refusal => return CommandLine.refused refusal
  | .ok request =>
    match ← readText request.input with
    | .error fault => return CommandLine.unreadable request.input fault
    | .ok css => return CommandLine.done request (← runJob (request.job css))

end Scaffold.Program

/-- The program: one style sheet in, markup out. -/
def main (args : List String) : IO UInt32 := do
  let result ← Scaffold.Program.call (args.map String.toList)
  IO.print result.stdout
  IO.eprint result.stderr
  return result.code.toUInt32
