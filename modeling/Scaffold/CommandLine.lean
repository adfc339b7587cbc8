import Scaffold.Job

/-!
# The command line

The arguments of the program, and what a call of it does in a store.  An option takes its value
from the same argument or from the next one, which must not look like an option itself; every
option can be given once, and two dashes end the options.
-/

namespace Scaffold.CommandLine

open Scaffold.Text

/-! ## Arguments -/

/-- The options that take a value. -/
inductive ValueOption where
  | writeIn
  | after
  | before
  deriving DecidableEq, Repr

/-- What the arguments say. -/
structure Arguments where
  input : Option Text := none
  writeIn : Option Text := none
  after : Option Text := none
  before : Option Text := none
  noFormat : Bool := false
  deriving DecidableEq, Repr

/-- Why the arguments ask for no run. -/
inductive Refusal where
  /-- The arguments make no sense. -/
  | usage
  /-- The arguments ask how to use the program. -/
  | help
  deriving DecidableEq, Repr

namespace Arguments

/-- Takes the file to read, which is named once and not by the empty text. -/
def setInput (args : Arguments) (value : Text) : Except Refusal Arguments :=
  if args.input.isSome ∨ value = [] then .error .usage
  else .ok { args with input := some value }

/-- Takes the value of an option, which is given once; a path is not empty. -/
def setValue (args : Arguments) (option : ValueOption) (value : Text) :
    Except Refusal Arguments :=
  match option with
  | .writeIn =>
    if args.writeIn.isSome ∨ value = [] then .error .usage
    else .ok { args with writeIn := some value }
  | .after =>
    if args.after.isSome then .error .usage else .ok { args with after := some value }
  | .before =>
    if args.before.isSome then .error .usage else .ok { args with before := some value }

/-- Takes the option that turns formatting off, which is given once. -/
def setNoFormat (args : Arguments) : Except Refusal Arguments :=
  if args.noFormat then .error .usage else .ok { args with noFormat := true }

end Arguments

/-- What one argument is. -/
inductive Argument where
  /-- The end of the options. -/
  | endOfOptions
  | help
  | noFormat
  /-- An option with its value, if the value stands in the same argument. -/
  | value (option : ValueOption) (value : Option Text)
  | input (value : Text)
  | unknown
  deriving DecidableEq, Repr

/-- The option of a long name. -/
def longOption? (name : Text) : Option ValueOption :=
  if name = "write-in".toList then some .writeIn
  else if name = "after".toList then some .after
  else if name = "before".toList then some .before
  else none

/-- The option of a single letter. -/
def shortOption? (letter : Char) : Option ValueOption :=
  if letter = 'w' then some .writeIn
  else if letter = 'a' then some .after
  else if letter = 'b' then some .before
  else none

/-- What an argument behind two dashes is. -/
def longArgument (t : Text) : Argument :=
  let name := t.takeWhile fun c => c != '='
  let value := match t.dropWhile fun c => c != '=' with
    | [] => none
    | _ :: value => some value
  match longOption? name with
  | some option => .value option value
  | none =>
    if value.isSome then .unknown
    else if name = "no-format".toList then .noFormat
    else if name = "help".toList then .help
    else .unknown

/-- What an argument behind one dash is. -/
def shortArgument (letter : Char) (t : Text) : Argument :=
  match shortOption? letter with
  | some option =>
    match t with
    | [] => .value option none
    | '=' :: value => .value option (some value)
    | value => .value option (some value)
  | none => if letter = 'h' then .help else .unknown

/-- What an argument is.  A single dash is no option. -/
def Argument.ofText (t : Text) : Argument :=
  match t with
  | '-' :: '-' :: [] => .endOfOptions
  | '-' :: '-' :: t => longArgument t
  | '-' :: letter :: t => shortArgument letter t
  | t => .input t

/-- Whether an argument can be the value of the option before it. -/
def isValue (t : Text) : Bool :=
  match Argument.ofText t with
  | .input _ => true
  | _ => false

/-- Reads arguments behind those that were read. -/
def readArguments (args : Arguments) : List Text → Except Refusal Arguments
  | [] => .ok args
  | t :: ts =>
    match Argument.ofText t with
    | .endOfOptions => ts.foldlM Arguments.setInput args
    | .help => .error .help
    | .unknown => .error .usage
    | .noFormat => do readArguments (← args.setNoFormat) ts
    | .input value => do readArguments (← args.setInput value) ts
    | .value option (some value) => do readArguments (← args.setValue option value) ts
    | .value option none =>
      match ts with
      | [] => .error .usage
      | value :: ts =>
        if isValue value then do readArguments (← args.setValue option value) ts
        else .error .usage

/-- What a call asks for. -/
structure Request where
  input : Text
  target : Option Target
  format : Bool
  deriving DecidableEq, Repr

/-- What arguments ask for.  Anchors need a target. -/
def Arguments.request (args : Arguments) : Except Refusal Request :=
  match args.input, args.writeIn with
  | none, _ => .error .usage
  | some input, none =>
    if args.after.isSome ∨ args.before.isSome then .error .usage
    else .ok { input, target := none, format := !args.noFormat }
  | some input, some path =>
    .ok
      { input
        target := some { path, after := args.after, before := args.before }
        format := !args.noFormat }

/-- Reads the arguments of a call. -/
def parse (args : List Text) : Except Refusal Request := do
  (← readArguments {} args).request

/-! ## Calls -/

/-- What a call ends with. -/
structure Result where
  code : Nat
  stdout : String
  stderr : String
  deriving DecidableEq, Repr

/-- How to use the program. -/
def usage : String :=
  "Usage: css2html [OPTIONS] <INPUT>\n\n" ++
  "  -w, --write-in <PATH>  HTML file to write the result into\n" ++
  "  -a, --after <AFTER>    Insert after the first occurrence of this text\n" ++
  "  -b, --before <BEFORE>  Insert before the last occurrence of this text\n" ++
  "      --no-format        Skip the HTML formatting pass\n"

/-- The line that introduces a report. -/
def intro : String :=
  "\n    css2html - turn stylesheet rules into HTML markup\n"

/-- The end of a call that asked for no run. -/
def refused : Refusal → Result
  | .usage => { code := 2, stdout := "", stderr := usage }
  | .help => { code := 0, stdout := usage, stderr := "" }

/-- The end of a call whose style sheet could not be read. -/
def unreadable (path : Text) (fault : Fault) : Result where
  code := 1
  stdout := ""
  stderr := s!"Error reading CSS file {String.ofList path}: {fault.message}\n"

/-- The end of a call whose job was done. -/
def done (request : Request) : Except Error (Option Text) → Result
  | .error e => { code := 1, stdout := "", stderr := s!"Error: {e.message}\n" }
  | .ok none => { code := 0, stdout := "", stderr := "" }
  | .ok (some markup) =>
    match request.target with
    | none => { code := 0, stdout := String.ofList markup, stderr := "" }
    | some target =>
      { code := 0
        stdout := ""
        stderr := intro ++ s!"\nSuccessfully wrote {String.ofList target.path}.\n" }

/-- The job of a request whose style sheet was read. -/
def Request.job (request : Request) (css : Text) : Job where
  css := css
  target := request.target
  format := request.format

/-- Runs a call in a store. -/
def run (args : List Text) (store : Store) : Result × Store :=
  match parse args with
  | .error refusal => (refused refusal, store)
  | .ok request =>
    match store.read request.input with
    | .error fault => (unreadable request.input fault, store)
    | .ok css =>
      let outcome := (request.job css).run .indented store
      (done request outcome.result, outcome.store)

end Scaffold.CommandLine
