import Scaffold.Text.Basic

/-!
# Log entries

What a run reports besides its result: remarks of four levels, from warnings down to traces.
-/

namespace Scaffold

/-- How much a remark matters; the first level matters most. -/
inductive Level where
  | warn
  | info
  | debug
  | trace
  deriving DecidableEq, Repr

namespace Level

/-- The place of a level in the order of levels, the most severe first. -/
def rank : Level → Nat
  | .warn => 0
  | .info => 1
  | .debug => 2
  | .trace => 3

/-- The name of a level. -/
def label : Level → String
  | .warn => "WARN"
  | .info => "INFO"
  | .debug => "DEBUG"
  | .trace => "TRACE"

end Level

/-- A remark. -/
structure LogEntry where
  level : Level
  message : String
  deriving DecidableEq, Repr

namespace LogEntry

/-- The line of a remark. -/
def line (entry : LogEntry) : String :=
  entry.level.label ++ " " ++ entry.message

/-- The remarks that matter at least as much as `level`, in order. -/
def upTo (level : Level) (entries : List LogEntry) : List LogEntry :=
  entries.filter fun entry => entry.level.rank ≤ level.rank

end LogEntry

end Scaffold
