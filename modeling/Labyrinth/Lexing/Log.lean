import Labyrinth.Plain.Format
import Labyrinth.Session

/-!
# Log lines

A log line has a level, which gives it a head, and a format that is filled with values.
-/

namespace Labyrinth.Lexing

/-- How serious a log line is. -/
inductive LogLevel where
  | critical | error | warning | info | debug
deriving DecidableEq, Repr, Inhabited

namespace LogLevel

def all : List LogLevel := [critical, error, warning, info, debug]

def name : LogLevel → String
  | critical => "critical"
  | error => "error"
  | warning => "warning"
  | info => "info"
  | debug => "debug"

/-- What a line of a level begins with. -/
def head : LogLevel → String
  | error => "ERROR: "
  | warning => "WARNING: "
  | _ => ""

def line (level : LogLevel) (message : String) : String := level.head ++ message ++ "\n"

/-- Prints a line of the level with a given name, filled with values. -/
def write (level message : String) (values : List Plain) : Run Unit := do
  match all.find? fun l => l.name == level with
  | none => fail (.noPart s!"'PlyLogger' object has no attribute '{level}'")
  | some level => Session.write (level.line (← ofExcept (Plain.format message values)))

end LogLevel

end Labyrinth.Lexing
