import Labyrinth.Text.Quoted
import Labyrinth.Text.Layout

/-!
# Faults

A fault ends a run in a way that the program has no report for. Each constructor is a cause; `message` words
it. A run that does report its end stops with an exit status instead.
-/

namespace Labyrinth

/-- Why a run broke off without a report. -/
inductive Fault where
  /-- A table has no entry for a key; the key is given as it is shown. -/
  | missingKey (key : String)
  | indexOutOfRange
  | charOutOfRange
  /-- There is no lexer with the number asked for, or no state to go back to. -/
  | emptyStack
  /-- A source of tokens has no more of them. -/
  | exhausted
  /-- Something absent was used where a value with the given part was needed. -/
  | absent (part : String)
  /-- A condition that ought to hold does not. -/
  | assertion (message : String)
  /-- A text is no numeral of the base. -/
  | badNumeral (base : Nat) (text : String)
  | longNumeral (digits : Nat)
  /-- A number has more digits than are written. -/
  | longResult
  | zeroDivision
  | endless
  /-- A result was used before it was set. -/
  | unset (name : String)
  | differentFiles
  | noSuchFile (path : String)
  | isDirectory (path : String)
  /-- A name goes through a file as if it were a directory. -/
  | notDirectory (path : String)
  | nameTooLong (path : String)
  | noModule (name : String)
  | unordered (left right : String)
  /-- An operation that only refined kinds of values have. -/
  | notImplemented
  /-- A parser refused its input in the middle of a rule. -/
  | refused (message : String)
  | wrongKind (message : String)
  | badValue (message : String)
  | overflow (message : String)
  | noPart (message : String)
  /-- A lexer met a character, or a token, that its rules do not allow. -/
  | scanning (message : String)
  /-- An operation of the file system that is refused. -/
  | refusedWrite (message : String)
  /-- Lexing was asked for before there was any input. -/
  | noInput (message : String)
  /-- A recursion went deeper than its bound. -/
  | tooDeep
deriving DecidableEq, Repr, Inhabited

namespace Fault

def message : Fault → String
  | missingKey key => key
  | indexOutOfRange => "list index out of range"
  | charOutOfRange => "string index out of range"
  | emptyStack => "pop from empty list"
  | exhausted => ""
  | absent part => s!"'NoneType' object has no attribute '{part}'"
  | assertion message => message
  | badNumeral base text =>
    s!"invalid literal for int() with base {base}: {Text.firstChars 200 (Text.quoted text)}"
  | longNumeral digits =>
    s!"Exceeds the limit (4300 digits) for integer string conversion: value has {digits} digits; " ++
      "use sys.set_int_max_str_digits() to increase the limit"
  | longResult =>
    "Exceeds the limit (4300 digits) for integer string conversion; " ++
      "use sys.set_int_max_str_digits() to increase the limit"
  | zeroDivision => "integer division or modulo by zero"
  | endless => ""
  | unset name => s!"cannot access local variable '{name}' where it is not associated with a value"
  | differentFiles => "Locations do not share the same file"
  | noSuchFile path => s!"[Errno 2] No such file or directory: {Text.quoted path}"
  | isDirectory path => s!"[Errno 21] Is a directory: {Text.quoted path}"
  | notDirectory path => s!"[Errno 20] Not a directory: {Text.quoted path}"
  | nameTooLong path => s!"[Errno 36] File name too long: {Text.quoted path}"
  | noModule name => s!"No module named '{name}'"
  | unordered left right => s!"'<' not supported between instances of '{left}' and '{right}'"
  | notImplemented => ""
  | refused message => message
  | wrongKind message => message
  | badValue message => message
  | overflow message => message
  | noPart message => message
  | scanning message => message
  | refusedWrite message => message
  | noInput message => message
  | tooDeep => "maximum recursion depth exceeded"

/-- Whether a fault is one of the file system. -/
def isFileTrouble : Fault → Bool
  | noSuchFile _ => true
  | isDirectory _ => true
  | notDirectory _ => true
  | nameTooLong _ => true
  | refusedWrite _ => true
  | _ => false

end Fault

/-- How a run ended early. -/
inductive Stop where
  /-- It reported why and gave an exit status. -/
  | exit (status : Int)
  /-- It broke off. -/
  | fault (cause : Fault)
deriving DecidableEq, Repr, Inhabited

end Labyrinth
