import Labyrinth.Radix
import Labyrinth.Session

/-!
# Converting numbers

The command that reads decimal numbers line by line and writes them in base 32 when it is interrupted.
-/

namespace Labyrinth.Conversion

def convertAll : List String → Run Unit
  | [] => return
  | line :: rest => do
    let value ← ofExcept (Radix.readDecimal line)
    Session.writeLine (← ofExcept (Radix.numeral 32 value))
    convertAll rest

/-- Reads lines up to their end, or up to an interrupt. Only an interrupt has them converted. -/
def run (lines : List String) (interrupted : Bool) : Run Unit := do
  Session.writeLine "Type in your numbers and upon exit program will convert them all"
  if interrupted then convertAll lines

end Labyrinth.Conversion
