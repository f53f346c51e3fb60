import Labyrinth.Diagnostic

/-!
# Sessions

What a run leaves behind and what later runs can see: the diagnostics collected so far, the lines of the text
opened last, the text printed, and the files. A run keeps its session also when it stops early.
-/

namespace Labyrinth

/-- What carries over from one run to the next. -/
structure Session where
  /-- Diagnostics that are collected and not printed yet. -/
  pending : Array Diagnostic := #[]
  /-- The lines of the text whose lexing began last. -/
  lines : Array String := #[]
  out : String := ""
  err : String := ""
  folder : Folder := {}
  /-- What is left of standard input. -/
  input : String := ""
deriving Inhabited

/-- A computation over a state that keeps the state when it stops early. -/
abbrev Task (σ : Type) := ExceptT Stop (StateM σ)

abbrev Run := Task Session

/-- States that a session is part of. -/
class HasSession (σ : Type) where
  session : σ → Session
  withSession : σ → Session → σ

instance : HasSession Session := ⟨id, fun _ s => s⟩

/-- Runs a computation on the session inside a larger state. -/
def inSession {σ α : Type} [HasSession σ] (act : Run α) : Task σ α :=
  ExceptT.mk fun state =>
    let (result, session) := act.run (HasSession.session state)
    (result, HasSession.withSession state session)

/-- Breaks off with a fault. -/
def fail {σ α : Type} (cause : Fault) : Task σ α :=
  throw (.fault cause)

/-- Takes over the result of a computation that may only fault. -/
def ofExcept {σ α : Type} : Except Fault α → Task σ α
  | .ok a => pure a
  | .error cause => fail cause

namespace Session

def write (text : String) : Run Unit :=
  modify fun s => { s with out := s.out ++ text }

def writeLine (line : String) : Run Unit :=
  write (line ++ "\n")

def writeError (text : String) : Run Unit :=
  modify fun s => { s with err := s.err ++ text }

def report (loc : Location) (kind message : String) (source : SourceLine := .unknown) : Run Unit := do
  let d ← ofExcept (Diagnostic.make (← get).folder loc kind message source)
  modify fun s => { s with pending := s.pending.push d }

/-- Prints a diagnostic and stops. -/
def reportFatal {α : Type} (loc : Location) (kind message : String) (source : SourceLine := .unknown) :
    Run α := do
  let d ← ofExcept (Diagnostic.make (← get).folder loc kind message source)
  writeLine d.text
  throw (.exit 1)

/-- The line between two reports. -/
def separator : String := "\n" ++ Text.repeated "=" 80 ++ "\n"

/-- The reports of diagnostics, with a separator between two of them. -/
def reportText (separator : String) (diagnostics : List Diagnostic) : String :=
  Text.joined (separator ++ "\n") (diagnostics.map fun d => d.text ++ "\n")

/-- Prints all collected diagnostics and stops; goes on if there are none. -/
def reportCollected (separator : String := separator) : Run Unit := do
  let pending := (← get).pending
  unless pending.isEmpty do
    write (reportText separator pending.toList)
    modify fun s => { s with pending := #[] }
    throw (.exit 1)

end Session

end Labyrinth
