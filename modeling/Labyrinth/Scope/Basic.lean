import Labyrinth.Scope.NameTable
import Labyrinth.Value.Basic

/-!
# Scopes

A scope knows the names declared in one place and the values bound to names there. A name keeps the type of
its first value: later values are converted to it, and one that cannot be converted is refused.
-/

namespace Labyrinth

/-- Names declared in one place, and values bound there, in the order in which they were first bound. -/
structure Scope where
  names : NameTable := {}
  values : List (String × Value) := []
deriving Inhabited

namespace Scope

def value? (s : Scope) (name : String) : Option Value :=
  s.values.lookup name

/-- Puts a value in the place of the value bound to a name, or at the end. -/
def putValue (values : List (String × Value)) (name : String) (value : Value) : List (String × Value) :=
  match values with
  | [] => [(name, value)]
  | entry :: rest => if entry.1 = name then (name, value) :: rest else entry :: putValue rest name value

/-- Values by name: a repeated name keeps its first place and its last value. -/
def byName (entries : List (String × Value)) : List (String × Value) :=
  entries.foldl (fun values entry => putValue values entry.1 entry.2) []

/-- Binds a value to a name. If the name has a value that the new one cannot be converted to, the scope stays
as it is, and the type of the old value is handed back. -/
def bind (s : Scope) (name : String) (value : Value) : Except ValueType Scope :=
  match s.value? name with
  | none => .ok { s with values := putValue s.values name value }
  | some have_ =>
    match value.convertTo have_ with
    | some converted => .ok { s with values := putValue s.values name converted }
    | none => .error have_.type

def declare (s : Scope) (name : String) (param : Bool) : Scope :=
  { s with names := if param then s.names.declareParam name else s.names.declare name }

/-- The scope of what the language brings along. -/
def builtins : Scope :=
  { names := Value.builtins.foldl (fun t entry => t.declare entry.1) {}
    values := Value.builtins }

end Scope

/-- What a scope is the scope of. -/
inductive ScopeRole where
  | block
  | module
  /-- A function that gives back a value of this type. -/
  | function (returns : Value)
deriving Inhabited

namespace ScopeRole

def className : ScopeRole → String
  | block => "ScopeContext"
  | module => "Module"
  | function _ => "Function"

end ScopeRole

structure Frame where
  scope : Scope := {}
  role : ScopeRole := .block
deriving Inhabited

/-- What an analysis works on: a session, and the frames around the current place, innermost first. -/
structure Analysis where
  session : Session := {}
  frames : List Frame := [{ scope := Scope.builtins }]
deriving Inhabited

instance : HasSession Analysis := ⟨Analysis.session, fun a s => { a with session := s }⟩

namespace Analysis

/-- The place of the innermost frame that declares a name. -/
def origin? (frames : List Frame) (name : String) : Option Nat :=
  NameTable.depth? name (frames.map fun f => f.scope.names)

/-- Binds a value to a name in the frame at a place. A value that does not fit is reported. -/
def bindAt (place : Nat) (name : String) (value : Value) (loc : Location) : Task Analysis Unit := do
  let frame := (← get).frames.getD place default
  match frame.scope.bind name value with
  | .ok scope => modify fun a => { a with frames := a.frames.set place { frame with scope } }
  | .error declared =>
    inSession (Session.report loc Diagnostic.typeKind
      s!"declared type '{declared.shown}' does not match assigned type '{value.type.shown}'")

/-- Binds a value to a name where the name is declared, or else in the innermost frame. -/
def assign (name : String) (value : Value) (loc : Location) : Task Analysis Unit := do
  bindAt ((origin? (← get).frames name).getD 0) name value loc

/-- Declares a name in the innermost frame. -/
def declare (name : String) (param : Bool) : Task Analysis Unit :=
  modify fun a => { a with frames := match a.frames with
    | [] => []
    | frame :: outer => { frame with scope := frame.scope.declare name param } :: outer }

/-- Reports a name without a meaning. -/
def reportUndefined {α : Type} (name : String) (loc : Location) : Task Analysis α :=
  inSession (Session.reportFatal loc Diagnostic.nameKind s!"name '{name}' is not defined")

/-- The value bound to a name in the frame at a place. -/
def valueAt (place : Nat) (name : String) (loc : Location) : Task Analysis Value := do
  match ((← get).frames.getD place default).scope.value? name with
  | some value => return value
  | none => reportUndefined name loc

/-- The value bound to a name where it is declared. -/
def lookup (name : String) (loc : Location) : Task Analysis Value := do
  match origin? (← get).frames name with
  | some place => valueAt place name loc
  | none => reportUndefined name loc

/-- Leaves all scopes but the outermost one, which stays as it is. -/
def atTop (a : Analysis) : Analysis :=
  { a with frames := a.frames.getLast?.toList }

def push (frame : Frame) : Task Analysis Unit :=
  modify fun a => { a with frames := frame :: a.frames }

/-- Leaves the innermost scope and yields it. -/
def pop : Task Analysis Frame := do
  match (← get).frames with
  | [] => return default
  | frame :: outer =>
    modify fun a => { a with frames := outer }
    return frame

end Analysis

end Labyrinth
