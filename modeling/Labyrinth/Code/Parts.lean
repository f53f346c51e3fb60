import Labyrinth.Code.Emission

/-!
# Collecting parts

A buffer of parts to which texts and values are put one by one, with separators between them.
-/

namespace Labyrinth.Code

/-- A buffer of parts, and the parts that were saved from it. -/
structure PartBuffer where
  session : Session := {}
  parts : List String := []
  saved : List String := []
deriving Inhabited

instance : HasSession PartBuffer := ⟨PartBuffer.session, fun b s => { b with session := s }⟩

inductive PartItem where
  | text (s : String)
  | absent
  | value (v : Value)
  /-- Items without separators between them. -/
  | group (items : List PartItem)
deriving Inhabited

namespace PartBuffer

/-- The part that a value is written as. Functions and programs leave no part of their own. -/
def valuePart (v : Value) : Task PartBuffer (Option String) :=
  match v with
  | .int _ type n => return some (literalText type n)
  | .matrix _ _ _ n => return some (toString n)
  | .module => return none
  | .function _ .declared _ _ _ => return none
  | .function loc kind _ _ _ =>
    inSession (Session.reportFatal loc Diagnostic.syntaxKind
      s!"analysis node '{kind.className}' is currently not supported for codegen" (.all #[]))

def putPart (part : String) : Task PartBuffer Unit :=
  modify fun b => { b with parts := b.parts ++ [part] }

def putItem : PartItem → Task PartBuffer Unit
  | .text s => putPart s
  | .value v => do
    if let some part ← valuePart v then putPart part
  | .absent => fail (.absent "loc")
  | .group _ => fail (.noPart "'tuple' object has no attribute 'loc'")

def putItems : List PartItem → Task PartBuffer Unit
  | [] => pure ()
  | item :: rest => do
    putItem item
    putItems rest

/-- Puts items with a separator between them. Absent items are left out; a group counts as one. -/
def put (separator : Option String) (first : Bool) : List PartItem → Task PartBuffer Unit
  | [] => pure ()
  | .absent :: rest => put separator first rest
  | item :: rest => do
    if !first then
      if let some text := separator then putPart text
    match item with
    | .group items => putItems items
    | item => putItem item
    put separator false rest

/-- Puts items, takes their parts out again and joins them. -/
def collect (separator : Option String) (items : List PartItem) : Task PartBuffer String := do
  let previous := (← get).parts.length
  put separator true items
  let parts := (← get).parts
  modify fun b => { b with parts := parts.take previous }
  return Text.joined " " (parts.drop previous)

/-- Puts items into a buffer of their own and yields its parts. -/
def isolate (separator : Option String) (items : List PartItem) : Task PartBuffer (List String) := do
  let outer := (← get).parts
  modify fun b => { b with parts := [] }
  put separator true items
  let inner := (← get).parts
  modify fun b => { b with parts := outer }
  return inner

/-- Saves a copy of the parts, before or after those saved already. -/
def save (front : Bool) : Task PartBuffer Unit :=
  modify fun b => { b with saved := if front then b.parts ++ b.saved else b.saved ++ b.parts }

end PartBuffer

end Labyrinth.Code
