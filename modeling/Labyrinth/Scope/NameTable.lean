import Labyrinth.Tree.Basic

/-!
# Name tables

A name table holds the names that a program or a function declares itself, in the order in which they first
occur, and tells which of them are parameters. Names declared inside a nested function are not among them.
-/

namespace Labyrinth

/-- The names declared in one place, in order, with a mark on parameters. -/
structure NameTable where
  entries : List (String × Bool) := []
deriving DecidableEq, Repr, Inhabited

namespace NameTable

def declares (t : NameTable) (name : String) : Bool :=
  t.entries.any fun entry => entry.1 == name

def isParam (t : NameTable) (name : String) : Bool :=
  t.entries.lookup name == some true

/-- Declares a name, unless it is declared already. -/
def declare (t : NameTable) (name : String) : NameTable :=
  if t.declares name then t else ⟨t.entries ++ [(name, false)]⟩

/-- Declares a name as a parameter. -/
def declareParam (t : NameTable) (name : String) : NameTable :=
  ⟨(t.declare name).entries.map fun entry => if entry.1 == name then (name, true) else entry⟩

def declareAll (t : NameTable) (names : List NameNode) : NameTable :=
  names.foldl (fun t n => t.declare n.value) t

mutual

def addStmt {ς : Type} (t : NameTable) : Stmt ς → NameTable
  | .declareNumber _ _ names _ => t.declareAll names
  | .declareField _ _ _ names _ => t.declareAll names
  | .function _ _ name _ _ => t.declare name
  | .loop _ _ body => addStmts t body
  | .check _ _ body => addStmts t body
  | .expr _ _ => t
  | .giveBack _ _ => t

def addStmts {ς : Type} (t : NameTable) : List (Stmt ς) → NameTable
  | [] => t
  | s :: ss => addStmts (addStmt t s) ss

end

/-- The names of a function: its parameters, then what its body declares. -/
def ofFunction {ς : Type} (params : List ParamNode) (body : List (Stmt ς)) : NameTable :=
  addStmts (params.foldl (fun t p => t.declareParam p.name.value) {}) body

def ofProgram {ς : Type} (p : Program ς) : NameTable :=
  addStmts {} p.body

/-- How many tables have to be left on the way outwards to the one that declares a name. -/
def depth? (name : String) : List NameTable → Option Nat
  | [] => none
  | t :: outer => if t.declares name then some 0 else (depth? name outer).map (· + 1)

end NameTable

/-- The tables of a program or function and of the functions directly in its body, each with the tables
around it. -/
inductive NameTree where
  | mk (tables : List NameTable) (functions : List (String × NameTree))
deriving Inhabited

namespace NameTree

/-- The innermost table. -/
def table : NameTree → NameTable
  | mk tables _ => tables.headD {}

mutual

/-- The functions directly among statements, with their trees. -/
def functionsOf {ς : Type} (outer : List NameTable) : List (Stmt ς) → List (String × NameTree)
  | [] => []
  | s :: ss => (functionOf outer s).toList ++ functionsOf outer ss

/-- The tree of a statement, if it is a function. -/
def functionOf {ς : Type} (outer : List NameTable) : Stmt ς → Option (String × NameTree)
  | .function _ _ name params body =>
    let tables := NameTable.ofFunction params body :: outer
    some (name, .mk tables (functionsOf tables body))
  | .loop _ _ _ => none
  | .check _ _ _ => none
  | .expr _ _ => none
  | .declareNumber _ _ _ _ => none
  | .declareField _ _ _ _ _ => none
  | .giveBack _ _ => none

end

def ofProgram {ς : Type} (p : Program ς) : NameTree :=
  let tables := [NameTable.ofProgram p]
  .mk tables (functionsOf tables p.body)

end NameTree

end Labyrinth
