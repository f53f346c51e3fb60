import Labyrinth.Analysis.Node

/-!
# Outlines

What analysis found out about a program, as plain values: for every node its class, its location, its value and
its parts.
-/

namespace Labyrinth

/-- The outline of a value: its class, its type, and its number or its name. -/
def Value.outline (v : Value) : Plain :=
  .record ([("node", .text v.className), ("type", .text v.type.shown), ("type_name", .text v.type.name)] ++
    match v with
    | .int _ _ n => [("value", .int n)]
    | .matrix _ _ _ n => [("value", .int n)]
    | .function _ _ name _ _ => [("name", .text name)]
    | .module => [])

namespace Scope

/-- The declared names, each with whether it is a parameter. -/
def namesOutline (s : Scope) : Plain :=
  .list (s.names.entries.map fun (name, isParam) => .list [.text name, .bool isParam])

def valuesOutline (s : Scope) : Plain :=
  .list (s.values.map fun (name, value) => .list [.text name, value.outline])

/-- The parts of an outline that belong to a scope and the body inside it. -/
def outlineFields (s : Scope) (body : List Plain) : List (String × Plain) :=
  [("names", s.namesOutline), ("values", s.valuesOutline), ("body", .list body)]

end Scope

def Value.functionFields : Value → List (String × Plain)
  | .function _ _ name params returns =>
    let params := match params with
      | none => .nothing
      | some params => .list (params.map fun (name, value) => .list [.text name, value.outline])
    [("name", .text name), ("args", params), ("returns", returns.outline)]
  | _ => []

def NodeInfo.outline (info : NodeInfo) (className : String) (fields : List (String × Plain)) : Plain :=
  let value := match info.value with
    | none => .nothing
    | some v => v.outline
  .record ([("node", .text className), ("loc", .text info.loc.text), ("evaluated", value)] ++ fields)

namespace Node

mutual

def outline : Node → Plain
  | assign i targets value => i.outline "Assign" [("targets", .list (outlines targets)), ("value", value.outline)]
  | call i operand args => i.outline "Call" [("operand", operand.outline), ("args", .list (outlines args))]
  | giveBack i value => i.outline "Return" [("value", value.outline)]
  | binary i lhs op rhs =>
    i.outline "BinaryOperation" [("lhs", lhs.outline), ("op", .text op.name), ("rhs", rhs.outline)]
  | compare i operand ops operands =>
    i.outline "CompareOperation" [("operand", operand.outline),
      ("ops", .list (ops.map fun op => .text op.name)), ("operands", .list (outlines operands))]
  | subscript i value index1 index2 =>
    i.outline "SubscriptOperation"
      [("value", value.outline), ("index1", index1.outline), ("index2", index2.outline)]
  | name i n => i.outline "Name" [("name", .text n)]
  | condition i test body => i.outline "Condition" [("test", test.outline), ("body", .list (outlines body))]
  | loop i test body => i.outline "Loop" [("test", test.outline), ("body", .list (outlines body))]
  | int i type value => i.outline "Int" [("value", .int value), ("type", .text type.shown)]
  | matrix i item index value =>
    i.outline "Matrix" [("value", .int value), ("type", .text (ValueType.matrix item index).shown)]
  | function i head scope body =>
    i.outline "Function" ((functionValue i.loc head).functionFields ++ scope.outlineFields (outlines body))
  | builtin f => (builtin f).info.outline f.className (f.functionFields ++ Scope.outlineFields {} [])
  | missing => .nothing

def outlines : List Node → List Plain
  | [] => []
  | n :: ns => n.outline :: outlines ns

end

end Node

def Module.outline (m : Module) : Plain :=
  m.info.outline "Module" (m.scope.outlineFields (Node.outlines m.body))

end Labyrinth
