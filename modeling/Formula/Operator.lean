import Formula.Kind

/-!
# Operators

An operator has a name, a number of operands, an opcode that stands for it in compiled code
and a primitive that computes it. One name may stand for several operators that differ in the
number of operands.
-/

namespace Formula

/-! ## Results -/

/-- How the type of a result follows from the types of the operands. -/
inductive ResultRule where
  /-- A float if some operand is one, otherwise an integer. -/
  | promote
  | int
  | bool
  | float
deriving DecidableEq, Repr, Inhabited

namespace ResultRule

/-- The type of the result for operands of given types. -/
def resultType (rule : ResultRule) (operands : List Ty) : Ty :=
  match rule with
  | promote => if operands.contains .float then .float else .int
  | int => .int
  | bool => .bool
  | float => .float

/-- The word for a rule. -/
def name : ResultRule → String
  | promote => "promote"
  | int => "int"
  | bool => "bool"
  | float => "float"

/-- No operator yields a text. -/
theorem resultType_ne_string (rule : ResultRule) (operands : List Ty) :
    rule.resultType operands ≠ .string := by
  cases rule <;> simp only [resultType]
  · split <;> decide
  all_goals decide

end ResultRule

/-! ## Operators -/

/-- The part that an operator plays. -/
inductive Role where
  /-- Arithmetic, comparison or a mathematical function. -/
  | arithmetic
  /-- A connective of truth values. -/
  | logical
  /-- A helper with operands of fixed types. -/
  | intrinsic
deriving DecidableEq, Repr, Inhabited

/-- The word for a role. -/
def Role.name : Role → String
  | arithmetic => "arithmetic"
  | logical => "logical"
  | intrinsic => "intrinsic"

/-- An operator with a fixed number of operands. -/
structure Operator where
  /-- The name in a formula. -/
  name : String
  /-- What stands for the operator in compiled code. -/
  opcode : UInt64
  /-- The number of operands. -/
  arity : Nat
  /-- The name of the primitive that computes it. -/
  primitive : String
  /-- The part it plays. -/
  role : Role
  /-- The types that the operands must have, if they are fixed. -/
  hints : Option (List Ty)
  /-- The type of the result. -/
  result : ResultRule
deriving DecidableEq, Repr, Inhabited

namespace Operator

/-- An arithmetic operator on operands of any type. -/
def arithmetic (name : String) (opcode : UInt64) (arity : Nat) (primitive : String)
    (result : ResultRule) : Operator :=
  ⟨name, opcode, arity, primitive, .arithmetic, none, result⟩

/-- A logical connective of two operands of any type. -/
def logical (name : String) (opcode : UInt64) (primitive : String) : Operator :=
  ⟨name, opcode, 2, primitive, .logical, none, .bool⟩

/-- A helper whose operands have fixed types. The number of operands is kept in a byte. -/
def intrinsic (name : String) (opcode : UInt64) (primitive : String) (hints : List Ty)
    (result : ResultRule) : Operator :=
  ⟨name, opcode, hints.length % 256, primitive, .intrinsic, some hints, result⟩

/-- The operator with operands of fixed types, or of any type. -/
def withHints (op : Operator) (hints : Option (List Ty)) : Operator :=
  { op with hints := hints }

/-- Operators of two operands. -/
def isBinary (op : Operator) : Bool :=
  op.arity == 2

end Operator

end Formula
