import Formula.Operator

/-!
# Registries of operators

A registry is a list of operators in which every operator has one or two operands, no opcode
occurs twice, and no name occurs twice with the same number of operands.
-/

namespace Formula

/-- What is wrong with a list of operators. -/
inductive RegistryError where
  /-- Two operators share an opcode. -/
  | duplicateOpcode (opcode : UInt64) (first second : String)
  /-- A name is declared twice with the same number of operands. -/
  | duplicateArity (name : String) (arity : Nat)
  /-- An operator has neither one operand nor two. -/
  | unsupportedArity (name : String) (arity : Nat)
deriving DecidableEq, Repr

/-- An opcode in hexadecimal, with two digits at least. -/
def opcodeText (opcode : UInt64) : String :=
  let digits := Nat.toDigits 16 opcode.toNat
  String.ofList ('0' :: 'x' :: (List.replicate (2 - digits.length) '0' ++ digits))

/-- The wording of a registry error. -/
def RegistryError.message : RegistryError → String
  | duplicateOpcode opcode first second =>
    s!"conflicting opcode {opcodeText opcode} for {first} and {second}"
  | duplicateArity name arity => s!"operator {name} declared twice with arity {arity}"
  | unsupportedArity name arity => s!"operator {name} has unsupported arity {arity}"

/-- The fault of an operator that is declared after others. -/
def Operator.faultAfter (earlier : List Operator) (op : Operator) : Option RegistryError :=
  if op.arity ≠ 1 && op.arity ≠ 2 then some (.unsupportedArity op.name op.arity)
  else
    match earlier.find? (·.opcode == op.opcode) with
    | some other => some (.duplicateOpcode op.opcode other.name op.name)
    | none =>
      if earlier.any fun other => other.name == op.name && other.arity == op.arity then
        some (.duplicateArity op.name op.arity)
      else none

/-- The first fault among operators that are declared after others. -/
def firstFault (earlier : List Operator) : List Operator → Option RegistryError
  | [] => none
  | op :: ops =>
    match op.faultAfter earlier with
    | some fault => some fault
    | none => firstFault (op :: earlier) ops

/-- A consistent list of operators. -/
structure Registry where
  /-- The operators in the order of their declaration. -/
  operators : List Operator
  /-- There is nothing wrong with them. -/
  consistent : firstFault [] operators = none

namespace Registry

/-- The registry of a list of operators, or the first fault in it. -/
def ofList (operators : List Operator) : Except RegistryError Registry :=
  match h : firstFault [] operators with
  | some fault => .error fault
  | none => .ok ⟨operators, h⟩

/-- The operator with this name and number of operands. -/
def lookup (r : Registry) (name : String) (arity : Nat) : Option Operator :=
  r.operators.find? fun op => op.arity == arity && op.name == name

/-- The operator for a form with a number of operands: the one with exactly as many, or else,
for more than two, the binary one, which is then applied from left to right. -/
def resolve (r : Registry) (name : String) (count : Nat) : Option Operator :=
  (r.lookup name count).or (if 2 < count then r.lookup name 2 else none)

/-- The operator with this opcode. -/
def byOpcode (r : Registry) (opcode : UInt64) : Option Operator :=
  r.operators.find? (·.opcode == opcode)

/-- Whether some operator has this name. -/
def contains (r : Registry) (name : String) : Bool :=
  r.operators.any (·.name == name)

end Registry

end Formula
