import Formula.Operator.Registry
import Formula.Primitive
import Formula.Record

/-!
# Scripts

A script is compiled code that has been checked against a registry: every operator is known
and finds operands of the right types on the stack, every parameter and every text is there,
and one value that is not a text is left at the end. Running a script then needs no checks of
the stack.
-/

namespace Formula

/-! ## Scripts -/

/-- An instruction of a script. -/
inductive Instruction where
  /-- Puts a value on the stack. -/
  | const (value : Cell)
  /-- Puts a text of the script on the stack. -/
  | text (index : Nat)
  /-- Puts an argument on the stack. -/
  | argument (index : Nat) (type : Ty)
  /-- Applies a primitive to the values on top of the stack. -/
  | apply (primitive : Primitive)
deriving DecidableEq

/-- Code that has been checked. -/
structure Script where
  /-- The instructions in order. -/
  code : Array Instruction
  /-- The texts that they refer to. -/
  strings : Array String
  /-- The greatest number of values on the stack at any time. -/
  maxDepth : Nat
  /-- Whether the result is a float. -/
  returnsFloat : Bool
deriving DecidableEq

/-- Why code is not accepted. -/
inductive Rejection where
  | oddWordCount
  | emptyProgram
  | invalidArgumentType
  | invalidTag
  | unknownOpcode
  | unsupportedPrimitive
  | arityMismatch
  | stackUnderflow
  | argumentTypeMismatch
  | stringOperand
  | invalidStringConstant
  | parameterOutOfRange
  | stringResult
  | unbalancedStack
deriving DecidableEq, Repr

/-! ## Checking -/

/-- How far code has been checked. -/
structure Checker where
  /-- The types of the values on the stack, the topmost first. -/
  types : List Ty
  /-- The number of values on the stack. -/
  depth : Nat
  /-- The greatest number of values on the stack so far. -/
  maxDepth : Nat
  /-- The instructions so far. -/
  code : Array Instruction
  /-- The texts so far. -/
  strings : Array String

namespace Checker

/-- Nothing has been checked. -/
def start : Checker :=
  ⟨[], 0, 0, #[], #[]⟩

/-- Adds an instruction that puts a value of a type on the stack. -/
def push (s : Checker) (instruction : Instruction) (type : Ty) : Checker :=
  { s with
    types := type :: s.types
    depth := s.depth + 1
    maxDepth := max s.maxDepth (s.depth + 1)
    code := s.code.push instruction }

/-- Takes the topmost values off the stack. -/
def drop (s : Checker) (count : Nat) : Checker :=
  { s with types := s.types.drop count, depth := s.depth - count }

/-- Checks operands against the types that an operator asks for, or else against what its
primitive accepts. -/
def checkOperands (op : Operator) (primitive : Primitive) (operands : List Ty) :
    Except Rejection Unit :=
  match op.hints with
  | some hints => if hints = operands then .ok () else .error .argumentTypeMismatch
  | none =>
    if primitive.acceptsText || operands.all Ty.isNumeric then .ok () else .error .stringOperand

/-- Checks the application of an operator. -/
def applyOperator (registry : Registry) (s : Checker) (opcode : UInt64) :
    Except Rejection Checker :=
  match registry.byOpcode opcode with
  | none => .error .unknownOpcode
  | some op =>
    match Primitive.ofName? op.primitive with
    | none => .error .unsupportedPrimitive
    | some primitive =>
      if primitive.arity ≠ op.arity then .error .arityMismatch
      else if s.depth < op.arity then .error .stackUnderflow
      else
        let operands := (s.types.take op.arity).reverse
        match checkOperands op primitive operands with
        | .error fault => .error fault
        | .ok () => .ok ((s.drop op.arity).push (.apply primitive) (op.result.resultType operands))

/-- The kind of a record's tag, which must have no further bits. -/
def exactKind? (tag : UInt64) : Option Kind :=
  Kind.ofTag? tag.toNat

/-- Checks one record. Texts are looked up with `read`. -/
def step (registry : Registry) (read : UInt64 → Option String) (params : Array Ty) (s : Checker)
    (r : Record) : Except Rejection Checker :=
  match exactKind? r.tag with
  | none => .error .invalidTag
  | some .parenthesis => applyOperator registry s r.payload
  | some .bool => .ok (s.push (.const (.bool (r.payload != 0))) .bool)
  | some .int => .ok (s.push (.const (.int r.payload.toInt64)) .int)
  | some .float => .ok (s.push (.const (.float ⟨r.payload⟩)) .float)
  | some .string =>
    match read r.payload with
    | none => .error .invalidStringConstant
    | some text =>
      let index := s.strings.size
      .ok ({ s with strings := s.strings.push text }.push (.text index) .string)
  | some .symbol =>
    match params[r.payload.toNat]? with
    | none => .error .parameterOutOfRange
    | some type => .ok (s.push (.argument r.payload.toNat type) type)

/-- Checks records in order. -/
def steps (registry : Registry) (read : UInt64 → Option String) (params : Array Ty)
    (s : Checker) : List Record → Except Rejection Checker
  | [] => .ok s
  | r :: records =>
    match step registry read params s r with
    | .error fault => .error fault
    | .ok s => steps registry read params s records

/-- The script of code that has been checked to the end: one value is left, and it is not a
text. -/
def finish (s : Checker) (returnsFloat : Bool) : Except Rejection Script :=
  match s.types with
  | [.string] => .error .stringResult
  | [_] => .ok ⟨s.code, s.strings, s.maxDepth, returnsFloat⟩
  | _ => .error .unbalancedStack

end Checker

namespace Script

/-- Checks code for parameters of given types. The mark of the first record says whether the
result is a float, and is no part of the tag. Texts are looked up with `read`. -/
def check (registry : Registry) (read : UInt64 → Option String) (words : List UInt64)
    (slotTags : List Nat) : Except Rejection Script :=
  match Record.ofWords? words with
  | none => .error .oddWordCount
  | some [] => .error .emptyProgram
  | some (first :: rest) =>
    match slotTags.mapM Ty.ofTag? with
    | none => .error .invalidArgumentType
    | some params =>
      match Checker.steps registry read params.toArray .start (first.clearMark :: rest) with
      | .error fault => .error fault
      | .ok s => s.finish first.returnsFloat

/-! ## Running -/

/-- The value of an argument word at a type. Texts are looked up with `read`. -/
def argumentCell? (read : UInt64 → Option String) (word : UInt64) : Ty → Option Cell
  | .bool => some (.bool (word != 0))
  | .int => some (.int word.toInt64)
  | .float => some (.float ⟨word⟩)
  | .string => (read word).map .str

/-- Carries out one instruction on a stack, the topmost value first. -/
def step (strings : Array String) (read : UInt64 → Option String) (args : Array UInt64)
    (stack : List Cell) : Instruction → Option (List Cell)
  | .const value => some (value :: stack)
  | .text index => strings[index]?.map fun text => .str text :: stack
  | .argument index type => (argumentCell? read (args.getD index 0) type).map (· :: stack)
  | .apply primitive => primitive.applyTop stack

/-- Carries out instructions in order. -/
def exec (strings : Array String) (read : UInt64 → Option String) (args : Array UInt64)
    (stack : List Cell) : List Instruction → Option (List Cell)
  | [] => some stack
  | instruction :: code =>
    (step strings read args stack instruction).bind fun stack => exec strings read args stack code

/-- Runs a script on argument words: the result word, or nothing if an argument cannot be read
or a primitive cannot take its operands. Missing arguments are zero. -/
def run (s : Script) (read : UInt64 → Option String) (args : Array UInt64) : Option UInt64 :=
  (exec s.strings read args [] s.code.toList).bind fun stack =>
    stack.head?.bind (Cell.toWord? s.returnsFloat)

/-- The word that a caller sees: zero stands for a run without result. -/
def entry (s : Script) (read : UInt64 → Option String) (args : Array UInt64) : UInt64 :=
  (s.run read args).getD 0

/-- The word that a caller sees who may have no script at all, which yields zero. -/
def entryOf (s : Option Script) (read : UInt64 → Option String) (args : Array UInt64) : UInt64 :=
  s.elim 0 (·.entry read args)

end Script

end Formula
