import Formula.Expr
import Formula.Literal.Decimal
import Formula.Operator.Registry
import Formula.Program

/-!
# Programs from expressions

An expression is compiled by walking over it: an atom puts its value on the stack, and a form
compiles its operands and then applies its operator to them. A binary operator with more than
two operands is applied from left to right.

What has been compiled when an error arises is kept, so that a builder can be looked at after
every step.

The slots of parameters and the texts are kept in stores, which are only asked for a slot or to keep
one more text. Where nothing else is said, they are the plain lists of what was added.
-/

namespace Formula

/-! ## Errors -/

/-- Why an expression cannot be compiled. -/
inductive CompileError where
  /-- No operator has this name and takes this many operands. -/
  | unknownOperator (name : String) (count : Nat)
  /-- The symbol is not declared. -/
  | undeclaredSymbol (name : String)
  /-- The symbol is declared with a kind that writes no values. -/
  | invalidSymbolKind (name : String) (kind : Kind)
  /-- The word is not an integer. -/
  | invalidInteger (word : String)
  /-- The integer does not fit into a word. -/
  | integerOutOfRange (word : String)
  /-- The word is not a decimal number. -/
  | invalidFloat (word : String)
  /-- The text has too many bytes. -/
  | stringTooLarge (size : Nat)
  /-- The code is complete and takes no more expressions. -/
  | finalized
deriving DecidableEq, Repr

/-- The wording of a compile error. -/
def CompileError.message : CompileError → String
  | unknownOperator name _ => s!"operator {name} not found"
  | undeclaredSymbol name => s!"symbol {name} not found"
  | invalidSymbolKind name kind =>
    let kindName := kind.name
    s!"symbol {name} must have a value type, not {kindName}"
  | invalidInteger word => s!"invalid integer literal {word}"
  | integerOutOfRange word => s!"integer literal {word} out of range"
  | invalidFloat word => s!"invalid float literal {word}"
  | stringTooLarge size => s!"string too large ({size} bytes)"
  | finalized => "code already finalized"

/-! ## Declarations -/

/-- Symbols with the kinds they are declared with. -/
abbrev Declarations :=
  List (String × Kind)

namespace Declarations

/-- The symbol with the least name among those whose kind writes no values. -/
def leastInvalid? (symbols : Declarations) : Option (String × Kind) :=
  symbols.foldl (fun least? symbol =>
    if symbol.2.isValue then least?
    else
      match least? with
      | none => some symbol
      | some least => if symbol.1 < least.1 then some symbol else some least) none

/-- The symbols whose kind writes values, with their types. -/
def typed (symbols : Declarations) : List (String × Ty) :=
  symbols.filterMap fun symbol => symbol.2.ty?.map (symbol.1, ·)

end Declarations

/-- What an expression may refer to: operators and symbols. -/
structure Scope where
  /-- The operators. -/
  registry : Registry
  /-- The symbols with their types. -/
  symbols : List (String × Ty)

/-- The scope of a registry and declarations, all of which must be of value kinds. -/
def Scope.declare (registry : Registry) (symbols : Declarations) : Except CompileError Scope :=
  match symbols.leastInvalid? with
  | some (name, kind) => .error (.invalidSymbolKind name kind)
  | none => .ok ⟨registry, symbols.typed⟩

/-! ## Drafts -/

/-- Code under construction. -/
structure Draft (π : Type := Array (String × Ty)) (σ : Type := TextPool) where
  /-- The records so far. -/
  code : Array Record
  /-- The parameters so far. -/
  params : π
  /-- The number of slots so far that hold texts. -/
  textSlotCount : Nat
  /-- The texts so far. -/
  constants : σ
  /-- The number of values on the stack after the code so far. -/
  depth : Nat
  /-- The greatest number of values on the stack at any time. -/
  maxDepth : Nat

namespace Draft

variable {π σ : Type}

/-- The draft without code, with stores for parameters and texts. -/
def ofStores (params : π) (constants : σ) : Draft π σ :=
  ⟨#[], params, 0, constants, 0, 0⟩

/-- The draft without code. -/
def empty : Draft :=
  ofStores #[] .empty

/-- Adds a record that puts a value on the stack. -/
def pushOperand (d : Draft π σ) (r : Record) : Draft π σ :=
  { d with
    code := d.code.push r
    depth := d.depth + 1
    maxDepth := max d.maxDepth (d.depth + 1) }

/-- Adds a record that applies an operator. -/
def pushOperator (d : Draft π σ) (op : Operator) : Draft π σ :=
  { d with
    code := d.code.push (.apply op.opcode)
    depth := d.depth + 1 - op.arity }

/-- The slot of a parameter, and the draft in which it has one. A name that is new takes the
next slot. -/
def slotOf [SlotStore π] (d : Draft π σ) (name : String) (type : Ty) : Nat × Draft π σ :=
  match SlotStore.slot? d.params name with
  | some slot => (slot, d)
  | none =>
    let (slot, params) := SlotStore.add d.params name type
    (slot,
      { d with
        params := params
        textSlotCount := if type = .string then d.textSlotCount + 1 else d.textSlotCount })

/-- Adds a record that puts the argument for a parameter on the stack. -/
def pushSymbol [SlotStore π] (d : Draft π σ) (name : String) (type : Ty) : Draft π σ :=
  (d.slotOf name type).2.pushOperand (.ofKind .symbol (UInt64.ofNat (d.slotOf name type).1))

/-- Keeps a text and adds a record that puts it on the stack. -/
def pushText [TextStore σ] (d : Draft π σ) (text : String) : Draft π σ :=
  let (address, constants) := TextStore.retain d.constants text
  { d with constants := constants }.pushOperand (.ofKind .string address)

/-- The slots of the parameters, by name. -/
def slots [SlotStore π] (d : Draft π σ) : List (String × Nat) :=
  SlotStore.slots d.params

/-- The types of the slots. -/
def slotTypes [SlotStore π] (d : Draft π σ) : List Ty :=
  SlotStore.types d.params

/-- The bytes of the stack at its highest, eight for each value. -/
def maxStackBytes (d : Draft π σ) : Nat :=
  d.maxDepth * 8

/-! ### What the steps leave as it is -/

section Fields

variable (d : Draft π σ) (r : Record) (op : Operator) (name text : String) (type : Ty)

@[simp]
theorem code_pushOperand : (d.pushOperand r).code = d.code.push r := rfl

@[simp]
theorem params_pushOperand : (d.pushOperand r).params = d.params := rfl

@[simp]
theorem textSlotCount_pushOperand : (d.pushOperand r).textSlotCount = d.textSlotCount := rfl

@[simp]
theorem constants_pushOperand : (d.pushOperand r).constants = d.constants := rfl

@[simp]
theorem depth_pushOperand : (d.pushOperand r).depth = d.depth + 1 := rfl

@[simp]
theorem maxDepth_pushOperand : (d.pushOperand r).maxDepth = max d.maxDepth (d.depth + 1) := rfl

@[simp]
theorem code_pushOperator : (d.pushOperator op).code = d.code.push (.apply op.opcode) := rfl

@[simp]
theorem params_pushOperator : (d.pushOperator op).params = d.params := rfl

@[simp]
theorem textSlotCount_pushOperator : (d.pushOperator op).textSlotCount = d.textSlotCount := rfl

@[simp]
theorem constants_pushOperator : (d.pushOperator op).constants = d.constants := rfl

@[simp]
theorem depth_pushOperator : (d.pushOperator op).depth = d.depth + 1 - op.arity := rfl

@[simp]
theorem maxDepth_pushOperator : (d.pushOperator op).maxDepth = d.maxDepth := rfl

section Slots

variable [SlotStore π]

@[simp]
theorem code_slotOf : (d.slotOf name type).2.code = d.code := by
  unfold slotOf
  split <;> rfl

@[simp]
theorem constants_slotOf : (d.slotOf name type).2.constants = d.constants := by
  unfold slotOf
  split <;> rfl

@[simp]
theorem depth_slotOf : (d.slotOf name type).2.depth = d.depth := by
  unfold slotOf
  split <;> rfl

@[simp]
theorem maxDepth_slotOf : (d.slotOf name type).2.maxDepth = d.maxDepth := by
  unfold slotOf
  split <;> rfl

@[simp]
theorem code_pushSymbol :
    (d.pushSymbol name type).code =
      d.code.push (.ofKind .symbol (UInt64.ofNat (d.slotOf name type).1)) := by
  simp [pushSymbol]

@[simp]
theorem params_pushSymbol : (d.pushSymbol name type).params = (d.slotOf name type).2.params := rfl

@[simp]
theorem textSlotCount_pushSymbol :
    (d.pushSymbol name type).textSlotCount = (d.slotOf name type).2.textSlotCount := rfl

@[simp]
theorem constants_pushSymbol : (d.pushSymbol name type).constants = d.constants := by
  simp [pushSymbol]

@[simp]
theorem depth_pushSymbol : (d.pushSymbol name type).depth = d.depth + 1 := by
  simp [pushSymbol]

@[simp]
theorem maxDepth_pushSymbol :
    (d.pushSymbol name type).maxDepth = max d.maxDepth (d.depth + 1) := by
  simp [pushSymbol]

end Slots

section Texts

variable [TextStore σ]

@[simp]
theorem code_pushText :
    (d.pushText text).code = d.code.push (.ofKind .string (TextStore.retain d.constants text).1) :=
  rfl

@[simp]
theorem params_pushText : (d.pushText text).params = d.params := rfl

@[simp]
theorem textSlotCount_pushText : (d.pushText text).textSlotCount = d.textSlotCount := rfl

@[simp]
theorem constants_pushText :
    (d.pushText text).constants = (TextStore.retain d.constants text).2 := rfl

@[simp]
theorem depth_pushText : (d.pushText text).depth = d.depth + 1 := rfl

@[simp]
theorem maxDepth_pushText : (d.pushText text).maxDepth = max d.maxDepth (d.depth + 1) := rfl

end Texts

end Fields

end Draft

/-! ## Compiling -/

/-- Texts with this many bytes or more are refused. -/
def textSizeLimit : Nat :=
  0x7ffffffd

namespace Draft

variable {π σ : Type}

/-- Compiles a truth value; every word but `true` is false. -/
def emitBool (d : Draft π σ) (word : String) : Except CompileError Ty × Draft π σ :=
  (.ok .bool, d.pushOperand (.ofKind .bool (if word = "true" then 1 else 0)))

/-- Compiles an integer. -/
def emitInteger (d : Draft π σ) (word : String) : Except CompileError Ty × Draft π σ :=
  match Literal.integer word.toList with
  | .ok bits => (.ok .int, d.pushOperand (.ofKind .int bits))
  | .error .malformed => (.error (.invalidInteger word), d)
  | .error .outOfRange => (.error (.integerOutOfRange word), d)

/-- Compiles a decimal number. -/
def emitFloat (d : Draft π σ) (word : String) : Except CompileError Ty × Draft π σ :=
  match Literal.decimal? word.toList with
  | some value => (.ok .float, d.pushOperand (.ofKind .float value.bits))
  | none => (.error (.invalidFloat word), d)

/-- Compiles a text. -/
def emitText [TextStore σ] (d : Draft π σ) (text : String) : Except CompileError Ty × Draft π σ :=
  if textSizeLimit ≤ text.utf8ByteSize then (.error (.stringTooLarge text.utf8ByteSize), d)
  else (.ok .string, d.pushText text)

/-- Compiles a symbol. -/
def emitSymbol [SlotStore π] (d : Draft π σ) (scope : Scope) (name : String) :
    Except CompileError Ty × Draft π σ :=
  match scope.symbols.lookup name with
  | none => (.error (.undeclaredSymbol name), d)
  | some type => (.ok type, d.pushSymbol name type)

variable [SlotStore π] [TextStore σ]

mutual

/-- Compiles an expression: the type of the value that its code leaves on the stack, or the
first error, and the draft with the code so far. A form needs an operator for the number of
its operands. -/
def emit (scope : Scope) (d : Draft π σ) : Expr → Except CompileError Ty × Draft π σ
  | .node .parenthesis name operands =>
    match scope.registry.resolve name operands.length, operands with
    | some op, first :: rest =>
      match emit scope d first with
      | (.error fault, d) => (.error fault, d)
      | (.ok type, d) =>
        if op.arity = 1 then
          emitRest scope op (op.result.resultType [type]) (d.pushOperator op) rest
        else emitRest scope op type d rest
    | _, _ => (.error (.unknownOperator name operands.length), d)
  | .node .bool text _ => d.emitBool text
  | .node .int text _ => d.emitInteger text
  | .node .float text _ => d.emitFloat text
  | .node .string text _ => d.emitText text
  | .node .symbol text _ => d.emitSymbol scope text

/-- Compiles the operands after the first, and applies the operator to the value so far, whose
type is `type`, and each of them. -/
def emitRest (scope : Scope) (op : Operator) (type : Ty) (d : Draft π σ) :
    List Expr → Except CompileError Ty × Draft π σ
  | [] => (.ok type, d)
  | operand :: rest =>
    match emit scope d operand with
    | (.error fault, d) => (.error fault, d)
    | (.ok right, d) =>
      emitRest scope op (op.result.resultType [type, right]) (d.pushOperator op) rest

end

end Draft

/-! ## Builders -/

/-- A builder takes expressions one after another until it is finalized. -/
structure Builder (π : Type := Array (String × Ty)) (σ : Type := TextPool) where
  /-- What the expressions may refer to. -/
  scope : Scope
  /-- The code so far. -/
  draft : Draft π σ
  /-- The type of the last expression that was compiled. -/
  result : Option Ty
  /-- Whether the code is complete. -/
  isFinalized : Bool

namespace Builder

variable {π σ : Type}

/-- A builder without code, with stores for parameters and texts. -/
def ofStores (scope : Scope) (params : π) (constants : σ) : Builder π σ :=
  ⟨scope, .ofStores params constants, none, false⟩

/-- A builder without code. -/
def ofScope (scope : Scope) : Builder :=
  ⟨scope, .empty, none, false⟩

/-- Whether the last expression yields a float. -/
def returnsFloat (b : Builder π σ) : Bool :=
  b.result == some .float

/-- Compiles one more expression. A failure leaves the type of the result as it was. -/
def append [SlotStore π] [TextStore σ] (b : Builder π σ) (e : Expr) :
    Except CompileError Ty × Builder π σ :=
  if b.isFinalized then (.error .finalized, b)
  else
    match b.draft.emit b.scope e with
    | (.ok type, draft) => (.ok type, { b with draft := draft, result := some type })
    | (.error fault, draft) => (.error fault, { b with draft := draft })

/-- Completes the code. The first record of code that yields a float is marked, once. -/
def finalize (b : Builder π σ) : Builder π σ :=
  if b.isFinalized then b
  else
    let code := if b.returnsFloat then b.draft.code.modify 0 Record.markFloat else b.draft.code
    { b with draft := { b.draft with code := code }, isFinalized := true }

/-- The program of a builder's code. -/
def toProgram [SlotStore π] (b : Builder π σ) : Program σ :=
  let b := b.finalize
  { code := b.draft.code
    slots := b.draft.slots
    slotTypes := b.draft.slotTypes
    maxStackBytes := b.draft.maxStackBytes
    returnsFloat := b.returnsFloat
    constants := b.draft.constants }

end Builder

/-- Compiles an expression to a program. -/
def Program.compile (e : Expr) (symbols : Declarations) (registry : Registry) :
    Except CompileError Program :=
  match Scope.declare registry symbols with
  | .error fault => .error fault
  | .ok scope =>
    match (Builder.ofScope scope).append e with
    | (.error fault, _) => .error fault
    | (.ok _, b) => .ok b.toProgram

end Formula
