import Formula.Frame
import Formula.Program
import Formula.Script
import Formula.Text.Quoted

/-!
# Functions

A function is a program together with the script it runs as. It can be called until it is
released.
-/

namespace Formula

/-! ## Errors -/

/-- Why a call fails. -/
inductive CallError where
  /-- No argument is given for the parameter. -/
  | missingParameter (name : String)
  /-- A text is given for a parameter of another type. -/
  | fromText (name : String)
  /-- Something other than a text is given for a parameter that is one. -/
  | intoText (name : String)
  /-- There are fewer words than parameters. -/
  | notEnoughArguments (expected got : Nat)
  /-- The function has been released. -/
  | released
deriving DecidableEq, Repr

/-- The wording of a call error. -/
def CallError.message : CallError → String
  | missingParameter name => s!"parameter {name} not found"
  | fromText name => s!"unsupported conversion from string for parameter {name}"
  | intoText name => s!"unsupported conversion into string for parameter {name}"
  | notEnoughArguments expected got => s!"arguments not enough: expected {expected}, got {got}"
  | released => "function already released"

/-- A slot error at a parameter. -/
def SlotError.atParameter (name : String) : SlotError → CallError
  | fromText => .fromText name
  | intoText => .intoText name

/-! ## Functions -/

/-- A program that can be called. -/
structure Function where
  /-- What the function is known by while it has not been released. -/
  handle : Option Nat
  /-- The program. -/
  program : Program
  /-- The program's code after checking. -/
  script : Script
  /-- The bytes of stack that a call asks for. -/
  requiredStack : Nat

/-- Named arguments. -/
abbrev Arguments :=
  List (String × Argument)

namespace Function

/-- Whether the function has been released. -/
def isReleased (f : Function) : Bool :=
  f.handle.isNone

/-- The function after its release. -/
def release (f : Function) : Function :=
  { f with handle := none }

/-- The slot of a parameter. -/
def slotOf? (f : Function) (name : String) : Option Nat :=
  f.program.slots.lookup name

/-- What goes into the slots of parameters, or the first error. -/
def slotsFor (args : Arguments) : List (String × Ty) → Except CallError (List Slot)
  | [] => .ok []
  | (name, type) :: params =>
    match args.lookup name with
    | none => .error (.missingParameter name)
    | some argument =>
      match argument.toSlot type with
      | .error fault => .error (fault.atParameter name)
      | .ok slot =>
        match slotsFor args params with
        | .error fault => .error fault
        | .ok slots => .ok (slot :: slots)

/-- The outcome of running the function on argument words. -/
def invoke (f : Function) (read : UInt64 → Option String) (words : Array UInt64) : Outcome :=
  .ofWord f.program.returnsFloat (f.script.entry read words)

/-- Calls the function with named arguments. Every parameter must be given; other names do not
matter. -/
def call (f : Function) (args : Arguments) : Except CallError Outcome :=
  if f.isReleased then .error .released
  else
    match slotsFor args (f.program.slotNames.zip f.program.slotTypes) with
    | .error fault => .error fault
    | .ok slots =>
      let frame := Frame.ofSlots slots
      .ok (f.invoke frame.text? frame.words)

/-- Calls the function with argument words in the order of the slots. Texts are looked up with
`read`. -/
def callWords (f : Function) (read : UInt64 → Option String) (words : Array UInt64) :
    Except CallError Outcome :=
  let expected := f.program.slotTypes.length
  if f.isReleased then .error .released
  else if words.size < expected then .error (.notEnoughArguments expected words.size)
  else .ok (f.invoke read words)

/-! ## Descriptions -/

/-- The word for a type in a description. -/
def typeWord : Ty → String
  | .bool => "Bool"
  | .int => "Int"
  | .float => "Float"
  | .string => "String"

/-- A list in square brackets. -/
def bracketed (members : List String) : String :=
  "[" ++ ", ".intercalate members ++ "]"

/-- A description of the function, in which `H` stands for a handle and `0` for none. -/
def describe (f : Function) : String :=
  let handle := if f.isReleased then "0" else "H"
  let names := bracketed (f.program.slotNames.map Text.quote)
  let types := bracketed (f.program.slotTypes.map typeWord)
  let height := f.program.maxStackBytes
  let float := f.program.returnsFloat
  "Function \x7b handle: " ++ s!"{handle}, arguments: {names}, argument_types: {types}, "
    ++ s!"max_stack: {height}, returns_float: {float}, .. " ++ "\x7d"

end Function

end Formula
