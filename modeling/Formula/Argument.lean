import Formula.Binary64
import Formula.Kind

/-!
# Arguments and outcomes of calls

A caller passes arguments of its own types, which are turned into the types of the parameters,
and gets back a word or a double.
-/

namespace Formula

/-! ## Arguments -/

/-- A value that a caller passes. -/
inductive Argument where
  | bool (b : Bool)
  | int (i : Int64)
  /-- An integer without sign; as a double it has its own value, not the signed one. -/
  | uint (u : UInt64)
  | float (x : Binary64)
  | str (s : String)
deriving DecidableEq

namespace Argument

/-- An argument as a truth word: one for numbers other than zero. Texts have none. -/
def boolWord? : Argument → Option UInt64
  | bool b => some b.toUInt64
  | int i => some (i != 0).toUInt64
  | uint u => some (u != 0).toUInt64
  | float x => some x.isNonzero.toUInt64
  | str _ => none

/-- An argument as an integer word. Texts have none. -/
def intWord? : Argument → Option UInt64
  | bool b => some b.toUInt64
  | int i => some i.toUInt64
  | uint u => some u
  | float x => some x.toInt64.toUInt64
  | str _ => none

/-- An argument as the bits of a double. Texts have none. -/
def floatWord? : Argument → Option UInt64
  | bool b => some (Binary64.ofBool b).bits
  | int i => some (Binary64.ofInt i.toInt).bits
  | uint u => some (Binary64.ofInt u.toNat).bits
  | float x => some x.bits
  | str _ => none

end Argument

/-- What goes into the slot of a parameter. -/
inductive Slot where
  | word (w : UInt64)
  | text (s : String)
deriving DecidableEq

/-- Why an argument does not go into a slot. -/
inductive SlotError where
  /-- A text for a slot of another type. -/
  | fromText
  /-- Something else for a slot of texts. -/
  | intoText
deriving DecidableEq, Repr

/-- Turns an argument into what goes into a slot of a type. -/
def Argument.toSlot (a : Argument) (type : Ty) : Except SlotError Slot :=
  match type with
  | .bool => a.boolWord?.elim (.error .fromText) (.ok <| .word ·)
  | .int => a.intWord?.elim (.error .fromText) (.ok <| .word ·)
  | .float => a.floatWord?.elim (.error .fromText) (.ok <| .word ·)
  | .string =>
    match a with
    | str s => .ok (.text s)
    | _ => .error .intoText

/-! ## Outcomes -/

/-- What a call gives back. -/
inductive Outcome where
  | word (w : UInt64)
  | float (x : Binary64)
deriving DecidableEq

namespace Outcome

/-- The outcome of a word, read as a double or as it stands. -/
def ofWord (asFloat : Bool) (w : UInt64) : Outcome :=
  if asFloat then float ⟨w⟩ else word w

/-- The outcome as a word. -/
def toUInt64 : Outcome → UInt64
  | word w => w
  | float x => x.bits

/-- The outcome as a signed integer; the fraction of a double is cut off. -/
def toInt64 : Outcome → Int64
  | word w => w.toInt64
  | float x => x.toInt64

/-- The outcome as a double; words are read as signed integers. -/
def toFloat : Outcome → Binary64
  | word w => .ofInt w.toInt64.toInt
  | float x => x

/-- The outcome as a truth value: all but zero is true. -/
def toBool : Outcome → Bool
  | word w => w != 0
  | float x => x.isNonzero

/-- Whether the outcome is a double. -/
def isFloat : Outcome → Bool
  | word _ => false
  | float _ => true

end Outcome

end Formula
