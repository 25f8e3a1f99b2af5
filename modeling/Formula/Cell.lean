import Formula.Binary64
import Formula.Kind

/-!
# Values on the stack

A value on the stack is a truth value, a 64-bit integer, a double or a text. Truth values and
numbers turn into one another; a text turns into nothing else.
-/

namespace Formula

/-- A value on the stack. -/
inductive Cell where
  | bool (b : Bool)
  | int (i : Int64)
  | float (x : Binary64)
  | str (s : String)
deriving DecidableEq

namespace Cell

/-- The type of a value. -/
def ty : Cell → Ty
  | bool _ => .bool
  | int _ => .int
  | float _ => .float
  | str _ => .string

/-- Whether a value is a double. -/
def isFloat : Cell → Bool
  | float _ => true
  | _ => false

/-- A value as an integer. -/
def toInt? : Cell → Option Int64
  | bool b => some (if b then 1 else 0)
  | int i => some i
  | float x => some x.toInt64
  | str _ => none

/-- A value as a double. -/
def toFloat? : Cell → Option Binary64
  | bool b => some (.ofBool b)
  | int i => some (.ofInt i.toInt)
  | float x => some x
  | str _ => none

/-- A value as a truth value: numbers other than zero are true. -/
def toBool? : Cell → Option Bool
  | bool b => some b
  | int i => some (i != 0)
  | float x => some x.isNonzero
  | str _ => none

/-- A value as a result word: the bits of a double, or an integer in two's complement. -/
def toWord? (asFloat : Bool) (c : Cell) : Option UInt64 :=
  if asFloat then c.toFloat?.map Binary64.bits else c.toInt?.map Int64.toUInt64

end Cell

end Formula
