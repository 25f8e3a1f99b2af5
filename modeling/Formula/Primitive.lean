import Formula.Binary64
import Formula.Cell
import Formula.Text

/-!
# Primitives

The computations behind the operators, on values of the stack. Arithmetic is done on doubles
if an operand is a double and on integers that wrap around otherwise.
-/

namespace Formula

/-! ## The primitives -/

/-- Functions of one double. -/
inductive FloatFunction where
  | acos | asin | atan | ceil | cos | cosh | exp | floor | log | log10
  | rint | round | sin | sinh | sqrt | tan | tanh | trunc
deriving DecidableEq, Repr

/-- Primitives of one operand. -/
inductive UnaryPrimitive where
  | neg | abs | not | toBool | toNotBool | sign
  | isNaN | isFinite | isInfinite
  | textLength
  | function (f : FloatFunction)
deriving DecidableEq, Repr

/-- Primitives of two operands. -/
inductive BinaryPrimitive where
  | add | sub | mul | div | rem | min | max
  | and | or | xor | shl | sar | shr
  | logicalAnd | logicalOr
  | eq | ne | lt | le | gt | ge | cmpl | cmpg
  | atan2 | pow
  | textIndex
deriving DecidableEq, Repr

/-- A primitive. -/
inductive Primitive where
  | unary (p : UnaryPrimitive)
  | binary (p : BinaryPrimitive)
deriving DecidableEq, Repr

namespace Primitive

/-- The primitives by the names that operators use for them. -/
def names : List (String × Primitive) :=
  [ ("add", .binary .add), ("sub", .binary .sub), ("neg", .unary .neg), ("mul", .binary .mul),
    ("div", .binary .div), ("rem", .binary .rem), ("and", .binary .and), ("or", .binary .or),
    ("xor", .binary .xor), ("not", .unary .not), ("shl", .binary .shl), ("sar", .binary .sar),
    ("shr", .binary .shr), ("logical_and", .binary .logicalAnd),
    ("logical_or", .binary .logicalOr), ("eq", .binary .eq), ("ne", .binary .ne),
    ("lt", .binary .lt), ("le", .binary .le), ("gt", .binary .gt), ("ge", .binary .ge),
    ("cmpl", .binary .cmpl), ("cmpg", .binary .cmpg), ("to_bool", .unary .toBool),
    ("to_not_bool", .unary .toNotBool), ("acos", .unary (.function .acos)),
    ("asin", .unary (.function .asin)), ("atan", .unary (.function .atan)),
    ("atan2", .binary .atan2), ("ceil", .unary (.function .ceil)),
    ("cos", .unary (.function .cos)), ("cosh", .unary (.function .cosh)),
    ("exp", .unary (.function .exp)), ("floor", .unary (.function .floor)),
    ("log", .unary (.function .log)), ("log10", .unary (.function .log10)),
    ("pow", .binary .pow), ("rint", .unary (.function .rint)),
    ("round", .unary (.function .round)), ("sin", .unary (.function .sin)),
    ("sinh", .unary (.function .sinh)), ("sqrt", .unary (.function .sqrt)),
    ("tan", .unary (.function .tan)), ("tanh", .unary (.function .tanh)),
    ("trunc", .unary (.function .trunc)), ("is_nan", .unary .isNaN),
    ("is_finite", .unary .isFinite), ("is_inf", .unary .isInfinite), ("abs", .unary .abs),
    ("min", .binary .min), ("max", .binary .max), ("sign", .unary .sign),
    ("str_len", .unary .textLength), ("str_index", .binary .textIndex) ]

/-- The primitive with a name. -/
def ofName? (name : String) : Option Primitive :=
  names.lookup name

/-- The number of operands. -/
def arity : Primitive → Nat
  | unary _ => 1
  | binary _ => 2

/-- Whether texts make sense as operands. -/
def acceptsText : Primitive → Bool
  | unary .textLength | binary .eq | binary .ne | binary .textIndex => true
  | _ => false

end Primitive

/-! ## One operand -/

/-- The value of a function of one double. -/
def FloatFunction.apply : FloatFunction → Binary64 → Binary64
  | acos => .lift₁ Float.acos
  | asin => .lift₁ Float.asin
  | atan => .lift₁ Float.atan
  | ceil => .ceil
  | cos => .lift₁ Float.cos
  | cosh => .lift₁ Float.cosh
  | exp => .lift₁ Float.exp
  | floor => .floor
  | log => .lift₁ Float.log
  | log10 => .lift₁ Float.log10
  | rint => .rint
  | round => .round
  | sin => .lift₁ Float.sin
  | sinh => .lift₁ Float.sinh
  | sqrt => .lift₁ Float.sqrt
  | tan => .lift₁ Float.tan
  | tanh => .lift₁ Float.tanh
  | trunc => .trunc

/-- The sign of an integer: minus one, zero or one. -/
def signOfInt (i : Int64) : Int64 :=
  if i < 0 then -1 else if i = 0 then 0 else 1

/-- The sign of a double; zeros and values that are not numbers have none. -/
def signOfFloat (x : Binary64) : Int64 :=
  if x.isNaN || !x.isNonzero then 0 else if x.isNegative then -1 else 1

/-- Applies one of two functions to a value, the second if it is a double. -/
def Cell.arith₁ (a : Cell) (onInt : Int64 → Int64) (onFloat : Binary64 → Binary64) :
    Option Cell :=
  if a.isFloat then a.toFloat?.map fun x => .float (onFloat x)
  else a.toInt?.map fun i => .int (onInt i)

/-- Applies a primitive of one operand; nothing comes of operands that it cannot take. -/
def UnaryPrimitive.apply (p : UnaryPrimitive) (a : Cell) : Option Cell :=
  match p with
  | neg => a.arith₁ (fun i => -i) .neg
  | abs => a.arith₁ (fun i => if i < 0 then -i else i) .abs
  | not => a.toInt?.map fun i => .int (~~~i)
  | toBool => a.toBool?.map .bool
  | toNotBool => a.toBool?.map fun b => .bool !b
  | sign =>
    match a with
    | .float x => some (.int (signOfFloat x))
    | a => a.toInt?.map fun i => .int (signOfInt i)
  | isNaN => a.toFloat?.map fun x => .bool x.isNaN
  | isFinite => a.toFloat?.map fun x => .bool x.isFinite
  | isInfinite => a.toFloat?.map fun x => .bool x.isInfinite
  | textLength =>
    match a with
    | .str s => some (.int (Int64.ofNat s.utf8ByteSize))
    | _ => none
  | function f => a.toFloat?.map fun x => .float (f.apply x)

/-! ## Two operands -/

/-- Applies one of two functions to two values, the second if one of them is a double. -/
def Cell.arith₂ (a b : Cell) (onInt : Int64 → Int64 → Int64)
    (onFloat : Binary64 → Binary64 → Binary64) : Option Cell :=
  if a.isFloat || b.isFloat then do
    let x ← a.toFloat?
    let y ← b.toFloat?
    some (.float (onFloat x y))
  else do
    let i ← a.toInt?
    let j ← b.toInt?
    some (.int (onInt i j))

/-- Applies a function of two integers. -/
def Cell.bits₂ (a b : Cell) (onInt : Int64 → Int64 → Int64) : Option Cell := do
  let i ← a.toInt?
  let j ← b.toInt?
  some (.int (onInt i j))

/-- Applies a function of two doubles. -/
def Cell.float₂ (a b : Cell) (onFloat : Binary64 → Binary64 → Binary64) : Option Cell := do
  let x ← a.toFloat?
  let y ← b.toFloat?
  some (.float (onFloat x y))

/-- The order of two values as numbers, if both turn into numbers; inside, nothing stands for
values that have no order. -/
def Cell.order? (a b : Cell) : Option (Option Ordering) :=
  if a.isFloat || b.isFloat then do
    let x ← a.toFloat?
    let y ← b.toFloat?
    some (Binary64.order? x y)
  else do
    let i ← a.toInt?
    let j ← b.toInt?
    some (some (compare i.toInt j.toInt))

/-- Applies a test to the order of two values. -/
def Cell.compare₂ (a b : Cell) (test : Option Ordering → Bool) : Option Cell :=
  (a.order? b).map fun o => .bool (test o)

/-- The sign of an order. -/
def signOfOrder : Ordering → Int64
  | .lt => -1
  | .eq => 0
  | .gt => 1

/-- Whether two values are equal: texts by their characters, numbers as doubles if one of them
is a double and as integers otherwise. A text never equals a number. -/
def Cell.equal (a b : Cell) : Bool :=
  match a, b with
  | .str s, .str t => s == t
  | .str _, _ | _, .str _ => false
  | a, b =>
    if a.isFloat || b.isFloat then
      match a.toFloat?, b.toFloat? with
      | some x, some y => x.same y
      | _, _ => false
    else a.toInt? == b.toInt?

/-- Applies a primitive of two operands; nothing comes of operands that it cannot take. A
logical connective does not look at its second operand if the first one decides. -/
def BinaryPrimitive.apply (p : BinaryPrimitive) (a b : Cell) : Option Cell :=
  match p with
  | add => a.arith₂ b (· + ·) .add
  | sub => a.arith₂ b (· - ·) .sub
  | mul => a.arith₂ b (· * ·) .mul
  | div => a.arith₂ b (fun i j => if j = 0 then 0 else i / j) .div
  | rem => a.arith₂ b (fun i j => if j = 0 then 0 else i % j) .rem
  | min => a.arith₂ b (fun i j => if j < i then j else i) .min
  | max => a.arith₂ b (fun i j => if i < j then j else i) .max
  | and => a.bits₂ b (· &&& ·)
  | or => a.bits₂ b (· ||| ·)
  | xor => a.bits₂ b (· ^^^ ·)
  | shl => a.bits₂ b (· <<< ·)
  | sar => a.bits₂ b (· >>> ·)
  | shr => a.bits₂ b fun i j => (i.toUInt64 >>> j.toUInt64).toInt64
  | logicalAnd => a.toBool?.bind fun x => if x then b.toBool?.map .bool else some (.bool false)
  | logicalOr => a.toBool?.bind fun x => if x then some (.bool true) else b.toBool?.map .bool
  | eq => some (.bool (a.equal b))
  | ne => some (.bool !(a.equal b))
  | lt => a.compare₂ b (· == some .lt)
  | le => a.compare₂ b fun o => o == some .lt || o == some .eq
  | gt => a.compare₂ b (· == some .gt)
  | ge => a.compare₂ b fun o => o == some .gt || o == some .eq
  | cmpl => (a.order? b).map fun o => .int (o.elim (-1) signOfOrder)
  | cmpg => (a.order? b).map fun o => .int (o.elim 1 signOfOrder)
  | atan2 => a.float₂ b (.lift₂ Float.atan2)
  | pow => a.float₂ b (.lift₂ Float.pow)
  | textIndex =>
    match a, b with
    | .str s, .str t => some (.int ((Text.find? s t).elim (-1) Int64.ofNat))
    | _, _ => none

/-- Replaces the operands on top of a stack, the last one first, by the result of a primitive. -/
def Primitive.applyTop (p : Primitive) (stack : List Cell) : Option (List Cell) :=
  match p, stack with
  | unary p, a :: stack => (p.apply a).map (· :: stack)
  | binary p, b :: a :: stack => (p.apply a b).map (· :: stack)
  | _, _ => none

end Formula
