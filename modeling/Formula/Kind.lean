/-!
# Kinds of words and types of values

A formula is made of words of six kinds. Four of the kinds are also the types of the values
that a formula computes with.
-/

namespace Formula

/-! ## Kinds -/

/-- The kind of a word: a parenthesis (or the form it opens), a value of one of four types,
or a symbol. -/
inductive Kind where
  | parenthesis
  | bool
  | int
  | float
  | string
  | symbol
deriving DecidableEq, Repr, Inhabited

namespace Kind

/-- The number that stands for a kind in compiled code. -/
def tag : Kind → Nat
  | parenthesis => 0
  | bool => 1
  | int => 2
  | float => 3
  | string => 4
  | symbol => 5

/-- The kind that a number stands for. -/
def ofTag? : Nat → Option Kind
  | 0 => some parenthesis
  | 1 => some bool
  | 2 => some int
  | 3 => some float
  | 4 => some string
  | 5 => some symbol
  | _ => none

@[simp]
theorem ofTag?_tag (k : Kind) : ofTag? k.tag = some k := by
  cases k <;> rfl

/-- The word for a kind. -/
def name : Kind → String
  | parenthesis => "parenthesis"
  | bool => "bool"
  | int => "int"
  | float => "float"
  | string => "string"
  | symbol => "symbol"

end Kind

/-! ## Types -/

/-- The type of a value. -/
inductive Ty where
  | bool
  | int
  | float
  | string
deriving DecidableEq, Repr, Inhabited

namespace Ty

/-- The kind of the words that write values of a type. -/
def kind : Ty → Kind
  | bool => .bool
  | int => .int
  | float => .float
  | string => .string

/-- The number that stands for a type in compiled code. -/
def tag (t : Ty) : Nat :=
  t.kind.tag

/-- The word for a type. -/
def name (t : Ty) : String :=
  t.kind.name

/-- Numeric types are all but text. -/
def isNumeric (t : Ty) : Bool :=
  t != .string

end Ty

/-- The type whose values a kind of word writes. -/
def Kind.ty? : Kind → Option Ty
  | .bool => some .bool
  | .int => some .int
  | .float => some .float
  | .string => some .string
  | .parenthesis | .symbol => none

/-- Value kinds are those that write values of some type. -/
def Kind.isValue (k : Kind) : Bool :=
  k.ty?.isSome

/-- The type that a number stands for. -/
def Ty.ofTag? (n : Nat) : Option Ty :=
  (Kind.ofTag? n).bind Kind.ty?

@[simp]
theorem Ty.ty?_kind (t : Ty) : t.kind.ty? = some t := by
  cases t <;> rfl

@[simp]
theorem Ty.ofTag?_tag (t : Ty) : Ty.ofTag? t.tag = some t := by
  cases t <;> rfl

end Formula
