import Formula.Operator.Builtin
import Formula.Primitive
import Mathlib.Data.List.Basic
import Mathlib.Tactic.Common

/-!
# What primitives take and yield

Whether a primitive can take its operands depends on which of them are texts, not on their
types beyond that (`exists_apply_of_takes`). The type of a result follows from the types of the
operands by one rule for each primitive (`ty_of_apply`), and for the built-in operators this is
the rule that their table gives (`builtinOperators_agree`).
-/

namespace Formula

/-! ## Texts and numbers -/

/-- Whether a type is that of texts. -/
def Ty.isText (t : Ty) : Bool :=
  t == .string

namespace Cell

/-- Whether a value is a text. -/
def isText (c : Cell) : Bool :=
  c.ty.isText

/-- Values other than texts turn into integers. -/
theorem exists_toInt? {c : Cell} (h : c.isText = false) : ∃ i, c.toInt? = some i := by
  cases c with
  | bool | int | float => exact ⟨_, rfl⟩
  | str => cases h

/-- Values other than texts turn into doubles. -/
theorem exists_toFloat? {c : Cell} (h : c.isText = false) : ∃ x, c.toFloat? = some x := by
  cases c with
  | bool | int | float => exact ⟨_, rfl⟩
  | str => cases h

/-- Values other than texts turn into truth values. -/
theorem exists_toBool? {c : Cell} (h : c.isText = false) : ∃ b, c.toBool? = some b := by
  cases c with
  | bool | int | float => exact ⟨_, rfl⟩
  | str => cases h

/-- Values other than texts turn into result words. -/
theorem exists_toWord? {c : Cell} (h : c.isText = false) (asFloat : Bool) :
    ∃ w, c.toWord? asFloat = some w := by
  obtain ⟨i, hi⟩ := exists_toInt? h
  obtain ⟨x, hx⟩ := exists_toFloat? h
  cases asFloat with
  | false => exact ⟨i.toUInt64, by simp [toWord?, hi]⟩
  | true => exact ⟨x.bits, by simp [toWord?, hx]⟩

/-! ## Families of computations -/

variable {a b c : Cell} {onInt : Int64 → Int64} {onFloat : Binary64 → Binary64}
  {onInt₂ : Int64 → Int64 → Int64} {onFloat₂ : Binary64 → Binary64 → Binary64}
  {test : Option Ordering → Bool}

/-- Arithmetic on one value yields a double for a double and an integer otherwise. -/
theorem ty_of_arith₁ (h : a.arith₁ onInt onFloat = some c) :
    c.ty = ResultRule.promote.resultType [a.ty] := by
  cases a with
  | bool | int | float => cases h; rfl
  | str => cases h

/-- Arithmetic takes every value that is not a text. -/
theorem exists_arith₁ (ha : a.isText = false) : ∃ c, a.arith₁ onInt onFloat = some c := by
  cases a with
  | bool | int | float => exact ⟨_, rfl⟩
  | str => cases ha

/-- Arithmetic on two values yields a double if one of them is a double and an integer
otherwise. -/
theorem ty_of_arith₂ (h : a.arith₂ b onInt₂ onFloat₂ = some c) :
    c.ty = ResultRule.promote.resultType [a.ty, b.ty] := by
  cases a <;> cases b <;> cases h <;> rfl

/-- Arithmetic takes every two values that are not texts. -/
theorem exists_arith₂ (ha : a.isText = false) (hb : b.isText = false) :
    ∃ c, a.arith₂ b onInt₂ onFloat₂ = some c := by
  obtain ⟨i, hi⟩ := exists_toInt? ha
  obtain ⟨j, hj⟩ := exists_toInt? hb
  obtain ⟨x, hx⟩ := exists_toFloat? ha
  obtain ⟨y, hy⟩ := exists_toFloat? hb
  unfold arith₂
  split
  · exact ⟨.float (onFloat₂ x y), by simp [hx, hy]⟩
  · exact ⟨.int (onInt₂ i j), by simp [hi, hj]⟩

theorem ty_of_bits₂ (h : a.bits₂ b onInt₂ = some c) : c.ty = .int := by
  cases a <;> cases b <;> cases h <;> rfl

/-- Functions of integers take every two values that are not texts. -/
theorem exists_bits₂ (ha : a.isText = false) (hb : b.isText = false) :
    ∃ c, a.bits₂ b onInt₂ = some c := by
  obtain ⟨i, hi⟩ := exists_toInt? ha
  obtain ⟨j, hj⟩ := exists_toInt? hb
  exact ⟨.int (onInt₂ i j), by simp [bits₂, hi, hj]⟩

theorem ty_of_float₂ (h : a.float₂ b onFloat₂ = some c) : c.ty = .float := by
  cases a <;> cases b <;> cases h <;> rfl

/-- Functions of doubles take every two values that are not texts. -/
theorem exists_float₂ (ha : a.isText = false) (hb : b.isText = false) :
    ∃ c, a.float₂ b onFloat₂ = some c := by
  obtain ⟨x, hx⟩ := exists_toFloat? ha
  obtain ⟨y, hy⟩ := exists_toFloat? hb
  exact ⟨.float (onFloat₂ x y), by simp [float₂, hx, hy]⟩

/-- Every two values that are not texts are compared. -/
theorem exists_order? (ha : a.isText = false) (hb : b.isText = false) :
    ∃ o, a.order? b = some o := by
  obtain ⟨i, hi⟩ := exists_toInt? ha
  obtain ⟨j, hj⟩ := exists_toInt? hb
  obtain ⟨x, hx⟩ := exists_toFloat? ha
  obtain ⟨y, hy⟩ := exists_toFloat? hb
  unfold order?
  split
  · exact ⟨Binary64.order? x y, by simp [hx, hy]⟩
  · exact ⟨some (compare i.toInt j.toInt), by simp [hi, hj]⟩

theorem ty_of_compare₂ (h : a.compare₂ b test = some c) : c.ty = .bool := by
  obtain ⟨o, _, rfl⟩ := Option.map_eq_some_iff.mp h
  rfl

/-- Comparisons take every two values that are not texts. -/
theorem exists_compare₂ (ha : a.isText = false) (hb : b.isText = false) :
    ∃ c, a.compare₂ b test = some c := by
  obtain ⟨o, ho⟩ := exists_order? ha hb
  exact ⟨.bool (test o), by simp [compare₂, ho]⟩

end Cell

/-! ## Primitives of one operand -/

namespace UnaryPrimitive

/-- How the type of the result follows from the type of the operand. -/
def rule : UnaryPrimitive → ResultRule
  | neg | abs => .promote
  | not | sign | textLength => .int
  | toBool | toNotBool | isNaN | isFinite | isInfinite => .bool
  | function _ => .float

/-- Whether the primitive takes a text, or a value that is none. -/
def takes : UnaryPrimitive → (isText : Bool) → Bool
  | textLength, isText => isText
  | _, isText => !isText

variable {p : UnaryPrimitive} {a c : Cell}

/-- The type of a result follows from the type of the operand. -/
theorem ty_of_apply (h : p.apply a = some c) : c.ty = p.rule.resultType [a.ty] := by
  cases p with
  | neg | abs => exact Cell.ty_of_arith₁ h
  | not | toBool | toNotBool | isNaN | isFinite | isInfinite | function =>
      obtain ⟨_, _, rfl⟩ := Option.map_eq_some_iff.mp h
      rfl
  | sign => cases a <;> cases h <;> rfl
  | textLength => cases a <;> cases h; rfl

/-- The primitive computes on every operand that it takes. -/
theorem exists_apply_of_takes (h : p.takes a.isText = true) : ∃ c, p.apply a = some c := by
  cases p with
  | neg | abs => exact Cell.exists_arith₁ (by simpa [takes] using h)
  | not =>
      obtain ⟨i, hi⟩ := Cell.exists_toInt? (c := a) (by simpa [takes] using h)
      exact ⟨_, by simp only [apply, hi, Option.map_some]; rfl⟩
  | toBool | toNotBool =>
      obtain ⟨b, hb⟩ := Cell.exists_toBool? (c := a) (by simpa [takes] using h)
      exact ⟨_, by simp only [apply, hb, Option.map_some]; rfl⟩
  | isNaN | isFinite | isInfinite | function =>
      obtain ⟨x, hx⟩ := Cell.exists_toFloat? (c := a) (by simpa [takes] using h)
      exact ⟨_, by simp only [apply, hx, Option.map_some]; rfl⟩
  | sign =>
      cases a with
      | bool | int | float => exact ⟨_, rfl⟩
      | str => cases h
  | textLength =>
      cases a with
      | bool | int | float => cases h
      | str => exact ⟨_, rfl⟩

end UnaryPrimitive

/-! ## Primitives of two operands -/

namespace BinaryPrimitive

/-- How the type of the result follows from the types of the operands. -/
def rule : BinaryPrimitive → ResultRule
  | add | sub | mul | div | rem | min | max => .promote
  | and | or | xor | shl | sar | shr | cmpl | cmpg | textIndex => .int
  | logicalAnd | logicalOr | eq | ne | lt | le | gt | ge => .bool
  | atan2 | pow => .float

/-- Whether the primitive takes operands of which the given ones are texts. -/
def takes : BinaryPrimitive → (leftIsText rightIsText : Bool) → Bool
  | textIndex, leftIsText, rightIsText => leftIsText && rightIsText
  | eq, _, _ | ne, _, _ => true
  | _, leftIsText, rightIsText => !leftIsText && !rightIsText

variable {p : BinaryPrimitive} {a b c : Cell}

/-- The type of a result follows from the types of the operands. -/
theorem ty_of_apply (h : p.apply a b = some c) : c.ty = p.rule.resultType [a.ty, b.ty] := by
  cases p with
  | add | sub | mul | div | rem | min | max => exact Cell.ty_of_arith₂ h
  | and | or | xor | shl | sar | shr => exact Cell.ty_of_bits₂ h
  | lt | le | gt | ge => exact Cell.ty_of_compare₂ h
  | atan2 | pow => exact Cell.ty_of_float₂ h
  | eq | ne => cases h; rfl
  | cmpl | cmpg =>
      obtain ⟨_, _, rfl⟩ := Option.map_eq_some_iff.mp h
      rfl
  | logicalAnd | logicalOr =>
      obtain ⟨x, _, h⟩ := Option.bind_eq_some_iff.mp h
      -- The second operand is looked at only if the first does not decide.
      cases x with
      | false | true =>
          first
          | cases h; rfl
          | obtain ⟨_, _, rfl⟩ := Option.map_eq_some_iff.mp h; rfl
  | textIndex => cases a <;> cases b <;> cases h; rfl

/-- The primitive computes on every two operands that it takes. -/
theorem exists_apply_of_takes (h : p.takes a.isText b.isText = true) :
    ∃ c, p.apply a b = some c := by
  have hnumeric : (!a.isText && !b.isText) = true → a.isText = false ∧ b.isText = false := by
    simp
  cases p with
  | add | sub | mul | div | rem | min | max =>
      obtain ⟨ha, hb⟩ := hnumeric h
      exact Cell.exists_arith₂ ha hb
  | and | or | xor | shl | sar | shr =>
      obtain ⟨ha, hb⟩ := hnumeric h
      exact Cell.exists_bits₂ ha hb
  | lt | le | gt | ge =>
      obtain ⟨ha, hb⟩ := hnumeric h
      exact Cell.exists_compare₂ ha hb
  | atan2 | pow =>
      obtain ⟨ha, hb⟩ := hnumeric h
      exact Cell.exists_float₂ ha hb
  | eq | ne => exact ⟨_, rfl⟩
  | cmpl | cmpg =>
      obtain ⟨ha, hb⟩ := hnumeric h
      obtain ⟨o, ho⟩ := Cell.exists_order? ha hb
      exact ⟨_, by simp only [apply, ho, Option.map_some]; rfl⟩
  | logicalAnd | logicalOr =>
      obtain ⟨ha, hb⟩ := hnumeric h
      obtain ⟨x, hx⟩ := Cell.exists_toBool? ha
      obtain ⟨y, hy⟩ := Cell.exists_toBool? hb
      cases x with
      | false | true =>
          exact ⟨_, by simp only [apply, hx, hy, Option.bind_some, Option.map_some]; rfl⟩
  | textIndex =>
      cases a <;> cases b <;> cases h
      exact ⟨_, rfl⟩

end BinaryPrimitive

/-! ## Primitives -/

namespace Primitive

/-- Applies a primitive to its operands in order. -/
def apply : Primitive → List Cell → Option Cell
  | unary p, [a] => p.apply a
  | binary p, [a, b] => p.apply a b
  | _, _ => none

/-- How the type of the result follows from the types of the operands. -/
def rule : Primitive → ResultRule
  | unary p => p.rule
  | binary p => p.rule

/-- Whether the primitive takes operands of which the given ones are texts. -/
def takes : Primitive → (areTexts : List Bool) → Bool
  | unary p, [a] => p.takes a
  | binary p, [a, b] => p.takes a b
  | _, _ => false

variable {p : Primitive} {operands : List Cell} {c : Cell}

/-- A primitive replaces the operands on top of a stack by the result of applying it to them. -/
theorem applyTop_append (hlength : operands.length = p.arity) (stack : List Cell) :
    p.applyTop (operands.reverse ++ stack) = (p.apply operands).map (· :: stack) := by
  cases p with
  | unary p =>
      obtain ⟨a, rfl⟩ := List.length_eq_one_iff.mp hlength
      rfl
  | binary p =>
      obtain ⟨a, b, rfl⟩ := List.length_eq_two.mp hlength
      rfl

/-- The type of a result follows from the types of the operands. -/
theorem ty_of_apply (h : p.apply operands = some c) :
    c.ty = p.rule.resultType (operands.map Cell.ty) := by
  unfold apply at h
  split at h
  · exact UnaryPrimitive.ty_of_apply h
  · exact BinaryPrimitive.ty_of_apply h
  · cases h

/-- No primitive yields a text. -/
theorem isText_of_apply (h : p.apply operands = some c) : c.isText = false := by
  -- The result has a type that some rule gives, and no rule gives the type of texts.
  have hne := ResultRule.resultType_ne_string p.rule (operands.map Cell.ty)
  rw [← ty_of_apply h] at hne
  simpa [Cell.isText, Ty.isText] using hne

/-- A primitive computes on all operands that it takes. -/
theorem exists_apply_of_takes (h : p.takes (operands.map Cell.isText) = true) :
    ∃ c, p.apply operands = some c := by
  match p, operands, h with
  | unary p, [a], h => exact UnaryPrimitive.exists_apply_of_takes h
  | binary p, [a, b], h => exact BinaryPrimitive.exists_apply_of_takes h

/-- All primitives but those made for texts take numbers, and also texts if they accept them. -/
theorem takes_of_acceptsText {types : List Ty} (hlength : types.length = p.arity)
    (hlen : p ≠ .unary .textLength) (hindex : p ≠ .binary .textIndex)
    (h : p.acceptsText = true ∨ Ty.string ∉ types) : p.takes (types.map Ty.isText) = true := by
  cases p with
  | unary p =>
      obtain ⟨a, rfl⟩ := List.length_eq_one_iff.mp hlength
      have hnumeric : Ty.string ∉ [a] → (!a.isText) = true := by
        cases a <;> decide
      cases p with
      | textLength => exact absurd rfl hlen
      | neg | abs | not | toBool | toNotBool | sign | isNaN | isFinite | isInfinite | function =>
          exact hnumeric (h.resolve_left Bool.false_ne_true)
  | binary p =>
      obtain ⟨a, b, rfl⟩ := List.length_eq_two.mp hlength
      have hnumeric : Ty.string ∉ [a, b] → (!a.isText && !b.isText) = true := by
        cases a <;> cases b <;> decide
      cases p with
      | textIndex => exact absurd rfl hindex
      | eq | ne => rfl
      | add | sub | mul | div | rem | min | max | and | or | xor | shl | sar | shr | logicalAnd
      | logicalOr | lt | le | gt | ge | cmpl | cmpg | atan2 | pow =>
          exact hnumeric (h.resolve_left Bool.false_ne_true)

end Primitive

/-! ## The built-in operators -/

/-- Whether what a table says about an operator is true of its primitive. -/
def Operator.agreesWith (op : Operator) (p : Primitive) : Bool :=
  p.arity == op.arity && p.rule == op.result &&
    match op.hints with
    | some hints => p.takes (hints.map Ty.isText)
    | none => p != .unary .textLength && p != .binary .textIndex

/-- What the table of built-in operators says about each of them is true of its primitive. -/
theorem builtinOperators_agree :
    ∀ op ∈ builtinOperators, (Primitive.ofName? op.primitive).any op.agreesWith = true := by
  decide +kernel

end Formula
