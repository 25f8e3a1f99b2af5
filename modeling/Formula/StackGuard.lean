/-!
# Room on the stack

Before deep recursion and before a call, the room that is left on the stack is compared with
the room that is needed; where it falls short, the work goes on in a new segment.
-/

namespace Formula.StackGuard

/-- The bytes that must be left on the stack at any time. -/
def redZone : Nat :=
  100 * 1024

/-- The bytes of a new segment beyond those that are needed. -/
def growth : Nat :=
  1024 * 1024

/-- The greatest number of bytes that can be counted. -/
def countLimit : Nat :=
  0xffffffffffffffff

/-- Adds up bytes as far as they can be counted. -/
def addBytes (a b : Nat) : Nat :=
  Nat.min (a + b) countLimit

/-- The size of a new segment for work that needs `required` bytes. -/
def segment (required : Nat) : Nat :=
  addBytes (addBytes required redZone) growth

/-- The room in which work that needs `required` bytes is done: what remains, if that is known
and leaves the red zone free, and a new segment otherwise. -/
def headroom (required : Nat) (remaining : Option Nat) : Nat :=
  match remaining with
  | none => segment required
  | some bytes => if addBytes required redZone ≤ bytes then bytes else segment required

/-- Whether the room is enough. -/
def isEnough (required : Nat) (remaining : Option Nat) : Bool :=
  decide (required ≤ headroom required remaining)

/-- Adding bytes loses none of what can be counted. -/
theorem le_addBytes {a : Nat} (h : a ≤ countLimit) (b : Nat) : a ≤ addBytes a b :=
  Nat.le_min.2 ⟨Nat.le_add_right _ _, h⟩

/-- What is needed fits into a new segment. -/
theorem le_segment {required : Nat} (h : required ≤ countLimit) : required ≤ segment required :=
  Nat.le_trans (le_addBytes h _) (le_addBytes (Nat.min_le_right _ _) _)

/-- There is always enough room for what can be counted. -/
theorem isEnough_of_le {required : Nat} (h : required ≤ countLimit) (remaining : Option Nat) :
    isEnough required remaining = true := by
  unfold isEnough headroom
  apply decide_eq_true
  split
  · exact le_segment h
  · split
    · rename_i hle
      exact Nat.le_trans (le_addBytes h _) hle
    · exact le_segment h

/-- The sum of the numbers up to `depth`, by a recursion of that depth. -/
def sumTo : Nat → Nat
  | 0 => 0
  | depth + 1 => (depth + 1) + sumTo depth

end Formula.StackGuard
