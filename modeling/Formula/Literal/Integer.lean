import Formula.Text

/-!
# Integer literals

An integer literal is an optional sign, an optional mark of the radix, and digits that may be
parted by underscores. Its value is a word of sixty-four bits: a negative number in two's
complement, a positive one as it stands.
-/

namespace Formula.Literal

open Text

/-- Why a word is not an integer. -/
inductive IntegerError where
  /-- It is not written as one. -/
  | malformed
  /-- It does not fit into sixty-four bits. -/
  | outOfRange
deriving DecidableEq, Repr

/-- The wording of an integer error. -/
def IntegerError.message : IntegerError → String
  | malformed => "malformed integer literal"
  | outOfRange => "integer literal out of range"

/-- Takes one sign off the front: whether it is negative, and what follows. -/
def splitSign : List Char → Bool × List Char
  | '-' :: cs => (true, cs)
  | '+' :: cs => (false, cs)
  | cs => (false, cs)

/-- Takes the mark of the radix off the front: the radix, and what follows. A zero before
other digits marks octal numbers. -/
def splitRadix : List Char → Nat × List Char
  | '0' :: 'x' :: cs | '0' :: 'X' :: cs => (16, cs)
  | '0' :: 'o' :: cs | '0' :: 'O' :: cs => (8, cs)
  | '0' :: 'b' :: cs | '0' :: 'B' :: cs => (2, cs)
  | '0' :: c :: cs => (8, c :: cs)
  | cs => (10, cs)

/-- Digits of the radix, at least one, with underscores between them only. -/
def wellSpelled (radix : Nat) (digits : List Char) : Bool :=
  digits != [] && digits.head? != some '_' && digits.getLast? != some '_'
    && digits.all fun c => c == '_' || (digit? radix c).isSome

/-- The word that stands for a number, if the number fits into one. -/
def word? (n : Nat) : Option UInt64 :=
  if n < UInt64.size then some (UInt64.ofNat n) else none

/-- The product of two words, if it fits into a word. -/
def mul? (a b : UInt64) : Option UInt64 :=
  word? (a.toNat * b.toNat)

/-- The sum of two words, if it fits into a word. -/
def add? (a b : UInt64) : Option UInt64 :=
  word? (a.toNat + b.toNat)

/-- The word that digits write together with one more character: an underscore changes nothing,
and a digit is added to the word times the radix. -/
def appendDigit? (radix : Nat) (word : UInt64) (c : Char) : Option UInt64 :=
  if c = '_' then some word
  else
    (digit? radix c).bind fun d =>
      (mul? word (UInt64.ofNat radix)).bind fun shifted => add? shifted (UInt64.ofNat d)

/-- The word that well spelled digits write, unless a product or a sum on the way does not fit
into a word. -/
def magnitude? (radix : Nat) (digits : List Char) : Option UInt64 :=
  digits.foldlM (appendDigit? radix) 0

/-- The word that an integer literal denotes. -/
def integer (word : List Char) : Except IntegerError UInt64 :=
  let (negative, body) := splitSign word
  let (radix, digits) := splitRadix body
  if !wellSpelled radix digits then .error .malformed
  else
    match magnitude? radix digits with
    | none => .error .outOfRange
    | some magnitude =>
      if negative then
        if magnitude > 0x8000000000000000 then .error .outOfRange else .ok (0 - magnitude)
      else .ok magnitude

end Formula.Literal
