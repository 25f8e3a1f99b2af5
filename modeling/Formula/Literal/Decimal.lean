import Formula.Binary64
import Formula.Literal.Integer

/-!
# Decimal literals

A double is written as an optional sign, digits with an optional point before, among or after
them, and an optional exponent; its value is the double nearest to the number that this writes.
The infinities and the value that is not a number are written by name. A decimal literal is a
double that is written with digits: behind its sign it starts with one or with a point.
-/

namespace Formula.Literal

open Text

/-- An exponent's absolute value. Digits count until the exponent has reached 65536; by then
every literal of a sensible length is zero or infinite. -/
def exponentValue (digits : List Char) : Nat :=
  digits.foldl (fun n c => if n < 0x10000 then n * 10 + (digit? 10 c).getD 0 else n) 0

/-- Reads what follows the digits of a decimal: nothing, or a mark, an optional sign and
digits. -/
def exponent? : List Char → Option Int
  | [] => some 0
  | mark :: cs =>
    let (negative, digits) := splitSign cs
    if (mark = 'e' || mark = 'E') && digits != [] && digits.all isDecimal then
      let value : Int := exponentValue digits
      some (if negative then -value else value)
    else none

/-- Takes the fraction off the front: the digits after a point, and what follows them. -/
def splitFraction : List Char → List Char × List Char
  | '.' :: cs => (cs.takeWhile isDecimal, cs.dropWhile isDecimal)
  | cs => ([], cs)

/-- Reads an unsigned decimal as a whole number times a power of ten. -/
def unsignedDecimal? (cs : List Char) : Option (Nat × Int) :=
  let whole := cs.takeWhile isDecimal
  let (fraction, rest) := splitFraction (cs.dropWhile isDecimal)
  if whole = [] && fraction = [] then none
  else
    (exponent? rest).map fun exponent =>
      ((number? 10 (whole ++ fraction)).getD 0, exponent - fraction.length)

/-- The magnitude of a double that is written by name, in letters of either case. -/
def namedMagnitude? (cs : List Char) : Option Nat :=
  let name := cs.map Char.toLower
  if name = ['i', 'n', 'f'] || name = ['i', 'n', 'f', 'i', 'n', 'i', 't', 'y'] then
    some Binary64.infinityMagnitude
  else if name = ['n', 'a', 'n'] then some Binary64.nan.magnitude
  else none

/-- The magnitude of a double that is written without a sign, in digits or by name. -/
def doubleMagnitude? (cs : List Char) : Option Nat :=
  match unsignedDecimal? cs with
  | some (mantissa, exponent) => some (Binary64.decimalMagnitude mantissa exponent)
  | none => namedMagnitude? cs

/-- The double that a word writes. -/
def double? (word : List Char) : Option Binary64 :=
  let (negative, body) := splitSign word
  (doubleMagnitude? body).map (.ofParts negative)

/-- Whether a word starts with a digit or a point behind its signs, however many there are. -/
def startsDecimal (word : List Char) : Bool :=
  (word.dropWhile fun c => c == '+' || c == '-').head?.any fun c => isDecimal c || c == '.'

/-- The double that a decimal literal denotes. -/
def decimal? (word : List Char) : Option Binary64 :=
  if startsDecimal word then double? word else none

end Formula.Literal
