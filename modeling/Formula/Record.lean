import Formula.Kind

/-!
# Records of compiled code

Compiled code is a list of records, each a pair of words: a tag, whose low byte is a kind, and
a payload. A record either puts a value on the stack or applies an operator to the values on
top of it.
-/

namespace Formula

/-- One step of compiled code. -/
structure Record where
  /-- The kind of the step; further bits mark the first record of code that yields a float. -/
  tag : UInt64
  /-- The opcode, the bits of a value, the address of a text or the number of a parameter. -/
  payload : UInt64
deriving DecidableEq, Repr, Inhabited

namespace Record

/-- The bits of a tag that hold the kind. -/
def kindMask : UInt64 :=
  0xff

/-- The bits set in the first tag of code that yields a float. -/
def floatMark : UInt64 :=
  0xff00

/-- A record of a kind. -/
def ofKind (kind : Kind) (payload : UInt64) : Record :=
  ⟨UInt64.ofNat kind.tag, payload⟩

/-- The record that applies the operator with an opcode. -/
def apply (opcode : UInt64) : Record :=
  ofKind .parenthesis opcode

/-- The kind in the low byte of the tag. -/
def kind? (r : Record) : Option Kind :=
  Kind.ofTag? (r.tag &&& kindMask).toNat

/-- Whether the tag marks code that yields a float. -/
def returnsFloat (r : Record) : Bool :=
  r.tag &&& floatMark == floatMark

/-- Whether the record applies an operator. -/
def isOperator (r : Record) : Bool :=
  r.tag &&& kindMask == 0

/-- Sets the mark of code that yields a float. -/
def markFloat (r : Record) : Record :=
  { r with tag := r.tag ||| floatMark }

/-- The record without the mark of code that yields a float. -/
def clearMark (r : Record) : Record :=
  { r with tag := r.tag &&& ~~~floatMark }

/-! ## Words and bytes -/

/-- The words of a list of records, a tag and a payload for each. -/
def toWords (records : List Record) : List UInt64 :=
  records.flatMap fun r => [r.tag, r.payload]

/-- Pairs up words; a last word without a partner is left out. -/
def pairWords : List UInt64 → List Record
  | tag :: payload :: words => ⟨tag, payload⟩ :: pairWords words
  | _ => []

/-- The records that a list of words stands for, if every tag has a payload. -/
def ofWords? (words : List UInt64) : Option (List Record) :=
  if words.length % 2 = 0 then some (pairWords words) else none

/-- The eight bytes of a word, the lowest first. -/
def wordBytes (w : UInt64) : List UInt8 :=
  (List.range 8).map fun i => (w >>> (8 * UInt64.ofNat i)).toUInt8

/-- The bytes of a list of records, sixteen for each. -/
def toBytes (records : List Record) : List UInt8 :=
  records.flatMap fun r => wordBytes r.tag ++ wordBytes r.payload

@[simp]
theorem length_toWords (records : List Record) : (toWords records).length = 2 * records.length := by
  induction records with
  | nil => rfl
  | cons r rs ih =>
      simp only [toWords, List.flatMap_cons, List.length_append, List.length_cons,
        List.length_nil] at ih ⊢
      omega

@[simp]
theorem pairWords_toWords (records : List Record) : pairWords (toWords records) = records := by
  induction records with
  | nil => rfl
  | cons r rs ih =>
      simp only [toWords] at ih
      simp [toWords, pairWords, ih]

@[simp]
theorem ofWords?_toWords (records : List Record) : ofWords? (toWords records) = some records := by
  simp [ofWords?, length_toWords, pairWords_toWords]

end Record

end Formula
