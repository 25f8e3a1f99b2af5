/-!
# Texts behind addresses

Compiled code and arguments refer to a text by an address. Addresses lie far above the words that
stand for kinds, operators and slots, so that a word of the one sort is never taken for the other.
A pool keeps texts under addresses that stay valid however many texts are added.
-/

namespace Formula

/-- The least address. -/
def firstAddress : Nat :=
  0x600000000000

/-- The address of the member at an index of a list. -/
def addressOf (index : Nat) : UInt64 :=
  UInt64.ofNat (firstAddress + index)

/-- The member of a list that an address stands for; words below the least address, and so
zero, stand for none. -/
def atAddress? {α : Type} (members : Array α) (address : UInt64) : Option α :=
  if address.toNat < firstAddress then none else members[address.toNat - firstAddress]?

/-! ## Pools -/

/-- Texts in the order in which they were added. -/
structure TextPool where
  /-- The texts. -/
  texts : Array String
deriving DecidableEq, Repr

namespace TextPool

/-- The pool without texts. -/
def empty : TextPool :=
  ⟨#[]⟩

/-- The number of texts. -/
def size (p : TextPool) : Nat :=
  p.texts.size

/-- The address that the next text will have. -/
def nextAddress (p : TextPool) : UInt64 :=
  addressOf p.size

/-- Adds a text, at the next address. -/
def add (p : TextPool) (text : String) : TextPool :=
  ⟨p.texts.push text⟩

/-- The text at an address. -/
def text? (p : TextPool) (address : UInt64) : Option String :=
  atAddress? p.texts address

@[simp]
theorem texts_add (p : TextPool) (text : String) : (p.add text).texts = p.texts.push text := rfl

@[simp]
theorem size_add (p : TextPool) (text : String) : (p.add text).size = p.size + 1 := by
  simp [size]

end TextPool

/-! ## Stores of texts -/

/-- Keeps texts under addresses. -/
class TextStore (σ : Type) where
  /-- Keeps one more text: the address that stands for it, and the store with the text. -/
  retain : σ → String → UInt64 × σ

instance : TextStore TextPool :=
  ⟨fun p text => (p.nextAddress, p.add text)⟩

@[simp]
theorem TextPool.retain_eq (p : TextPool) (text : String) :
    TextStore.retain p text = (p.nextAddress, p.add text) := rfl

/-! ## Descriptors -/

/-- What a caller puts behind an address: bytes, or no bytes at all with a length that is
given all the same. -/
inductive Descriptor where
  | bytes (data : ByteArray)
  | absent (length : UInt64)

/-- The text that a descriptor stands for: bytes must be valid UTF-8, and where there are none
the length must be zero. -/
def Descriptor.text? : Descriptor → Option String
  | bytes data => String.fromUTF8? data
  | absent length => if length = 0 then some "" else none

/-- The text behind an address among descriptors. -/
def describedText? (descriptors : Array Descriptor) (address : UInt64) : Option String :=
  (atAddress? descriptors address).bind Descriptor.text?

end Formula
