import Formula.TextPool

/-!
# Arenas

An arena keeps each text in a box of its own, and in a second box a reference to it, which says where
the bytes of the text begin and how many there are. The address of the reference stands for the text.
Where boxes are put is up to an allocator. Boxes stay where they are however many are added.
-/

namespace Formula

/-! ## Boxes -/

/-- Chooses where boxes are put. -/
structure Allocator where
  /-- The address of a new box of a number of bytes, when there are boxes at some addresses. -/
  place : (live : List UInt64) → (bytes : Nat) → UInt64

/-- A value in a box. -/
structure Boxed (α : Type) where
  /-- Where the box is. -/
  address : UInt64
  /-- What is in it. -/
  value : α

/-- Says where a text is. -/
structure TextRef where
  /-- The address of the first byte. -/
  start : UInt64
  /-- The number of bytes. -/
  length : UInt64
deriving DecidableEq

namespace TextRef

/-- The bytes that a reference takes. -/
def size : Nat :=
  16

/-- The reference to the text in a box. -/
def of (box : Boxed String) : TextRef :=
  ⟨box.address, UInt64.ofNat box.value.utf8ByteSize⟩

end TextRef

/-! ## Arenas -/

/-- Texts in boxes, and references to them. -/
structure Arena where
  /-- Chooses the addresses of the boxes. -/
  allocator : Allocator
  /-- The texts in the order in which they were added. -/
  texts : Array (Boxed String)
  /-- The references in the order in which they were added. -/
  references : Array (Boxed TextRef)

namespace Arena

/-- The arena without texts. -/
def empty (allocator : Allocator) : Arena :=
  ⟨allocator, #[], #[]⟩

@[simp]
theorem texts_empty (allocator : Allocator) : (empty allocator).texts = #[] := rfl

@[simp]
theorem references_empty (allocator : Allocator) : (empty allocator).references = #[] := rfl

/-- The addresses of all boxes. -/
def live (a : Arena) : List UInt64 :=
  a.texts.toList.map Boxed.address ++ a.references.toList.map Boxed.address

/-- Puts a text into a box and a reference to it into another: the address of the reference, and the
arena with both. -/
def retain (a : Arena) (text : String) : UInt64 × Arena :=
  let box := ⟨a.allocator.place a.live text.utf8ByteSize, text⟩
  let ref := ⟨a.allocator.place (box.address :: a.live) TextRef.size, .of box⟩
  (ref.address, { a with texts := a.texts.push box, references := a.references.push ref })

instance : TextStore Arena :=
  ⟨retain⟩

@[simp]
theorem retain_eq (a : Arena) (text : String) : TextStore.retain a text = a.retain text := rfl

/-- Whether an address is that of a reference of the arena. -/
def owns (a : Arena) (address : UInt64) : Bool :=
  a.references.any (·.address == address)

/-! ## Reading -/

/-- The bytes that a reference refers to: the first ones in a box that has so many. -/
def bytes? (a : Arena) (ref : TextRef) : Option ByteArray :=
  if ref.length = 0 then some .empty
  else
    let holds (box : Boxed String) : Bool :=
      box.address == ref.start && ref.length.toNat ≤ box.value.utf8ByteSize
    (a.texts.find? holds).map fun box => box.value.toByteArray.extract 0 ref.length.toNat

/-- What is behind an address: a reference, and through it bytes. -/
def descriptor? (a : Arena) (address : UInt64) : Option Descriptor :=
  (a.references.find? (·.address == address)).bind fun box =>
    if box.value.start = 0 then some (.absent box.value.length)
    else (a.bytes? box.value).map .bytes

/-- The text behind an address. -/
def text? (a : Arena) (address : UInt64) : Option String :=
  if address = 0 then none else (a.descriptor? address).bind Descriptor.text?

end Arena

end Formula
