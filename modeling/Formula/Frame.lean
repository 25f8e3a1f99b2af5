import Formula.Argument
import Formula.TextPool

/-!
# Argument frames

The arguments of a call are laid out in one run of words: first a word for each slot, then a
pair of words for each text, which holds the address of the text and its length in bytes. The
word of a slot that holds a text is the place of its pair in the frame.
-/

namespace Formula

/-- Arguments as code finds them. -/
structure Frame where
  /-- The words of the slots, then the pairs of the texts. -/
  words : Array UInt64
  /-- The texts. -/
  texts : TextPool

namespace Frame

/-- The words of slots whose texts have their pairs from the place `pair` on. -/
def slotWords (pair : Nat) : List Slot → List UInt64
  | [] => []
  | .word w :: slots => w :: slotWords pair slots
  | .text _ :: slots => UInt64.ofNat pair :: slotWords (pair + 2) slots

/-- The texts among slots. -/
def slotTexts : List Slot → List String
  | [] => []
  | .word _ :: slots => slotTexts slots
  | .text s :: slots => s :: slotTexts slots

/-- The pairs of texts, the first of which is at `index` among the texts of the frame. -/
def textPairs (index : Nat) : List String → List UInt64
  | [] => []
  | s :: texts =>
    addressOf index :: UInt64.ofNat s.utf8ByteSize :: textPairs (index + 1) texts

@[simp]
theorem length_slotWords (pair : Nat) (slots : List Slot) :
    (slotWords pair slots).length = slots.length := by
  induction slots generalizing pair with
  | nil => rfl
  | cons slot slots ih =>
      cases slot with
      | word w => rw [slotWords, List.length_cons, List.length_cons, ih]
      | text s => rw [slotWords, List.length_cons, List.length_cons, ih]

@[simp]
theorem length_textPairs (index : Nat) (texts : List String) :
    (textPairs index texts).length = 2 * texts.length := by
  induction texts generalizing index with
  | nil => rfl
  | cons s texts ih =>
      rw [textPairs, List.length_cons, List.length_cons, List.length_cons, ih]
      omega

/-- The frame of a list of slots. -/
def ofSlots (slots : List Slot) : Frame :=
  let texts := slotTexts slots
  ⟨(slotWords slots.length slots ++ textPairs 0 texts).toArray, ⟨texts.toArray⟩⟩

@[simp]
theorem size_words_ofSlots (slots : List Slot) :
    (ofSlots slots).words.size = slots.length + 2 * (slotTexts slots).length := by
  simp [ofSlots, length_slotWords, length_textPairs]

/-- The text whose pair is at a place in the frame. -/
def text? (f : Frame) (place : UInt64) : Option String :=
  if place = 0 then none
  else do
    let address ← f.words[place.toNat]?
    let length ← f.words[place.toNat + 1]?
    let text ← f.texts.text? address
    if text.utf8ByteSize = length.toNat then some text else none

end Frame

end Formula
