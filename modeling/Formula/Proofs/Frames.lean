import Formula.Function
import Formula.Proofs.Evaluation
import Mathlib.Data.List.Forall2

/-!
# Frames of arguments

A call looks up an argument for each parameter, in the order of the slots, and lays what it finds
out in a frame. Code that reads a slot of the frame gets the word that went into it
(`getD_words_ofSlots`) or finds the text that did (`text?_ofSlots`).
-/

namespace Formula

namespace Frame

variable {slots : List Slot} {k : Nat} {w : UInt64} {s : String}

/-! ## Places in a frame -/

/-- There are no more texts than slots. -/
theorem length_slotTexts_le (slots : List Slot) : (slotTexts slots).length ≤ slots.length := by
  induction slots with
  | nil => exact Nat.le_refl 0
  | cons slot slots ih =>
      cases slot with
      | word w =>
          rw [slotTexts, List.length_cons]
          omega
      | text s =>
          rw [slotTexts, List.length_cons, List.length_cons]
          omega

/-- The word of a slot that holds a word. -/
theorem getElem?_slotWords_word (h : slots[k]? = some (.word w)) (pair : Nat) :
    (slotWords pair slots)[k]? = some w := by
  induction slots generalizing k pair with
  | nil => cases h
  | cons slot slots ih =>
      cases k with
      | zero =>
          cases h
          rfl
      | succ k =>
          cases slot with
          | word => exact ih h pair
          | text => exact ih h (pair + 2)

/-- The text of a slot comes after the texts of the slots before it. -/
theorem getElem?_slotTexts (h : slots[k]? = some (.text s)) :
    (slotTexts slots)[(slotTexts (slots.take k)).length]? = some s := by
  induction slots generalizing k with
  | nil => cases h
  | cons slot slots ih =>
      cases k with
      | zero =>
          cases h
          rfl
      | succ k =>
          cases slot with
          | word => exact ih h
          | text => exact ih h

/-- The word of a slot that holds a text is the place of the pair of the text. -/
theorem getElem?_slotWords_text (h : slots[k]? = some (.text s)) (pair : Nat) :
    (slotWords pair slots)[k]? =
      some (UInt64.ofNat (pair + 2 * (slotTexts (slots.take k)).length)) := by
  induction slots generalizing k pair with
  | nil => cases h
  | cons slot slots ih =>
      cases k with
      | zero =>
          cases h
          rfl
      | succ k =>
          cases slot with
          | word => exact ih h pair
          | text =>
              rw [slotWords, List.getElem?_cons_succ, ih h (pair + 2), List.take_succ_cons,
                slotTexts, List.length_cons]
              congr 2
              omega

/-- The pair of a text. -/
theorem getElem?_textPairs {texts : List String} {i : Nat} (h : texts[i]? = some s) (index : Nat) :
    (textPairs index texts)[2 * i]? = some (addressOf (index + i)) ∧
      (textPairs index texts)[2 * i + 1]? = some (UInt64.ofNat s.utf8ByteSize) := by
  induction texts generalizing i index with
  | nil => cases h
  | cons text texts ih =>
      cases i with
      | zero =>
          cases h
          exact ⟨rfl, rfl⟩
      | succ i =>
          obtain ⟨haddress, hlength⟩ := ih h (index + 1)
          have hnext : index + 1 + i = index + (i + 1) := by omega
          rw [hnext] at haddress
          exact ⟨haddress, hlength⟩

/-! ## Reading a frame -/

/-- The words of the slots come first. -/
theorem getElem?_words_slot (h : k < slots.length) :
    (ofSlots slots).words[k]? = (slotWords slots.length slots)[k]? := by
  have hlength := length_slotWords slots.length slots
  rw [ofSlots, List.getElem?_toArray, List.getElem?_append_left (by omega)]

/-- The pairs of the texts come after them. -/
theorem getElem?_words_pair (slots : List Slot) (j : Nat) :
    (ofSlots slots).words[slots.length + j]? = (textPairs 0 (slotTexts slots))[j]? := by
  have hlength := length_slotWords slots.length slots
  rw [ofSlots, List.getElem?_toArray, List.getElem?_append_right (by omega), hlength,
    Nat.add_sub_cancel_left]

/-- A slot that holds a word has the word in the frame. -/
theorem getElem?_words_word (h : slots[k]? = some (.word w)) :
    (ofSlots slots).words[k]? = some w := by
  obtain ⟨hlt, _⟩ := List.getElem?_eq_some_iff.mp h
  rw [getElem?_words_slot hlt, getElem?_slotWords_word h]

/-- A slot that holds a text has the place of the pair of the text in the frame. -/
theorem getElem?_words_text (h : slots[k]? = some (.text s)) :
    (ofSlots slots).words[k]? =
      some (UInt64.ofNat (slots.length + 2 * (slotTexts (slots.take k)).length)) := by
  obtain ⟨hlt, _⟩ := List.getElem?_eq_some_iff.mp h
  rw [getElem?_words_slot hlt, getElem?_slotWords_text h]

/-- Code reads the word of a slot that holds a word. -/
theorem getD_words_ofSlots (h : slots[k]? = some (.word w)) :
    (ofSlots slots).words.getD k 0 = w := by
  rw [Array.getD_eq_getD_getElem?, getElem?_words_word h, Option.getD_some]

/-- A slot that holds a text leads to the text, as long as places and lengths are words. -/
theorem text?_ofSlots (h : slots[k]? = some (.text s))
    (hslots : firstAddress + 3 * slots.length ≤ UInt64.size) (hs : s.utf8ByteSize < UInt64.size) :
    (ofSlots slots).text? ((ofSlots slots).words.getD k 0) = some s := by
  have htext := getElem?_slotTexts h
  have hword := getElem?_words_text h
  generalize (slotTexts (slots.take k)).length = i at htext hword
  obtain ⟨hi, _⟩ := List.getElem?_eq_some_iff.mp htext
  have hle := length_slotTexts_le slots
  obtain ⟨haddress, hsize⟩ := getElem?_textPairs htext 0
  -- The word of the slot is a place behind the slots.
  have hplace : ((ofSlots slots).words.getD k 0).toNat = slots.length + 2 * i := by
    rw [Array.getD_eq_getD_getElem?, hword, Option.getD_some]
    exact UInt64.toNat_ofNat_of_lt' (by omega)
  have hne : (ofSlots slots).words.getD k 0 ≠ 0 := by
    intro hzero
    rw [hzero] at hplace
    have htoNat : (0 : UInt64).toNat = 0 := rfl
    omega
  have hfound : (ofSlots slots).texts.text? (addressOf i) = some s := by
    have hpool : (ofSlots slots).texts.size = (slotTexts slots).length := rfl
    rw [TextPool.text?_addressOf (by omega) (by omega)]
    simpa [ofSlots] using htext
  have hcount : (UInt64.ofNat s.utf8ByteSize).toNat = s.utf8ByteSize :=
    UInt64.toNat_ofNat_of_lt' hs
  rw [Nat.zero_add] at haddress
  rw [text?, if_neg hne, hplace, Nat.add_assoc, getElem?_words_pair, getElem?_words_pair, haddress,
    hsize]
  simp [hfound, hcount]

end Frame

/-! ## Arguments for parameters -/

/-- Lists that are related member by member are so at each index. -/
theorem exists_getElem?_of_forall₂ {α β : Type} {R : α → β → Prop} {as : List α} {bs : List β}
    {a : α} {k : Nat} (h : List.Forall₂ R as bs) (ha : as[k]? = some a) :
    ∃ b, bs[k]? = some b ∧ R a b := by
  induction h generalizing k with
  | nil => cases ha
  | cons hab _ ih =>
      cases k with
      | zero =>
          cases ha
          exact ⟨_, rfl, hab⟩
      | succ k => exact ih ha

/-- Every parameter finds an argument that goes into its slot. -/
theorem Function.forall₂_of_slotsFor {args : Arguments} {params : List (String × Ty)}
    {slots : List Slot} (h : slotsFor args params = .ok slots) :
    List.Forall₂ (fun param slot => ∃ argument, args.lookup param.1 = some argument ∧
      argument.toSlot param.2 = .ok slot) params slots := by
  induction params generalizing slots with
  | nil =>
      cases h
      exact .nil
  | cons param params ih =>
      obtain ⟨name, type⟩ := param
      rw [slotsFor] at h
      split at h
      · cases h
      · rename_i argument hargument
        split at h
        · cases h
        · rename_i slot hslot
          split at h
          · cases h
          · rename_i slots hslots
            cases h
            exact .cons ⟨argument, hargument, hslot⟩ (ih hslots)

@[simp]
theorem Draft.map_snd_slots (d : Draft) :
    d.slots.map Prod.snd = List.range' 0 d.params.toList.length := by
  rw [← List.zipIdx_map_snd 0 d.params.toList, slots_eq, List.map_map]
  rfl

@[simp]
theorem Draft.map_fst_slots (d : Draft) : d.slots.map Prod.fst = d.params.toList.map Prod.fst := by
  rw [slots_eq, List.map_map, ← List.zipIdx_map_fst 0 d.params.toList, List.map_map,
    List.zipIdx_map_fst]
  rfl

theorem Draft.pairwise_slots (d : Draft) : d.slots.Pairwise (fun a b => a.2 < b.2) := by
  rw [← List.pairwise_map (f := Prod.snd) (R := fun a b : Nat => a < b), d.map_snd_slots]
  exact List.pairwise_lt_range' 1

/-- The names of the parameters, in the order of the slots. -/
@[simp]
theorem Draft.slotNames_toProgram (d : Draft) (type : Ty) :
    (d.toProgram type).slotNames = d.params.toList.map Prod.fst := by
  have hsorted := d.pairwise_slots.imp fun h => decide_eq_true (Nat.le_of_lt h)
  rw [← d.map_fst_slots, Program.slotNames, toProgram]
  dsimp only
  rw [List.mergeSort_of_pairwise hsorted]

/-- The names of the parameters with their types. -/
@[simp]
theorem Draft.zip_slotNames (d : Draft) (type : Ty) :
    (d.toProgram type).slotNames.zip (d.toProgram type).slotTypes = d.params.toList := by
  have hslotTypes : (d.toProgram type).slotTypes = d.params.toList.map Prod.snd := rfl
  rw [slotNames_toProgram, hslotTypes, List.zip_map']
  exact List.map_id _

end Formula
