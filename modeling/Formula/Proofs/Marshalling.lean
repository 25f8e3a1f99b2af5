import Formula.Proofs.Binding
import Formula.Proofs.Lifecycle
import Mathlib.Data.List.Perm.Basic
import Mathlib.Data.List.Range

/-!
# Named arguments in a frame

A call finds an argument for each parameter by its name and lays the arguments out in a frame. The
frame can be laid out in place: the buffer is as large as the parameters and the number of texts
among them ask for, the words are written one after another, and every place of the buffer is
written once (`Frame.perm_writes`, `Frame.fill?_writes`). A call fails at the first slot whose
argument is missing or is a text where none is asked for or the other way round
(`Function.FirstOffence`).
-/

namespace Formula

/-! ## Frames in place -/

namespace Frame

open scoped List

variable {slots : List Slot}

/-- The writes of the slots that hold words, the first slot being at `place`. -/
def wordWrites (place : Nat) : List Slot → List (Nat × UInt64)
  | [] => []
  | .word w :: slots => (place, w) :: wordWrites (place + 1) slots
  | .text _ :: slots => wordWrites (place + 1) slots

/-- The slots that hold texts, each with its place. -/
def textPlaces (place : Nat) : List Slot → List (Nat × String)
  | [] => []
  | .word _ :: slots => textPlaces (place + 1) slots
  | .text s :: slots => (place, s) :: textPlaces (place + 1) slots

/-- The writes of texts: the pair of each text, from `base` on, and the place of the pair at the
place of its slot. The first text is at `index` among the texts of the frame. -/
def textWrites (base index : Nat) : List (Nat × String) → List (Nat × UInt64)
  | [] => []
  | (place, s) :: texts =>
    (base, addressOf index) :: (base + 1, UInt64.ofNat s.utf8ByteSize) ::
      (place, UInt64.ofNat base) :: textWrites (base + 2) (index + 1) texts

/-- The writes that lay slots out in a frame, in order. -/
def writes (slots : List Slot) : List (Nat × UInt64) :=
  wordWrites 0 slots ++ textWrites slots.length 0 (textPlaces 0 slots)

/-- Carries out writes in order, unless one of them is out of range. -/
def fill? (words : Array UInt64) : List (Nat × UInt64) → Option (Array UInt64)
  | [] => some words
  | (place, w) :: writes =>
    if place < words.size then fill? (words.setIfInBounds place w) writes else none

/-! ### Places -/

@[simp]
theorem length_textPlaces (place : Nat) (slots : List Slot) :
    (textPlaces place slots).length = (slotTexts slots).length := by
  induction slots generalizing place with
  | nil => rfl
  | cons slot slots ih =>
      cases slot with
      | word w => rw [textPlaces, slotTexts, ih]
      | text s => rw [textPlaces, slotTexts, List.length_cons, List.length_cons, ih]

/-- Each slot holds a word or a text. -/
theorem perm_wordWrites (place : Nat) (slots : List Slot) :
    ((wordWrites place slots).map Prod.fst ++ (textPlaces place slots).map Prod.fst).Perm
      (List.range' place slots.length) := by
  induction slots generalizing place with
  | nil => exact .refl _
  | cons slot slots ih =>
      rw [List.length_cons, List.range'_succ]
      cases slot with
      | word w => exact (ih (place + 1)).cons place
      | text s => exact List.perm_middle.trans ((ih (place + 1)).cons place)

/-- Texts are written at the places of their slots and at those of their pairs. -/
theorem perm_textWrites (base index : Nat) (texts : List (Nat × String)) :
    ((textWrites base index texts).map Prod.fst).Perm
      (texts.map Prod.fst ++ List.range' base (2 * texts.length)) := by
  induction texts generalizing base index with
  | nil => exact .refl _
  | cons text texts ih =>
      obtain ⟨place, s⟩ := text
      have hrange : List.range' base (2 * (texts.length + 1)) =
          base :: (base + 1) :: List.range' (base + 2) (2 * texts.length) := by
        rw [Nat.mul_succ, List.range'_succ, List.range'_succ]
      rw [List.length_cons, hrange]
      calc (textWrites base index ((place, s) :: texts)).map Prod.fst
          = [base, base + 1] ++ place :: (textWrites (base + 2) (index + 1) texts).map Prod.fst :=
            rfl
        _ ~ [base, base + 1] ++ place ::
              (texts.map Prod.fst ++ List.range' (base + 2) (2 * texts.length)) :=
            ((ih (base + 2) (index + 1)).cons place).append_left _
        _ ~ place :: ([base, base + 1] ++
              (texts.map Prod.fst ++ List.range' (base + 2) (2 * texts.length))) :=
            List.perm_middle
        _ ~ place :: (texts.map Prod.fst ++
              ([base, base + 1] ++ List.range' (base + 2) (2 * texts.length))) := by
            rw [← List.append_assoc, ← List.append_assoc]
            exact (List.perm_append_comm.append_right _).cons place

/-- Every place of a frame is written once. -/
theorem perm_writes (slots : List Slot) :
    ((writes slots).map Prod.fst).Perm
      (List.range (ofSlots slots).words.size) := by
  have htexts := perm_textWrites slots.length 0 (textPlaces 0 slots)
  have hrange : List.range' 0 slots.length ++
      List.range' slots.length (2 * (slotTexts slots).length) =
        List.range (slots.length + 2 * (slotTexts slots).length) := by
    rw [List.range_eq_range', ← List.range'_append_1, Nat.zero_add]
  rw [length_textPlaces] at htexts
  rw [size_words_ofSlots, writes, List.map_append, ← hrange]
  refine (htexts.append_left _).trans ?_
  rw [← List.append_assoc]
  exact (perm_wordWrites 0 slots).append_right _

/-! ### Words -/

/-- A write of a word is that of a slot that holds it. -/
theorem exists_of_mem_wordWrites {write : Nat × UInt64} {place : Nat}
    (h : write ∈ wordWrites place slots) :
    ∃ k, write.1 = place + k ∧ slots[k]? = some (.word write.2) := by
  induction slots generalizing place with
  | nil => cases h
  | cons slot slots ih =>
      have hlater (h : write ∈ wordWrites (place + 1) slots) :
          ∃ k, write.1 = place + k ∧ (slot :: slots)[k]? = some (.word write.2) := by
        obtain ⟨k, hplace, hslot⟩ := ih h
        exact ⟨k + 1, by omega, hslot⟩
      cases slot with
      | word w =>
          rcases List.mem_cons.mp h with rfl | h
          · exact ⟨0, rfl, rfl⟩
          · exact hlater h
      | text s => exact hlater h

/-- A place of a text is that of a slot that holds it. -/
theorem exists_of_getElem?_textPlaces {place i j : Nat} {s : String}
    (h : (textPlaces place slots)[j]? = some (i, s)) :
    ∃ k, i = place + k ∧ slots[k]? = some (.text s) ∧ (slotTexts (slots.take k)).length = j := by
  induction slots generalizing place j with
  | nil => cases h
  | cons slot slots ih =>
      cases slot with
      | word w =>
          obtain ⟨k, hplace, hslot, hcount⟩ := ih h
          exact ⟨k + 1, by omega, hslot, hcount⟩
      | text t =>
          cases j with
          | zero =>
              cases h
              exact ⟨0, rfl, rfl, rfl⟩
          | succ j =>
              obtain ⟨k, hplace, hslot, hcount⟩ := ih h
              exact ⟨k + 1, by omega, hslot, congrArg (· + 1) hcount⟩

/-- A write of a text is that of its address, of its length or of the place of its pair. -/
theorem exists_of_mem_textWrites {write : Nat × UInt64} {base index : Nat}
    {texts : List (Nat × String)} (h : write ∈ textWrites base index texts) :
    ∃ j place s, texts[j]? = some (place, s) ∧
      (write = (base + 2 * j, addressOf (index + j)) ∨
        write = (base + 2 * j + 1, UInt64.ofNat s.utf8ByteSize) ∨
        write = (place, UInt64.ofNat (base + 2 * j))) := by
  induction texts generalizing base index with
  | nil => cases h
  | cons text texts ih =>
      obtain ⟨place, s⟩ := text
      rw [textWrites, List.mem_cons, List.mem_cons, List.mem_cons] at h
      rcases h with h | h | h | h
      · exact ⟨0, place, s, rfl, .inl h⟩
      · exact ⟨0, place, s, rfl, .inr (.inl h)⟩
      · exact ⟨0, place, s, rfl, .inr (.inr h)⟩
      · obtain ⟨j, place', s', htext, hwrite⟩ := ih h
        have hbase : base + 2 + 2 * j = base + 2 * (j + 1) := by omega
        have hindex : index + 1 + j = index + (j + 1) := by omega
        rw [hbase, hindex] at hwrite
        exact ⟨j + 1, place', s', htext, hwrite⟩

/-- The frame holds what is written. -/
theorem getElem?_words_of_mem_writes {write : Nat × UInt64} (h : write ∈ writes slots) :
    (ofSlots slots).words[write.1]? = some write.2 := by
  rcases List.mem_append.mp h with h | h
  · obtain ⟨k, hplace, hslot⟩ := exists_of_mem_wordWrites h
    rw [hplace, Nat.zero_add]
    exact getElem?_words_word hslot
  · obtain ⟨j, place, s, htext, hwrite⟩ := exists_of_mem_textWrites h
    obtain ⟨k, hplace, hslot, rfl⟩ := exists_of_getElem?_textPlaces htext
    obtain ⟨haddress, hsize⟩ := getElem?_textPairs (getElem?_slotTexts hslot) 0
    rcases hwrite with rfl | rfl | rfl
    · rw [getElem?_words_pair, haddress]
    · rw [Nat.add_assoc, getElem?_words_pair, hsize]
    · rw [hplace, Nat.zero_add]
      exact getElem?_words_text hslot

/-! ### Filling a buffer -/

/-- Writes at different places of a buffer can be carried out, and leave all other places as they
are. -/
theorem exists_fill? {words : Array UInt64} {writes : List (Nat × UInt64)}
    (hrange : ∀ write ∈ writes, write.1 < words.size) (hnodup : (writes.map Prod.fst).Nodup) :
    ∃ filled, fill? words writes = some filled ∧ filled.size = words.size ∧
      (∀ write ∈ writes, filled[write.1]? = some write.2) ∧
      ∀ i ∉ writes.map Prod.fst, filled[i]? = words[i]? := by
  induction writes generalizing words with
  | nil => exact ⟨words, rfl, rfl, nofun, fun _ _ => rfl⟩
  | cons write writes ih =>
      obtain ⟨place, w⟩ := write
      obtain ⟨hplace, hrest⟩ := List.forall_mem_cons.mp hrange
      obtain ⟨hnew, hnodup⟩ := List.nodup_cons.mp hnodup
      obtain ⟨filled, hfill, hsize, hwritten, hothers⟩ :=
        @ih (words.setIfInBounds place w) (by simpa using hrest) hnodup
      refine ⟨filled, ?_, by simpa using hsize, ?_, ?_⟩
      · rw [fill?, if_pos hplace, hfill]
      · intro write hwrite
        rcases List.mem_cons.mp hwrite with rfl | hwrite
        · rw [hothers place hnew, Array.getElem?_setIfInBounds_self_of_lt hplace]
        · exact hwritten write hwrite
      · intro i hi
        obtain ⟨hne, hi⟩ := not_or.mp (fun h => hi (List.mem_cons.mpr h))
        rw [hothers i hi, Array.getElem?_setIfInBounds_ne (Ne.symm hne)]

/-- A buffer of the right size is filled with the words of the frame. -/
theorem fill?_writes (slots : List Slot) :
    fill? (Array.replicate (ofSlots slots).words.size 0) (writes slots) =
      some (ofSlots slots).words := by
  have hperm := perm_writes slots
  have hrange : ∀ write ∈ writes slots,
      write.1 < (Array.replicate (ofSlots slots).words.size (0 : UInt64)).size := by
    intro write hwrite
    rw [Array.size_replicate]
    exact List.mem_range.mp (hperm.mem_iff.mp (List.mem_map_of_mem hwrite))
  obtain ⟨filled, hfill, hsize, hwritten, _⟩ :=
    exists_fill? hrange (hperm.nodup_iff.mpr List.nodup_range)
  rw [hfill, Option.some.injEq]
  apply Array.ext_getElem?
  intro i
  rw [Array.size_replicate] at hsize
  by_cases hi : i < (ofSlots slots).words.size
  · -- Some write goes to the place, and both hold what it writes.
    obtain ⟨write, hwrite, rfl⟩ := List.mem_map.mp (hperm.mem_iff.mpr (List.mem_range.mpr hi))
    rw [hwritten write hwrite, getElem?_words_of_mem_writes hwrite]
  · rw [Array.getElem?_eq_none (by omega), Array.getElem?_eq_none (by omega)]

/-! ### Slots of texts -/

/-- Slots that suit their types hold as many texts as there are slots for them. -/
theorem length_slotTexts_of_suits {types : List Ty} (h : List.Forall₂ Slot.Suits types slots) :
    (slotTexts slots).length = types.count .string := by
  induction h with
  | nil => rfl
  | @cons type slot types slots hsuits _ ih =>
      cases slot with
      | word w =>
          rw [slotTexts, ih, List.count_cons_of_ne hsuits]
      | text s =>
          have htype : type = .string := hsuits
          rw [slotTexts, List.length_cons, ih, htype, List.count_cons_self]

end Frame

/-- What an argument becomes at a type suits the type. -/
theorem Argument.suits_of_toSlot {argument : Argument} {type : Ty} {slot : Slot}
    (h : argument.toSlot type = .ok slot) : slot.Suits type := by
  cases type <;> cases argument <;> cases h
  case string.str => exact rfl
  all_goals exact nofun

/-- The place of the pair of a slot that holds a text. -/
def Program.pairPlace (p : Program) (i : Nat) : Nat :=
  p.slotTypes.length + 2 * (p.slotTypes.take i).count .string

@[simp]
theorem Program.pairPlace_length (p : Program) :
    p.pairPlace p.slotTypes.length = p.slotTypes.length + 2 * p.textSlotCount := by
  rw [pairPlace, List.take_length, textSlotCount]

/-- The pair of a slot lies before the pairs of later slots. -/
theorem Program.pairPlace_add_two_le {p : Program} {i j : Nat}
    (h : p.slotTypes[i]? = some .string) (hlt : i < j) : p.pairPlace i + 2 ≤ p.pairPlace j := by
  have hnext : (p.slotTypes.take (i + 1)).count .string =
      (p.slotTypes.take i).count .string + 1 := by
    rw [List.take_add_one, h, Option.toList_some, List.count_append, List.count_singleton_self]
  have hle : (p.slotTypes.take (i + 1)).count .string ≤ (p.slotTypes.take j).count .string :=
    (List.take_sublist_take_left hlt).count_le _
  unfold pairPlace
  omega

/-! ## Arguments by name -/

namespace Function

/-- The parameters in the order of their slots. -/
def params (f : Function) : List (String × Ty) :=
  f.program.slotNames.zip f.program.slotTypes

variable {f : Function} {args args' : Arguments} {param : String × Ty}
  {params : List (String × Ty)} {fault : CallError} {slots : List Slot}

/-- A parameter does not get an argument that it accepts, as an error says. -/
inductive Offends (args : Arguments) : String × Ty → CallError → Prop
  | missing {name : String} {type : Ty} (h : args.lookup name = none) :
      Offends args (name, type) (.missingParameter name)
  | fromText {name s : String} {type : Ty} (h : args.lookup name = some (.str s))
      (htype : type ≠ .string) : Offends args (name, type) (.fromText name)
  | intoText {name : String} {argument : Argument} (h : args.lookup name = some argument)
      (hargument : ∀ s, argument ≠ .str s) : Offends args (name, .string) (.intoText name)

/-- The slot `i` is the first whose parameter does not get an argument that it accepts. -/
structure FirstOffence (args : Arguments) (params : List (String × Ty)) (i : Nat)
    (fault : CallError) : Prop where
  offends : ∃ param, params[i]? = some param ∧ Offends args param fault
  first : ∀ j < i, ∀ param, params[j]? = some param → ∀ fault', ¬ Offends args param fault'

/-- A parameter that does not get its argument ends the search. -/
theorem Offends.slotsFor_cons (h : Offends args param fault) (params : List (String × Ty)) :
    slotsFor args (param :: params) = .error fault := by
  cases h with
  | missing h => rw [slotsFor, h]
  | @fromText name s type h htype =>
      have hslot : (Argument.str s).toSlot type = .error .fromText := by
        cases type with
        | bool | int | float => rfl
        | string => exact absurd rfl htype
      simp only [slotsFor, h, hslot, SlotError.atParameter]
  | @intoText name argument h hargument =>
      have hslot : argument.toSlot .string = .error .intoText := by
        cases argument with
        | bool | int | uint | float => rfl
        | str s => exact absurd rfl (hargument s)
      simp only [slotsFor, h, hslot, SlotError.atParameter]

/-- A parameter that gets its argument fails only if a later one does. -/
theorem slotsFor_cons_of_toSlot {argument : Argument} {slot : Slot}
    (hargument : args.lookup param.1 = some argument) (hslot : argument.toSlot param.2 = .ok slot)
    (params : List (String × Ty)) :
    slotsFor args (param :: params) = (slotsFor args params).map (slot :: ·) := by
  simp only [slotsFor, hargument, hslot]
  cases slotsFor args params with
  | error fault => rfl
  | ok slots => rfl

/-- A parameter offends or gets its argument. -/
theorem offends_or_toSlot (args : Arguments) (param : String × Ty) :
    (∃ fault, Offends args param fault) ∨ ∃ argument slot,
      args.lookup param.1 = some argument ∧ argument.toSlot param.2 = .ok slot := by
  obtain ⟨name, type⟩ := param
  cases hargument : args.lookup name with
  | none => exact .inl ⟨_, .missing hargument⟩
  | some argument =>
      cases type <;> cases argument
      case string.str s => exact .inr ⟨_, _, rfl, rfl⟩
      case bool.str | int.str | float.str => exact .inl ⟨_, .fromText hargument nofun⟩
      case string.bool | string.int | string.uint | string.float =>
        exact .inl ⟨_, .intoText hargument nofun⟩
      all_goals exact .inr ⟨_, _, rfl, rfl⟩

/-- A parameter that gets its argument does not offend. -/
theorem not_offends_of_toSlot {argument : Argument} {slot : Slot}
    (hargument : args.lookup param.1 = some argument) (hslot : argument.toSlot param.2 = .ok slot)
    (fault : CallError) : ¬ Offends args param fault := by
  intro h
  have hfails := h.slotsFor_cons []
  rw [slotsFor_cons_of_toSlot hargument hslot] at hfails
  cases hfails

/-- The parameter at the front offends. -/
theorem firstOffence_zero_iff :
    FirstOffence args (param :: params) 0 fault ↔ Offends args param fault := by
  constructor
  · rintro ⟨⟨_, hparam, hoffends⟩, _⟩
    cases hparam
    exact hoffends
  · intro h
    exact ⟨⟨param, rfl, h⟩, nofun⟩

/-- The parameter at the front does not offend, but one behind it does. -/
theorem firstOffence_succ_iff {i : Nat} :
    FirstOffence args (param :: params) (i + 1) fault ↔
      (∀ fault', ¬ Offends args param fault') ∧ FirstOffence args params i fault := by
  constructor
  · rintro ⟨hoffends, hfirst⟩
    refine ⟨hfirst 0 (Nat.succ_pos i) param rfl, hoffends, ?_⟩
    intro j hj
    exact hfirst (j + 1) (Nat.succ_lt_succ hj)
  · rintro ⟨hparam, hoffends, hfirst⟩
    refine ⟨hoffends, ?_⟩
    rintro (_ | j) hj other hother
    · cases hother
      exact hparam
    · exact hfirst j (Nat.lt_of_succ_lt_succ hj) other hother

/-- The search for arguments fails at the first parameter that offends. -/
theorem slotsFor_eq_error_iff :
    slotsFor args params = .error fault ↔ ∃ i, FirstOffence args params i fault := by
  induction params with
  | nil =>
      refine ⟨nofun, ?_⟩
      rintro ⟨i, ⟨_, hparam, _⟩, _⟩
      cases hparam
  | cons param params ih =>
      rw [← Nat.or_exists_add_one]
      simp only [firstOffence_zero_iff, firstOffence_succ_iff]
      rcases offends_or_toSlot args param with
        ⟨fault', hoffends⟩ | ⟨argument, slot, hargument, hslot⟩
      · constructor
        · intro h
          rw [hoffends.slotsFor_cons] at h
          cases h
          exact .inl hoffends
        · rintro (h | ⟨_, haccepted, _⟩)
          · exact h.slotsFor_cons params
          · exact absurd hoffends (haccepted fault')
      · have haccepted := not_offends_of_toSlot hargument hslot
        have hlater : (slotsFor args params).map (slot :: ·) = .error fault ↔
            slotsFor args params = .error fault := by
          cases slotsFor args params <;> simp [Except.map]
        rw [slotsFor_cons_of_toSlot hargument hslot, hlater, ih]
        constructor
        · rintro ⟨i, h⟩
          exact .inr ⟨i, haccepted, h⟩
        · rintro (h | ⟨i, _, h⟩)
          · exact absurd h (haccepted fault)
          · exact ⟨i, h⟩

/-- No parameter offends if all arguments are found. -/
theorem not_offends_of_slotsFor (h : slotsFor args params = .ok slots) (hparam : param ∈ params)
    (fault : CallError) : ¬ Offends args param fault := by
  obtain ⟨i, hi⟩ := List.mem_iff_getElem?.mp hparam
  obtain ⟨_, _, _, hargument, hslot⟩ := exists_getElem?_of_forall₂ (forall₂_of_slotsFor h) hi
  exact not_offends_of_toSlot hargument hslot fault

/-- Only the arguments for the parameters matter. -/
theorem slotsFor_congr (h : ∀ param ∈ params, args'.lookup param.1 = args.lookup param.1) :
    slotsFor args' params = slotsFor args params := by
  induction params with
  | nil => rfl
  | cons param params ih =>
      obtain ⟨hparam, hparams⟩ := List.forall_mem_cons.mp h
      obtain ⟨name, type⟩ := param
      rw [slotsFor, slotsFor, hparam, ih hparams]

/-- What has a name of its own is found in whatever order it is given. -/
theorem lookup_of_perm {V : Type} {entries entries' : List (String × V)}
    (h : entries.Perm entries') (hnames : (entries.map Prod.fst).Nodup) (name : String) :
    entries'.lookup name = entries.lookup name := by
  induction h with
  | nil => rfl
  | cons entry _ ih =>
      rw [List.map_cons, List.nodup_cons] at hnames
      rw [List.lookup_cons, List.lookup_cons, ih hnames.2]
  | swap entry entry' entries =>
      obtain ⟨key, value⟩ := entry
      obtain ⟨key', value'⟩ := entry'
      have hne : key' ≠ key := by
        rintro rfl
        simp at hnames
      simp only [List.lookup_cons]
      by_cases hname : name = key
      · rw [beq_eq_false_iff_ne.mpr (hname ▸ hne.symm : name ≠ key')]
      · rw [beq_eq_false_iff_ne.mpr hname]
  | trans h _ ih ih' =>
      exact (ih' ((h.map Prod.fst).nodup_iff.mp hnames)).trans (ih hnames)

/-- A call looks for arguments and runs the script on the frame of what it finds. -/
theorem call_of_live (hlive : f.isReleased = false) (args : Arguments) :
    f.call args = (slotsFor args f.params).map fun slots =>
      f.invoke (Frame.ofSlots slots).text? (Frame.ofSlots slots).words := by
  rw [call, hlive, if_neg Bool.false_ne_true, params]
  cases slotsFor args (f.program.slotNames.zip f.program.slotTypes) with
  | error fault => rfl
  | ok slots => rfl

/-- A call fails at the first parameter that offends. -/
theorem call_eq_error_iff (hlive : f.isReleased = false) :
    f.call args = .error fault ↔ ∃ i, FirstOffence args f.params i fault := by
  rw [call_of_live hlive, ← slotsFor_eq_error_iff]
  cases slotsFor args f.params <;> simp [Except.map]

/-- A call on words runs the script if there are enough of them. -/
theorem callWords_of_live (hlive : f.isReleased = false) (read : UInt64 → Option String)
    {words : Array UInt64} (h : f.program.slotTypes.length ≤ words.size) :
    f.callWords read words = .ok (f.invoke read words) := by
  rw [callWords, hlive, if_neg Bool.false_ne_true, if_neg (Nat.not_lt.mpr h)]

/-- How slots lie in the frame of a call. -/
structure LaidOut (f : Function) (args : Arguments) (slots : List Slot) : Prop where
  /-- There is a word for each parameter and two for each that is a text. -/
  size : (Frame.ofSlots slots).words.size =
    f.program.slotTypes.length + 2 * f.program.textSlotCount
  /-- Every place of the buffer is written once. -/
  places : ((Frame.writes slots).map Prod.fst).Perm (List.range (Frame.ofSlots slots).words.size)
  /-- The writes are in range and leave the words of the frame. -/
  filled : Frame.fill? (Array.replicate (Frame.ofSlots slots).words.size 0) (Frame.writes slots) =
    some (Frame.ofSlots slots).words
  /-- A pair lies behind the slots, within the buffer and before the pairs of later slots. -/
  pairs : ∀ (i : Nat) (name : String), f.params[i]? = some (name, .string) →
    f.program.slotTypes.length ≤ f.program.pairPlace i ∧
      f.program.pairPlace i + 2 ≤ (Frame.ofSlots slots).words.size ∧
      ∀ j, i < j → f.program.pairPlace i + 2 ≤ f.program.pairPlace j
  /-- Slots of words hold what the arguments become. -/
  word : ∀ (i : Nat) (name : String) (type : Ty), f.params[i]? = some (name, type) →
    type ≠ .string → ∃ argument w, args.lookup name = some argument ∧
      argument.toSlot type = .ok (.word w) ∧ (Frame.ofSlots slots).words[i]? = some w
  /-- Slots of texts lead to the texts, as long as the buffer and the text fit into memory. -/
  text : ∀ (i : Nat) (name : String), f.params[i]? = some (name, .string) →
    ∃ s, args.lookup name = some (.str s) ∧
      (Frame.ofSlots slots).words[i]? = some (UInt64.ofNat (f.program.pairPlace i)) ∧
      (8 * (Frame.ofSlots slots).words.size ≤ UInt64.size → s.utf8ByteSize < UInt64.size →
        (Frame.ofSlots slots).text? (UInt64.ofNat (f.program.pairPlace i)) = some s)

/-- Arguments that were found are laid out in the frame. -/
theorem laidOut_of_slotsFor (hnames : f.program.slotNames.length = f.program.slotTypes.length)
    (h : slotsFor args f.params = .ok slots) : f.LaidOut args slots := by
  have hfound := forall₂_of_slotsFor h
  have htypes : f.params.map Prod.snd = f.program.slotTypes :=
    List.map_snd_zip (Nat.le_of_eq hnames.symm)
  have hsuits : List.Forall₂ Slot.Suits f.program.slotTypes slots := by
    rw [← htypes, List.forall₂_map_left_iff]
    exact hfound.imp fun _ _ ⟨_, _, hslot⟩ => Argument.suits_of_toSlot hslot
  have hlength : f.program.slotTypes.length = slots.length := hsuits.length_eq
  have hcount : (Frame.slotTexts slots).length = f.program.textSlotCount :=
    Frame.length_slotTexts_of_suits hsuits
  have hsize : (Frame.ofSlots slots).words.size =
      f.program.slotTypes.length + 2 * f.program.textSlotCount := by
    rw [Frame.size_words_ofSlots, hlength, hcount]
  have htype {i : Nat} {name : String} {type : Ty} (hparam : f.params[i]? = some (name, type)) :
      f.program.slotTypes[i]? = some type := by
    rw [← htypes, List.getElem?_map, hparam, Option.map_some]
  have hpair (i : Nat) : slots.length + 2 * (Frame.slotTexts (slots.take i)).length =
      f.program.pairPlace i := by
    rw [Frame.length_slotTexts_of_suits (List.forall₂_take i hsuits), ← hlength]
    rfl
  constructor
  · exact hsize
  · exact Frame.perm_writes slots
  · exact Frame.fill?_writes slots
  · intro i name hparam
    obtain ⟨hi, _⟩ := List.getElem?_eq_some_iff.mp (htype hparam)
    have hlast := Program.pairPlace_add_two_le (htype hparam) hi
    refine ⟨Nat.le_add_right _ _, ?_, fun j => Program.pairPlace_add_two_le (htype hparam)⟩
    rwa [hsize, ← Program.pairPlace_length]
  · intro i name type hparam hne
    obtain ⟨slot, hslot, argument, hargument, hbecomes⟩ := exists_getElem?_of_forall₂ hfound hparam
    cases slot with
    | word w => exact ⟨argument, w, hargument, hbecomes, Frame.getElem?_words_word hslot⟩
    | text s => exact absurd (Argument.suits_of_toSlot hbecomes) hne
  · intro i name hparam
    obtain ⟨slot, hslot, argument, hargument, hbecomes⟩ := exists_getElem?_of_forall₂ hfound hparam
    cases slot with
    | word w => exact absurd rfl (Argument.suits_of_toSlot hbecomes)
    | text s =>
        have hstr : argument = .str s := by
          cases argument <;> cases hbecomes
          rfl
        have hword := Frame.getElem?_words_text hslot
        rw [hpair] at hword
        refine ⟨s, hstr ▸ hargument, hword, fun hmemory hs => ?_⟩
        have hplaces : firstAddress + 3 * slots.length ≤ UInt64.size := by
          rw [hsize] at hmemory
          unfold firstAddress UInt64.size at *
          omega
        have hread := Frame.text?_ofSlots hslot hplaces hs
        rwa [Array.getD_eq_getD_getElem?, hword, Option.getD_some] at hread

end Function

/-! ## Calls -/

namespace Engine

variable {engine : Engine} {handle : Nat} {source : String} {symbols : Declarations} {f : Function}

/-- A function is built from a program that was compiled from the source. -/
theorem exists_compile_of_build (h : engine.build handle source symbols = .ok f) :
    ∃ e, Expr.parse source = .ok e ∧ Program.compile e symbols engine.registry = .ok f.program := by
  rw [build_eq] at h
  simp only [load_eq] at h
  split at h
  · cases h
  · rename_i e hparse
    split at h
    · cases h
    · rename_i program hcompile
      split at h
      · cases h
      · cases h
        exact ⟨e, hparse, hcompile⟩

/-- A function that was built has not been released. -/
theorem isReleased_of_build (h : engine.build handle source symbols = .ok f) :
    f.isReleased = false := by
  rw [Function.isReleased, handle_of_build h, Option.isNone_some]

/-- A function that was built has a name for each slot. -/
theorem length_slotNames_of_build (h : engine.build handle source symbols = .ok f) :
    f.program.slotNames.length = f.program.slotTypes.length := by
  obtain ⟨e, _, hcompile⟩ := exists_compile_of_build h
  obtain ⟨_, type, d, _, hprogram⟩ := Program.compile_eq_ok_iff.mp hcompile
  rw [hprogram, Draft.slotNames_toProgram]
  show _ = (d.params.toList.map Prod.snd).length
  rw [List.length_map, List.length_map]

/-- **Arguments reach their slots by name.** A call of a function that was built fails if and only
if some parameter is missing or gets a text where none is asked for or something else where one is.
The error is that of the first such slot, and the script plays no part in it. Otherwise every
place of a buffer for the parameters and the pairs of the texts is written once, the slots hold
the arguments that have their names, and the outcome is that of a call on the words of the buffer.
Arguments for other names do not matter, and neither does the order of the arguments. -/
theorem call_marshals (hbuild : engine.build handle source symbols = .ok f) (args : Arguments) :
    f.program.slotNames.length = f.program.slotTypes.length ∧
    ((∃ fault, f.call args = .error fault) ↔
      ∃ param ∈ f.params, ∃ fault, Function.Offends args param fault) ∧
    (∀ fault, f.call args = .error fault →
      (∃ i, Function.FirstOffence args f.params i fault) ∧
        ∀ script, { f with script := script }.call args = .error fault) ∧
    ((∀ param ∈ f.params, ∀ fault, ¬ Function.Offends args param fault) →
      ∃ slots outcome, f.LaidOut args slots ∧ f.call args = .ok outcome ∧
        f.callWords (Frame.ofSlots slots).text? (Frame.ofSlots slots).words = .ok outcome) ∧
    (∀ args' : Arguments, (∀ name ∈ f.program.slotNames, args'.lookup name = args.lookup name) →
      f.call args' = f.call args) ∧
    (∀ args' : Arguments, args.Perm args' → (args.map Prod.fst).Nodup →
      f.call args' = f.call args) := by
  have hnames := length_slotNames_of_build hbuild
  have hlive := isReleased_of_build hbuild
  have hcongr (args' : Arguments)
      (h : ∀ name ∈ f.program.slotNames, args'.lookup name = args.lookup name) :
      f.call args' = f.call args := by
    have hslots : Function.slotsFor args' f.params = Function.slotsFor args f.params :=
      Function.slotsFor_congr fun param hparam => h param.1 (List.of_mem_zip hparam).1
    rw [Function.call_of_live hlive, Function.call_of_live hlive, hslots]
  refine ⟨hnames, ⟨?_, ?_⟩, ?_, ?_, hcongr, ?_⟩
  · rintro ⟨fault, hfault⟩
    obtain ⟨i, ⟨param, hparam, hoffends⟩, _⟩ := (Function.call_eq_error_iff hlive).mp hfault
    exact ⟨param, List.mem_of_getElem? hparam, fault, hoffends⟩
  · rintro ⟨param, hparam, fault, hoffends⟩
    rw [Function.call_of_live hlive]
    cases hslots : Function.slotsFor args f.params with
    | error fault => exact ⟨fault, rfl⟩
    | ok slots => exact absurd hoffends (Function.not_offends_of_slotsFor hslots hparam fault)
  · intro fault hfault
    have hfirst := (Function.call_eq_error_iff hlive).mp hfault
    refine ⟨hfirst, fun script => ?_⟩
    exact (Function.call_eq_error_iff (f := { f with script := script }) hlive).mpr hfirst
  · intro haccepted
    cases hslots : Function.slotsFor args f.params with
    | error fault =>
        obtain ⟨i, ⟨param, hparam, hoffends⟩, _⟩ := Function.slotsFor_eq_error_iff.mp hslots
        exact absurd hoffends (haccepted param (List.mem_of_getElem? hparam) fault)
    | ok slots =>
        have hlaid := Function.laidOut_of_slotsFor hnames hslots
        refine ⟨slots, f.invoke (Frame.ofSlots slots).text? (Frame.ofSlots slots).words, hlaid,
          ?_, ?_⟩
        · rw [Function.call_of_live hlive, hslots]
          rfl
        · apply Function.callWords_of_live hlive
          rw [hlaid.size]
          exact Nat.le_add_right _ _
  · intro args' hperm hnodup
    exact hcongr args' fun name _ => Function.lookup_of_perm hperm hnodup name

/-- The length of a text plus a number. The arguments come in another order than the slots, and with
one too many. With two arguments of the wrong sort, the call fails at the text, which has the
first slot. -/
theorem call_marshals_length :
    ∃ f, Engine.standard.build 1 "(+ (len s) x)" [("s", .string), ("x", .int)] = .ok f ∧
      (∃ slots outcome,
        f.LaidOut [("y", .bool true), ("x", .uint 5), ("s", .str "añb")] slots ∧
        f.call [("y", .bool true), ("x", .uint 5), ("s", .str "añb")] = .ok outcome ∧
        f.callWords (Frame.ofSlots slots).text? (Frame.ofSlots slots).words = .ok outcome) ∧
      (∃ i, Function.FirstOffence [("x", .str "a"), ("s", .int 1)] f.params i (.intoText "s")) := by
  let p : Program := ⟨#[⟨5, 0⟩, ⟨0, 0x80⟩, ⟨5, 1⟩, ⟨0, 1⟩], [("s", 0), ("x", 1)],
    [.string, .int], 16, false, .empty⟩
  let script : Script := ⟨#[.argument 0 .string, .apply (.unary .textLength), .argument 1 .int,
    .apply (.binary .add)], #[], 2, false⟩
  let f : Function := ⟨some 1, p, script, Engine.standard.requiredStack p⟩
  have hbuild : Engine.standard.build 1 "(+ (len s) x)" [("s", .string), ("x", .int)] = .ok f := by
    have hparse : Expr.parse "(+ (len s) x)" =
        .ok (.form "+" [.form "len" [.atom .symbol "s"], .atom .symbol "x"]) := by
      decide +kernel
    have hcompile : Program.compile (.form "+" [.form "len" [.atom .symbol "s"],
        .atom .symbol "x"]) [("s", .string), ("x", .int)] Engine.standard.registry = .ok p := by
      decide +kernel
    have hload : Engine.standard.load 1 p = .ok f :=
      (load_eq_ok_iff rfl).mpr ⟨script, by decide +kernel, rfl⟩
    simp only [build_eq, hparse, hcompile, hload]
  have hparams : f.params = [("s", .string), ("x", .int)] := by
    rw [Function.params, Program.slotNames, List.mergeSort_of_pairwise (by decide)]
    rfl
  refine ⟨f, hbuild, ?_, ?_⟩
  · obtain ⟨_, _, _, hcall, _⟩ :=
      call_marshals hbuild [("y", .bool true), ("x", .uint 5), ("s", .str "añb")]
    apply hcall
    rw [hparams]
    intro param hparam fault
    rcases List.mem_pair.mp hparam with rfl | rfl
    · exact Function.not_offends_of_toSlot rfl rfl fault
    · exact Function.not_offends_of_toSlot rfl rfl fault
  · obtain ⟨_, _, herror, _⟩ := call_marshals hbuild [("x", .str "a"), ("s", .int 1)]
    refine (herror (.intoText "s") ?_).1
    rw [Function.call_of_live rfl, hparams]
    rfl

end Engine

end Formula
