import Formula.Record
import Mathlib.Data.Nat.Digits.Defs

/-!
# Words and bytes of records

Records are written as words, two for a record, and as bytes, eight for a word. Words are read back
as the records that they were written from, and an even number of words is what the records that are
read from it are written as. Bytes are read in groups of eight, each of which writes the number of a
word in the positional system of radix 256 (`wordsOfBytes`); they give the words of the same records
(`wordsOfBytes_toBytes`), so no two lists of records have the same bytes.
-/

namespace Formula.Record

variable {records : List Record} {words : List UInt64}

/-! ## Bytes of words -/

/-- The word that bytes write, the lowest first. -/
def wordOfBytes (bytes : List UInt8) : UInt64 :=
  UInt64.ofNat (Nat.ofDigits 256 (bytes.map UInt8.toNat))

/-- The words that bytes write one after another. Fewer than eight bytes at the end are left out. -/
def wordsOfBytes (bytes : List UInt8) : List UInt64 :=
  if bytes.length < 8 then [] else wordOfBytes (bytes.take 8) :: wordsOfBytes (bytes.drop 8)
termination_by bytes.length
decreasing_by
  rw [List.length_drop]
  omega

@[simp]
theorem length_wordBytes (w : UInt64) : (wordBytes w).length = 8 := by
  rw [wordBytes, List.length_map, List.length_range]

/-- The lowest digits of a number write its remainder. -/
theorem ofDigits_map_range (n count : Nat) :
    Nat.ofDigits 256 ((List.range count).map fun i => n / 256 ^ i % 256) = n % 256 ^ count := by
  induction count with
  | zero => simp [Nat.mod_one]
  | succ count ih =>
      rw [List.range_succ, List.map_append, Nat.ofDigits_append, ih, List.length_map,
        List.length_range, List.map_singleton, Nat.ofDigits_singleton, Nat.mod_pow_succ]

/-- A byte of a word is a digit of its number. -/
theorem toNat_shiftRight_toUInt8 (w : UInt64) {i : Nat} (hi : i < 8) :
    (w >>> (8 * UInt64.ofNat i)).toUInt8.toNat = w.toNat / 256 ^ i % 256 := by
  have hshift : (8 * UInt64.ofNat i).toNat % 64 = 8 * i := by
    have hcount : (UInt64.ofNat i).toNat = i := UInt64.toNat_ofNat_of_lt' (by
      unfold UInt64.size
      omega)
    rw [UInt64.toNat_mul, hcount]
    show 8 * i % 2 ^ 64 % 64 = 8 * i
    omega
  have hpow : 2 ^ (8 * i) = 256 ^ i := Nat.pow_mul 2 8 i
  rw [UInt64.toNat_toUInt8, UInt64.toNat_shiftRight, hshift, Nat.shiftRight_eq_div_pow, hpow]

/-- The bytes of a word write the word. -/
@[simp]
theorem wordOfBytes_wordBytes (w : UInt64) : wordOfBytes (wordBytes w) = w := by
  have hdigits : (wordBytes w).map UInt8.toNat =
      (List.range 8).map fun i => w.toNat / 256 ^ i % 256 := by
    rw [wordBytes, List.map_map]
    apply List.map_congr_left
    intro i hi
    exact toNat_shiftRight_toUInt8 w (List.mem_range.mp hi)
  have hsize : w.toNat % 256 ^ 8 = w.toNat := Nat.mod_eq_of_lt w.toNat_lt
  rw [wordOfBytes, hdigits, ofDigits_map_range, hsize, UInt64.ofNat_toNat]

/-- The bytes of a word are read first, and then what follows them. -/
@[simp]
theorem wordsOfBytes_wordBytes_append (w : UInt64) (bytes : List UInt8) :
    wordsOfBytes (wordBytes w ++ bytes) = w :: wordsOfBytes bytes := by
  have hlength := length_wordBytes w
  have hlong : ¬(wordBytes w ++ bytes).length < 8 := by
    rw [List.length_append, hlength]
    omega
  rw [wordsOfBytes, if_neg hlong, List.take_left' hlength, List.drop_left' hlength,
    wordOfBytes_wordBytes]

/-! ## Words and bytes of records -/

@[simp]
theorem toWords_cons (r : Record) (records : List Record) :
    toWords (r :: records) = r.tag :: r.payload :: toWords records :=
  rfl

@[simp]
theorem toBytes_cons (r : Record) (records : List Record) :
    toBytes (r :: records) = wordBytes r.tag ++ (wordBytes r.payload ++ toBytes records) :=
  List.append_assoc _ _ _

@[simp]
theorem length_toBytes (records : List Record) :
    (toBytes records).length = 16 * records.length := by
  induction records with
  | nil => rfl
  | cons r records ih =>
      rw [toBytes_cons, List.length_append, List.length_append, length_wordBytes, length_wordBytes,
        ih, List.length_cons]
      omega

/-- The bytes of records are those of their words. -/
@[simp]
theorem wordsOfBytes_toBytes (records : List Record) :
    wordsOfBytes (toBytes records) = toWords records := by
  induction records with
  | nil => rw [wordsOfBytes]; rfl
  | cons r records ih =>
      rw [toBytes_cons, wordsOfBytes_wordBytes_append, wordsOfBytes_wordBytes_append, ih,
        toWords_cons]

/-- Words that pair up are those of the pairs. -/
theorem toWords_pairWords (h : words.length % 2 = 0) : toWords (pairWords words) = words := by
  fun_induction pairWords words with
  | case1 tag payload words ih =>
      rw [toWords_cons, ih (by simp only [List.length_cons] at h; omega)]
  | case2 words hshort =>
      -- There are less than two words, and one is an odd number.
      rcases words with _ | ⟨tag, _ | ⟨payload, words⟩⟩
      · rfl
      · cases h
      · exact absurd rfl (hshort tag payload words)

/-- Only an odd number of words stands for no records. -/
theorem ofWords?_eq_none_iff : ofWords? words = none ↔ words.length % 2 = 1 := by
  unfold ofWords?
  by_cases heven : words.length % 2 = 0
  · simp [heven]
  · rw [if_neg heven]
    exact iff_of_true rfl (Nat.mod_two_ne_zero.mp heven)

/-- Words stand for the records whose words they are. -/
theorem ofWords?_eq_some_iff_toWords : ofWords? words = some records ↔ toWords records = words := by
  constructor
  · intro h
    rw [ofWords?, Option.ite_none_right_eq_some] at h
    obtain ⟨heven, hrecords⟩ := h
    rw [← Option.some.inj hrecords, toWords_pairWords heven]
  · rintro rfl
    exact ofWords?_toWords records

/-- Records are known by their bytes. -/
theorem toBytes_injective : Function.Injective toBytes := by
  intro records records' h
  have hwords : toWords records = toWords records' := by
    rw [← wordsOfBytes_toBytes, h, wordsOfBytes_toBytes]
  have hrecords : some records = some records' := by
    rw [← ofWords?_toWords, hwords, ofWords?_toWords]
  exact Option.some.inj hrecords

/-- **The encodings of records agree.** Records are read back from their words. Words stand for no
records if and only if their number is odd, and otherwise they are the words of the records that
they stand for. There are sixteen bytes for each record, which are read as its words, eight bytes
at a time and the lowest first; so different records have different bytes. -/
theorem encodings_agree :
    (∀ records, ofWords? (toWords records) = some records) ∧
    (∀ words, (ofWords? words = none ↔ words.length % 2 = 1) ∧
      ∀ records, ofWords? words = some records ↔ toWords records = words) ∧
    (∀ records, (toBytes records).length = 16 * records.length ∧
      wordsOfBytes (toBytes records) = toWords records) ∧
    Function.Injective toBytes :=
  ⟨ofWords?_toWords, fun _ => ⟨ofWords?_eq_none_iff, fun _ => ofWords?_eq_some_iff_toWords⟩,
    fun records => ⟨length_toBytes records, wordsOfBytes_toBytes records⟩, toBytes_injective⟩

end Formula.Record
