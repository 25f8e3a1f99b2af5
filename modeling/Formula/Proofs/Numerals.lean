import Formula.Literal.Integer
import Mathlib.Data.List.Forall2
import Mathlib.Data.List.Induction
import Mathlib.Data.Nat.Digits.Defs

/-!
# Numerals

A run of digits writes a number in a positional system (`Text.IsNumeral`), and reading it gives that
number (`number?_eq_some_iff`). The digits of a number are written by repeated division; read again
in the same radix they give the number back (`number?_toDigits`).

The digits of a literal are read with words, and a product or a sum that does not fit ends the
reading. This happens exactly where the number that they write does not fit into a word
(`magnitude?_eq_some_iff`). In particular the decimal digits of a word are an integer literal that
denotes the word (`integer_toDigits`).
-/

namespace Formula

namespace Text

variable {radix n : Nat} {c : Char}

/-- Every character of a numeral is a digit of its radix. -/
theorem exists_digitChar_of_mem_toDigits (hradix : 1 < radix) (h : c ∈ Nat.toDigits radix n) :
    ∃ d < radix, c = Nat.digitChar d := by
  induction n using Nat.strongRecOn with
  | ind n ih =>
      by_cases hn : n < radix
      · rw [Nat.toDigits_of_lt_base hn, List.mem_singleton] at h
        exact ⟨n, hn, h⟩
      · have hle : radix ≤ n := Nat.le_of_not_lt hn
        rw [Nat.toDigits_of_base_le hradix hle, List.mem_append, List.mem_singleton] at h
        rcases h with h | h
        · exact ih (n / radix) (Nat.div_lt_self (by omega) hradix) h
        · exact ⟨n % radix, Nat.mod_lt _ (by omega), h⟩

/-- A numeral does not start with a zero, unless it is that of zero. -/
theorem exists_toDigits_eq_cons (hradix : 1 < radix) (hn : 0 < n) :
    ∃ d cs, 0 < d ∧ d < radix ∧ Nat.toDigits radix n = Nat.digitChar d :: cs := by
  induction n using Nat.strongRecOn with
  | ind n ih =>
      by_cases hlt : n < radix
      · exact ⟨n, [], hn, hlt, Nat.toDigits_of_lt_base hlt⟩
      · have hle : radix ≤ n := Nat.le_of_not_lt hlt
        obtain ⟨d, cs, hd, hdradix, hdigits⟩ :=
          ih (n / radix) (Nat.div_lt_self hn hradix) (Nat.div_pos hle (by omega))
        refine ⟨d, cs ++ [Nat.digitChar (n % radix)], hd, hdradix, ?_⟩
        rw [Nat.toDigits_of_base_le hradix hle, hdigits, List.cons_append]

/-- The value of a digit up to nine. -/
theorem digit?_digitChar : ∀ d < 10, digit? 10 (Nat.digitChar d) = some d := by
  decide

/-- A digit more is ten times the number and the digit. -/
theorem number?_concat (radix : Nat) (digits : List Char) (c : Char) :
    number? radix (digits ++ [c]) =
      (number? radix digits).bind fun n => (digit? radix c).map (n * radix + ·) := by
  unfold number?
  rw [List.foldlM_append]
  cases digits.foldlM (fun n c => (digit? radix c).map (n * radix + ·)) 0 with
  | none => rfl
  | some n => simp

/-- A decimal numeral writes its number. -/
@[simp]
theorem number?_toDigits (n : Nat) : number? 10 (Nat.toDigits 10 n) = some n := by
  induction n using Nat.strongRecOn with
  | ind n ih =>
      have hstep (m d : Nat) (digits : List Char) (hdigits : number? 10 digits = some m)
          (hd : d < 10) : number? 10 (digits ++ [Nat.digitChar d]) = some (m * 10 + d) := by
        rw [number?_concat, hdigits, Option.bind_some, digit?_digitChar d hd, Option.map_some]
      by_cases hn : n < 10
      · rw [Nat.toDigits_of_lt_base hn]
        simpa using hstep 0 n [] rfl hn
      · have hle : 10 ≤ n := Nat.le_of_not_lt hn
        rw [Nat.toDigits_of_base_le (by decide) hle,
          hstep (n / 10) (n % 10) _ (ih (n / 10) (by omega)) (by omega), Option.some.injEq]
        omega

/-! ## Digits and the numbers they write -/

/-- The digits with their values as places, the letters in lower case. -/
def lowerDigits : List Char :=
  ['0', '1', '2', '3', '4', '5', '6', '7', '8', '9', 'a', 'b', 'c', 'd', 'e', 'f']

/-- The digits with their values as places, the letters in upper case. -/
def upperDigits : List Char :=
  ['0', '1', '2', '3', '4', '5', '6', '7', '8', '9', 'A', 'B', 'C', 'D', 'E', 'F']

/-- The character `c` is the digit of a radix that stands for `d`. Letters may be of either case. -/
def IsDigit (radix : Nat) (c : Char) (d : Nat) : Prop :=
  d < radix ∧ (lowerDigits[d]? = some c ∨ upperDigits[d]? = some c)

/-- The digits of a radix, the highest first, write the number `n`. -/
def IsNumeral (radix : Nat) (digits : List Char) (n : Nat) : Prop :=
  ∃ values, List.Forall₂ (IsDigit radix) digits.reverse values ∧ n = Nat.ofDigits radix values

/-- A character has the value of its place among the digits. -/
theorem digitValue?_eq_some_iff {d : Nat} :
    digitValue? c = some d ↔ lowerDigits[d]? = some c ∨ upperDigits[d]? = some c := by
  have hbetween {a b : Char} (h : (decide (a ≤ c) && decide (c ≤ b)) = true) :
      a.toNat ≤ c.toNat ∧ c.toNat ≤ b.toNat := by
    simpa [Char.le_def, UInt32.le_iff_toNat_le] using h
  have hcode : Char.ofNat c.toNat = c := Char.ofNat_toNat c
  constructor
  · intro h
    unfold digitValue? at h
    split_ifs at h with hdecimal hlower hupper
    · have hplaces : ∀ d < 10, lowerDigits[d]? = some (Char.ofNat (d + 48)) := by decide
      have hbounds : 48 ≤ c.toNat ∧ c.toNat ≤ 57 := hbetween hdecimal
      cases h
      left
      rw [hplaces _ (by omega), Nat.sub_add_cancel (by omega), hcode]
    · have hplaces : ∀ d < 16, 10 ≤ d → lowerDigits[d]? = some (Char.ofNat (d + 87)) := by decide
      have hbounds : 97 ≤ c.toNat ∧ c.toNat ≤ 102 := hbetween hlower
      cases h
      left
      rw [hplaces _ (by omega) (by omega), Nat.sub_add_cancel (by omega), hcode]
    · have hplaces : ∀ d < 16, 10 ≤ d → upperDigits[d]? = some (Char.ofNat (d + 55)) := by decide
      have hbounds : 65 ≤ c.toNat ∧ c.toNat ≤ 70 := hbetween hupper
      cases h
      right
      rw [hplaces _ (by omega) (by omega), Nat.sub_add_cancel (by omega), hcode]
  · have hlower : ∀ d < 16, lowerDigits[d]?.bind digitValue? = some d := by decide
    have hupper : ∀ d < 16, upperDigits[d]?.bind digitValue? = some d := by decide
    rintro (h | h)
    · simpa [h] using hlower d (List.getElem?_eq_some_iff.mp h).1
    · simpa [h] using hupper d (List.getElem?_eq_some_iff.mp h).1

/-- The digits of a radix are those whose value is below it. -/
theorem digit?_eq_some_iff {d : Nat} : digit? radix c = some d ↔ IsDigit radix c d := by
  rw [digit?, Option.filter_eq_some_iff, digitValue?_eq_some_iff, IsDigit, and_comm,
    decide_eq_true_eq]

/-- The last digit is added to the number of the others times the radix. -/
theorem isNumeral_concat {digits : List Char} :
    IsNumeral radix (digits ++ [c]) n ↔
      ∃ m, IsNumeral radix digits m ∧ ∃ d, IsDigit radix c d ∧ m * radix + d = n := by
  simp only [IsNumeral, List.reverse_append, List.reverse_singleton, List.singleton_append,
    List.forall₂_cons_left_iff]
  constructor
  · rintro ⟨_, ⟨d, values, hd, hvalues, rfl⟩, rfl⟩
    refine ⟨_, ⟨values, hvalues, rfl⟩, d, hd, ?_⟩
    rw [Nat.ofDigits_cons, Nat.mul_comm, Nat.add_comm]
  · rintro ⟨_, ⟨values, hvalues, rfl⟩, d, hd, rfl⟩
    refine ⟨_, ⟨d, values, hd, hvalues, rfl⟩, ?_⟩
    rw [Nat.ofDigits_cons, Nat.mul_comm, Nat.add_comm]

/-- A run of characters writes a number if and only if all of them are digits. -/
theorem exists_isNumeral_iff {digits : List Char} :
    (∃ n, IsNumeral radix digits n) ↔ ∀ c ∈ digits, ∃ d, IsDigit radix c d := by
  induction digits using List.reverseRecOn with
  | nil => simp [IsNumeral]
  | append_singleton digits c ih =>
      simp only [isNumeral_concat, List.forall_mem_append, List.forall_mem_singleton, ← ih]
      constructor
      · rintro ⟨_, m, hm, d, hd, -⟩
        exact ⟨⟨m, hm⟩, d, hd⟩
      · rintro ⟨⟨m, hm⟩, d, hd⟩
        exact ⟨_, m, hm, d, hd, rfl⟩

/-- A run of characters is read to a number if and only if it writes the number. -/
theorem number?_eq_some_iff {digits : List Char} :
    number? radix digits = some n ↔ IsNumeral radix digits n := by
  induction digits using List.reverseRecOn generalizing n with
  | nil =>
      show some 0 = some n ↔ _
      simp [IsNumeral, eq_comm]
  | append_singleton digits c ih =>
      simp only [number?_concat, isNumeral_concat, Option.bind_eq_some_iff, Option.map_eq_some_iff,
        ih, digit?_eq_some_iff]

end Text

namespace Literal

open Text

variable {radix : Nat} {c : Char} {digits : List Char} {word word' : UInt64}

/-! ## Words for numbers -/

/-- A number that fits is the number that its word stands for, and no other number has a word. -/
theorem word?_eq_some_iff {n : Nat} : word? n = some word ↔ n = word.toNat := by
  unfold word?
  constructor
  · intro h
    split at h
    · rename_i hfits
      cases h
      exact (UInt64.toNat_ofNat_of_lt' hfits).symm
    · cases h
  · rintro rfl
    rw [if_pos word.toNat_lt, UInt64.ofNat_toNat]

/-- One more digit makes a word of a word if the radix times the number and the digit fits. -/
theorem appendDigit?_eq_some_iff (hradix : radix < UInt64.size) (hc : c ≠ '_') :
    appendDigit? radix word c = some word' ↔
      ∃ d, digit? radix c = some d ∧ word.toNat * radix + d = word'.toNat := by
  have htoNat : (UInt64.ofNat radix).toNat = radix := UInt64.toNat_ofNat_of_lt' hradix
  rw [appendDigit?, if_neg hc, Option.bind_eq_some_iff]
  refine exists_congr fun d => and_congr_right fun hd => ?_
  have hdigit : (UInt64.ofNat d).toNat = d :=
    UInt64.toNat_ofNat_of_lt' (Nat.lt_trans (digit?_eq_some_iff.mp hd).1 hradix)
  simp only [Option.bind_eq_some_iff, mul?, add?, word?_eq_some_iff, htoNat, hdigit]
  constructor
  · rintro ⟨shifted, hmul, hadd⟩
    rw [hmul, hadd]
  · intro hsum
    have hfits : word.toNat * radix < UInt64.size :=
      Nat.lt_of_le_of_lt (Nat.le_add_right _ d) (hsum ▸ word'.toNat_lt)
    have hshifted := UInt64.toNat_ofNat_of_lt' hfits
    exact ⟨UInt64.ofNat (word.toNat * radix), hshifted.symm, by rw [hshifted, hsum]⟩

/-- **Digits are read to a word if and only if the number that they write fits.** Whether a product
or a sum on the way fits does not depend on where the underscores stand. -/
theorem magnitude?_eq_some_iff (hradix : 0 < radix) (hsize : radix < UInt64.size) :
    magnitude? radix digits = some word ↔
      number? radix (digits.filter (· != '_')) = some word.toNat := by
  induction digits using List.reverseRecOn generalizing word with
  | nil =>
      show some 0 = some word ↔ some 0 = some word.toNat
      rw [Option.some.injEq, Option.some.injEq, ← UInt64.toNat_inj]
      rfl
  | append_singleton digits c ih =>
      have hlast : magnitude? radix (digits ++ [c]) =
          (magnitude? radix digits).bind (appendDigit? radix · c) := by
        rw [magnitude?, List.foldlM_append]
        simp [magnitude?]
      rw [hlast, List.filter_append]
      by_cases hc : c = '_'
      · simp [hc, appendDigit?, ih]
      · have hkept : [c].filter (· != '_') = [c] := by simp [hc]
        rw [hkept, number?_concat]
        simp only [Option.bind_eq_some_iff, appendDigit?_eq_some_iff hsize hc,
          Option.map_eq_some_iff]
        constructor
        · rintro ⟨before, hbefore, hdigit⟩
          exact ⟨before.toNat, ih.mp hbefore, hdigit⟩
        · rintro ⟨n, hn, d, hd, hsum⟩
          -- The number before the last digit is not larger, so it was read to a word as well.
          have hle : n ≤ n * radix := Nat.le_mul_of_pos_right n hradix
          have hfits : n < UInt64.size := by
            have := word.toNat_lt
            simp only [UInt64.size] at this ⊢
            omega
          have hword := UInt64.toNat_ofNat_of_lt' hfits
          refine ⟨UInt64.ofNat n, ih.mpr ?_, d, hd, ?_⟩
          · rw [hn, hword]
          · rw [hword, hsum]

/-! ## Decimal numerals -/

/-- A decimal numeral has neither a sign nor a mark of another radix. -/
theorem split_toDigits (n : Nat) :
    splitSign (Nat.toDigits 10 n) = (false, Nat.toDigits 10 n) ∧
      splitRadix (Nat.toDigits 10 n) = (10, Nat.toDigits 10 n) := by
  rcases Nat.eq_zero_or_pos n with rfl | hn
  · exact ⟨rfl, rfl⟩
  · obtain ⟨d, cs, hd, hd10, hdigits⟩ := exists_toDigits_eq_cons (by decide : 1 < 10) hn
    have hfirst : ∀ d < 10, 0 < d → Nat.digitChar d ≠ '-' ∧ Nat.digitChar d ≠ '+' ∧
        Nat.digitChar d ≠ '0' := by decide
    obtain ⟨hminus, hplus, hzero⟩ := hfirst d hd10 hd
    rw [hdigits]
    constructor
    · unfold splitSign
      split
      · rename_i heq
        exact absurd (List.cons.inj heq).1 hminus
      · rename_i heq
        exact absurd (List.cons.inj heq).1 hplus
      · rfl
    · unfold splitRadix
      split <;> first | rfl | (rename_i heq; exact absurd (List.cons.inj heq).1 hzero)

/-- A decimal numeral is spelled as integer literals are. -/
theorem wellSpelled_toDigits (n : Nat) : wellSpelled 10 (Nat.toDigits 10 n) = true := by
  have hdigit : ∀ c ∈ Nat.toDigits 10 n, (digit? 10 c).isSome = true ∧ c ≠ '_' := by
    intro c hc
    obtain ⟨d, hd, rfl⟩ := exists_digitChar_of_mem_toDigits (by decide) hc
    have hnot : ∀ d < 10, Nat.digitChar d ≠ '_' := by decide
    exact ⟨by rw [digit?_digitChar d hd]; rfl, hnot d hd⟩
  have hhead : (Nat.toDigits 10 n).head? ≠ some '_' :=
    fun h => (hdigit _ (List.mem_of_mem_head? h)).2 rfl
  have hlast : (Nat.toDigits 10 n).getLast? ≠ some '_' :=
    fun h => (hdigit _ (List.mem_of_getLast? h)).2 rfl
  have hne : Nat.toDigits 10 n ≠ [] := by
    intro hnil
    have hnumber := number?_toDigits n
    rcases Nat.eq_zero_or_pos n with rfl | hn
    · cases hnil
    · rw [hnil] at hnumber
      cases hnumber
      omega
  have hall : ((Nat.toDigits 10 n).all fun c => c == '_' || (digit? 10 c).isSome) = true :=
    List.all_eq_true.mpr fun c hc => by simp [(hdigit c hc).1]
  simp [wellSpelled, hne, hhead, hlast, hall]

/-- The decimal numeral of a word denotes the word. -/
theorem integer_toDigits (w : UInt64) : integer (Nat.toDigits 10 w.toNat) = .ok w := by
  obtain ⟨hsign, hradix⟩ := split_toDigits w.toNat
  have hkept : (Nat.toDigits 10 w.toNat).filter (· != '_') = Nat.toDigits 10 w.toNat := by
    refine List.filter_eq_self.mpr fun c hc => ?_
    obtain ⟨d, hd, rfl⟩ := exists_digitChar_of_mem_toDigits (by decide) hc
    have hnot : ∀ d < 10, (Nat.digitChar d != '_') = true := by decide
    exact hnot d hd
  have hmagnitude : magnitude? 10 (Nat.toDigits 10 w.toNat) = some w := by
    rw [magnitude?_eq_some_iff (by decide) (by decide), hkept, number?_toDigits]
  unfold integer
  rw [hsign]
  dsimp only
  rw [hradix]
  dsimp only
  rw [wellSpelled_toDigits, hmagnitude]
  rfl

end Literal

end Formula
