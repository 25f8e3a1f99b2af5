import Formula.Primitive
import Mathlib.Algebra.Order.Ring.Int

/-!
# Integer arithmetic in two's complement

Truth values and integers count as numbers of the signed range (`Cell.Counts`), and primitives on
them yield such numbers again (`Cell.Yields`). A sum, a difference, a product, a negative or an
absolute value is the exact one up to a multiple of the number of words (`wrap`); division goes to
zero, and shifts take the last six bits of their second operand only
(`integer_primitives_wrap`).
-/

namespace Formula

/-! ## Wrapping around -/

/-- The number of the signed range that differs from `z` by a multiple of the number of words. -/
def wrap (z : Int) : Int :=
  (z + 2 ^ 63) % 2 ^ 64 - 2 ^ 63

/-- Wrapping around is the residue nearest to zero. -/
theorem wrap_eq_bmod (z : Int) : wrap z = z.bmod (2 ^ 64) := by
  rw [wrap, Int.bmod_def]
  split <;> omega

/-- An integer of sixty-four bits lies in the signed range. -/
@[simp]
theorem wrap_toInt (i : Int64) : wrap i.toInt = i.toInt := by
  have hlower := i.le_toInt
  have hupper := i.toInt_lt
  unfold wrap
  omega

@[simp]
theorem wrap_mul_left (z y : Int) : wrap (wrap z * y) = wrap (z * y) := by
  simp only [wrap_eq_bmod, Int.bmod_mul_bmod]

@[simp]
theorem wrap_add_left (z y : Int) : wrap (wrap z + y) = wrap (z + y) := by
  simp only [wrap_eq_bmod, Int.bmod_add_bmod]

/-! ## Values and results -/

namespace Cell

/-- A truth value or an integer, and the number that it counts as. -/
inductive Counts : Cell → Int → Prop
  | bool (b : Bool) : Counts (.bool b) (if b then 1 else 0)
  | int (i : Int64) : Counts (.int i) i.toInt

/-- A result is the integer `z`. -/
def Yields (result : Option Cell) (z : Int) : Prop :=
  ∃ i : Int64, result = some (.int i) ∧ i.toInt = z

variable {a b : Cell} {x y z : Int} {onInt : Int64 → Int64} {onInt₂ : Int64 → Int64 → Int64}
  {onFloat : Binary64 → Binary64} {onFloat₂ : Binary64 → Binary64 → Binary64}

/-- A value that counts as a number is no double and turns into that number. -/
theorem Counts.exists_toInt? (h : a.Counts x) :
    a.isFloat = false ∧ ∃ i, a.toInt? = some i ∧ i.toInt = x := by
  cases h with
  | bool b => cases b <;> exact ⟨rfl, _, rfl, rfl⟩
  | int i => exact ⟨rfl, i, rfl, rfl⟩

/-- Arithmetic on one value that counts as a number is done on integers. -/
theorem Counts.yields_arith₁ (ha : a.Counts x)
    (h : ∀ i : Int64, i.toInt = x → (onInt i).toInt = z) :
    Yields (a.arith₁ onInt onFloat) z := by
  obtain ⟨hfloat, i, hi, hx⟩ := ha.exists_toInt?
  exact ⟨onInt i, by simp [arith₁, hfloat, hi], h i hx⟩

/-- Arithmetic on two values that count as numbers is done on integers. -/
theorem Counts.yields_arith₂ (ha : a.Counts x) (hb : b.Counts y)
    (h : ∀ i j : Int64, i.toInt = x → j.toInt = y → (onInt₂ i j).toInt = z) :
    Yields (a.arith₂ b onInt₂ onFloat₂) z := by
  obtain ⟨hfloat, i, hi, hx⟩ := ha.exists_toInt?
  obtain ⟨hfloat', j, hj, hy⟩ := hb.exists_toInt?
  exact ⟨onInt₂ i j, by simp [arith₂, hfloat, hfloat', hi, hj], h i j hx hy⟩

/-- A function of integers takes values that count as numbers. -/
theorem Counts.yields_bits₂ (ha : a.Counts x) (hb : b.Counts y)
    (h : ∀ i j : Int64, i.toInt = x → j.toInt = y → (onInt₂ i j).toInt = z) :
    Yields (a.bits₂ b onInt₂) z := by
  obtain ⟨-, i, hi, hx⟩ := ha.exists_toInt?
  obtain ⟨-, j, hj, hy⟩ := hb.exists_toInt?
  exact ⟨onInt₂ i j, by simp [bits₂, hi, hj], h i j hx hy⟩

end Cell

/-! ## Division -/

/-- Division to zero: the remainder is smaller than the divisor and has the sign of the dividend,
unless it is zero. -/
structure DividesToZero (x y q r : Int) : Prop where
  quotient : q = x.tdiv y
  whole : x = q * y + r
  small : |r| < |y|
  sign : r = 0 ∨ r.sign = x.sign

/-- Every number is divided to zero by every number other than zero. -/
theorem dividesToZero_tdiv (x : Int) {y : Int} (hy : y ≠ 0) :
    DividesToZero x y (x.tdiv y) (x.tmod y) := by
  refine ⟨rfl, (Int.tdiv_mul_add_tmod x y).symm, ?_, ?_⟩
  · rw [Int.abs_eq_natAbs, Int.abs_eq_natAbs, Int.natAbs_tmod]
    exact_mod_cast Nat.mod_lt _ (Int.natAbs_pos.mpr hy)
  · by_cases hdvd : y ∣ x
    · exact .inl (Int.tmod_eq_zero_of_dvd hdvd)
    · exact .inr (by rw [Int.sign_tmod, if_neg hdvd])

/-! ## Shifts -/

/-- The bits of an integer as a natural number are its residue. -/
theorem toNat_eq_toInt_emod (v : BitVec 64) : (v.toNat : Int) = v.toInt % 2 ^ 64 := by
  have hlt := v.isLt
  rw [BitVec.toInt_eq_toNat_cond]
  split <;> omega

/-- A shift takes the residue of its second operand modulo the number of bits. -/
theorem toNat_smod (j : Int64) : ((j.toBitVec.smod 64).toNat : Int) = j.toInt % 64 := by
  have hmod : (j.toBitVec.smod 64).toInt = j.toInt % 64 := by
    rw [BitVec.toInt_smod, Int64.toInt_toBitVec]
    exact Int.fmod_eq_emod_of_nonneg _ (by decide)
  rw [toNat_eq_toInt_emod, hmod]
  omega

variable {i j : Int64} {k : Nat}

/-- A shift to the left multiplies by a power of two and wraps around. -/
theorem toInt_shiftLeft (hk : (k : Int) = j.toInt % 64) :
    (i <<< j).toInt = wrap (i.toInt * 2 ^ k) := by
  have hcount : (j.toBitVec.smod 64).toNat = k := by
    have := toNat_smod j
    omega
  have hshift : ((i.toBitVec.toNat <<< k : Nat) : Int) = i.toInt % 2 ^ 64 * 2 ^ k := by
    rw [Nat.shiftLeft_eq, Nat.cast_mul, toNat_eq_toInt_emod, Int64.toInt_toBitVec]
    norm_cast
  calc (i <<< j).toInt = (i.toBitVec <<< k).toInt := by
        rw [← Int64.toInt_toBitVec, Int64.toBitVec_shiftLeft, BitVec.shiftLeft_eq', hcount]
    _ = (i.toInt % 2 ^ 64 * 2 ^ k).bmod (2 ^ 64) := by rw [BitVec.toInt_shiftLeft, hshift]
    _ = (i.toInt * 2 ^ k).bmod (2 ^ 64) := by
        rw [← Int.bmod_mul_bmod, ← Int.bmod_mul_bmod (x := i.toInt)]
        congr 2
        exact Int.emod_bmod _ _
    _ = wrap (i.toInt * 2 ^ k) := (wrap_eq_bmod _).symm

/-- A shift to the right that keeps the sign divides by a power of two and rounds down. -/
theorem toInt_shiftRight (hk : (k : Int) = j.toInt % 64) : (i >>> j).toInt = i.toInt / 2 ^ k := by
  have hcount : (j.toBitVec.smod 64).toNat = k := by
    have := toNat_smod j
    omega
  rw [← Int64.toInt_toBitVec, Int64.toBitVec_shiftRight, BitVec.toInt_sshiftRight', hcount,
    Int64.toInt_toBitVec, Int.shiftRight_eq_div_pow, Int.natCast_pow]
  rfl

/-- A shift to the right that fills with zeros divides the residue by a power of two and rounds
down. -/
theorem toInt_logicalShiftRight (hk : (k : Int) = j.toInt % 64) :
    (i.toUInt64 >>> j.toUInt64).toInt64.toInt = wrap (i.toInt % 2 ^ 64 / 2 ^ k) := by
  have hbits (v : Int64) : (v.toUInt64.toNat : Int) = v.toInt % 2 ^ 64 :=
    toNat_eq_toInt_emod v.toBitVec
  have hcount : j.toUInt64.toNat % 64 = k := by
    have := hbits j
    omega
  have hshift : ((i.toUInt64 >>> j.toUInt64).toNat : Int) = i.toInt % 2 ^ 64 / 2 ^ k := by
    rw [UInt64.toNat_shiftRight, hcount, Nat.shiftRight_eq_div_pow, Int.natCast_ediv, hbits i,
      Int.natCast_pow]
    rfl
  rw [← hshift, wrap_eq_bmod]
  exact BitVec.toInt_eq_toNat_bmod _

/-! ## The primitives on integers -/

section Primitives

open Cell

variable {a b : Cell} {x y : Int}

/-- Sums, differences and products wrap around. -/
theorem yields_ring (ha : a.Counts x) (hb : b.Counts y) :
    Yields (BinaryPrimitive.add.apply a b) (wrap (x + y)) ∧
      Yields (BinaryPrimitive.sub.apply a b) (wrap (x - y)) ∧
      Yields (BinaryPrimitive.mul.apply a b) (wrap (x * y)) := by
  refine ⟨?_, ?_, ?_⟩ <;> refine ha.yields_arith₂ hb ?_ <;> rintro i j rfl rfl
  · rw [Int64.toInt_add, wrap_eq_bmod]
  · rw [Int64.toInt_sub, wrap_eq_bmod]
  · rw [Int64.toInt_mul, wrap_eq_bmod]

/-- Negatives and absolute values wrap around. -/
theorem yields_neg_abs (ha : a.Counts x) :
    Yields (UnaryPrimitive.neg.apply a) (wrap (-x)) ∧
      Yields (UnaryPrimitive.abs.apply a) (wrap |x|) := by
  refine ⟨?_, ?_⟩ <;> refine ha.yields_arith₁ ?_ <;> rintro i rfl
  · rw [Int64.toInt_neg, wrap_eq_bmod]
  · have hsign : i < 0 ↔ i.toInt < 0 := Int64.lt_iff_toInt_lt
    by_cases hi : i < 0
    · rw [if_pos hi, Int64.toInt_neg, abs_of_neg (hsign.mp hi), wrap_eq_bmod]
    · rw [if_neg hi, abs_of_nonneg (Int.not_lt.mp (mt hsign.mpr hi)), wrap_toInt]

/-- Division by zero yields zero. -/
theorem yields_div_zero (ha : a.Counts x) (hb : b.Counts 0) :
    Yields (BinaryPrimitive.div.apply a b) 0 ∧ Yields (BinaryPrimitive.rem.apply a b) 0 := by
  refine ⟨?_, ?_⟩ <;> refine ha.yields_arith₂ hb ?_ <;> intro i j _ hj
  all_goals rw [if_pos (Int64.toInt_inj.mp hj), Int64.toInt_zero]

/-- Division by another number wraps the quotient around and keeps the remainder. -/
theorem yields_div (ha : a.Counts x) (hb : b.Counts y) (hy : y ≠ 0) :
    Yields (BinaryPrimitive.div.apply a b) (wrap (x.tdiv y)) ∧
      Yields (BinaryPrimitive.rem.apply a b) (x.tmod y) := by
  have hne {j : Int64} (hj : j.toInt = y) : j ≠ 0 := by
    rintro rfl
    exact hy hj.symm
  constructor
  · refine ha.yields_arith₂ hb fun i j hi hj => ?_
    rw [if_neg (hne hj), Int64.toInt_div, hi, hj, wrap_eq_bmod]
  · refine ha.yields_arith₂ hb fun i j hi hj => ?_
    rw [if_neg (hne hj), Int64.toInt_mod, hi, hj]

/-- A quotient lies in the signed range, unless the least number is divided by minus one. -/
theorem wrap_tdiv (ha : a.Counts x) (hb : b.Counts y) (h : ¬(x = -2 ^ 63 ∧ y = -1)) :
    wrap (x.tdiv y) = x.tdiv y := by
  obtain ⟨-, i, -, rfl⟩ := ha.exists_toInt?
  obtain ⟨-, j, -, rfl⟩ := hb.exists_toInt?
  have hfits : (i / j).toInt = i.toInt.tdiv j.toInt := by
    by_cases hi : i = Int64.minValue
    · refine Int64.toInt_div_of_ne_right i j fun hj => h ⟨?_, ?_⟩
      · rw [hi, Int64.toInt_minValue]
      · rw [hj]
        rfl
    · exact Int64.toInt_div_of_ne_left i j hi
  rw [← hfits, wrap_toInt]

/-- The quotient times the divisor and the remainder give the dividend. -/
theorem yields_div_mul_add_rem (ha : a.Counts x) (hb : b.Counts y) (hy : y ≠ 0) :
    Yields
      ((BinaryPrimitive.div.apply a b).bind fun q =>
        (BinaryPrimitive.mul.apply q b).bind fun p =>
          (BinaryPrimitive.rem.apply a b).bind fun r => BinaryPrimitive.add.apply p r) x := by
  obtain ⟨⟨q, hdiv, hq⟩, r, hrem, hr⟩ := yields_div ha hb hy
  obtain ⟨p, hmul, hp⟩ := (yields_ring (.int q) hb).2.2
  obtain ⟨s, hadd, hs⟩ := (yields_ring (.int p) (.int r)).1
  refine ⟨s, by simp only [hdiv, hmul, hrem, hadd, Option.bind_some], ?_⟩
  obtain ⟨-, i, -, rfl⟩ := ha.exists_toInt?
  calc s.toInt = wrap (wrap (wrap (i.toInt.tdiv y) * y) + i.toInt.tmod y) := by
        rw [hs, hp, hq, hr]
    _ = wrap (i.toInt.tdiv y * y + i.toInt.tmod y) := by rw [wrap_mul_left, wrap_add_left]
    _ = i.toInt := by rw [Int.tdiv_mul_add_tmod, wrap_toInt]

/-- Shifts take the residue of their second operand modulo the number of bits. -/
theorem yields_shift (ha : a.Counts x) (hb : b.Counts y) {k : Nat} (hk : (k : Int) = y % 64) :
    Yields (BinaryPrimitive.shl.apply a b) (wrap (x * 2 ^ k)) ∧
      Yields (BinaryPrimitive.sar.apply a b) (x / 2 ^ k) ∧
      Yields (BinaryPrimitive.shr.apply a b) (wrap (x % 2 ^ 64 / 2 ^ k)) := by
  refine ⟨?_, ?_, ?_⟩ <;> refine ha.yields_bits₂ hb ?_ <;> rintro i j rfl rfl
  · exact toInt_shiftLeft hk
  · exact toInt_shiftRight hk
  · exact toInt_logicalShiftRight hk

/-- **Primitives on integers are arithmetic in two's complement.** Of operands that count as numbers
they always yield a number. Sums, differences, products, negatives and absolute values are exact up
to wrapping around. Division by zero yields zero; other divisions go to zero, and the least number
divided by minus one is itself without remainder. Shifts multiply or divide by a power of two whose
exponent is the residue of the second operand modulo sixty-four; a division rounds down. The
quotient times the divisor and the remainder always give the dividend back. -/
theorem integer_primitives_wrap (ha : a.Counts x) (hb : b.Counts y) :
    Yields (BinaryPrimitive.add.apply a b) (wrap (x + y)) ∧
    Yields (BinaryPrimitive.sub.apply a b) (wrap (x - y)) ∧
    Yields (BinaryPrimitive.mul.apply a b) (wrap (x * y)) ∧
    Yields (UnaryPrimitive.neg.apply a) (wrap (-x)) ∧
    Yields (UnaryPrimitive.abs.apply a) (wrap |x|) ∧
    (y = 0 →
      Yields (BinaryPrimitive.div.apply a b) 0 ∧ Yields (BinaryPrimitive.rem.apply a b) 0) ∧
    (x = -2 ^ 63 → y = -1 → Yields (BinaryPrimitive.div.apply a b) (-2 ^ 63) ∧
      Yields (BinaryPrimitive.rem.apply a b) 0) ∧
    (y ≠ 0 → ¬(x = -2 ^ 63 ∧ y = -1) → ∃ q r, DividesToZero x y q r ∧
      Yields (BinaryPrimitive.div.apply a b) q ∧ Yields (BinaryPrimitive.rem.apply a b) r) ∧
    (∀ k : Nat, (k : Int) = y % 64 →
      Yields (BinaryPrimitive.shl.apply a b) (wrap (x * 2 ^ k)) ∧
      Yields (BinaryPrimitive.sar.apply a b) (x / 2 ^ k) ∧
      Yields (BinaryPrimitive.shr.apply a b) (wrap (x % 2 ^ 64 / 2 ^ k))) ∧
    (y ≠ 0 → Yields
      ((BinaryPrimitive.div.apply a b).bind fun q =>
        (BinaryPrimitive.mul.apply q b).bind fun p =>
          (BinaryPrimitive.rem.apply a b).bind fun r => BinaryPrimitive.add.apply p r) x) := by
  obtain ⟨hadd, hsub, hmul⟩ := yields_ring ha hb
  obtain ⟨hneg, habs⟩ := yields_neg_abs ha
  refine ⟨hadd, hsub, hmul, hneg, habs, ?_, ?_, ?_, fun k => yields_shift ha hb,
    yields_div_mul_add_rem ha hb⟩
  · rintro rfl
    exact yields_div_zero ha hb
  · rintro rfl rfl
    exact yields_div ha hb (by decide)
  · intro hy hfits
    obtain ⟨hdiv, hrem⟩ := yields_div ha hb hy
    rw [wrap_tdiv ha hb hfits] at hdiv
    exact ⟨_, _, dividesToZero_tdiv x hy, hdiv, hrem⟩

/-- The least number divided by minus one, a truth value divided by a negative number, and a shift
by a negative number. -/
theorem integer_primitives_wrap_least :
    Cell.Counts (.int (-9223372036854775808)) (-2 ^ 63) ∧ Cell.Counts (.int (-1)) (-1) ∧
    Yields (BinaryPrimitive.div.apply (.int (-9223372036854775808)) (.int (-1))) (-2 ^ 63) ∧
    Yields (BinaryPrimitive.rem.apply (.int (-9223372036854775808)) (.int (-1))) 0 ∧
    (∃ q r, DividesToZero 1 (-1) q r ∧
      Yields (BinaryPrimitive.div.apply (.bool true) (.int (-1))) q ∧
      Yields (BinaryPrimitive.rem.apply (.bool true) (.int (-1))) r) ∧
    Yields (BinaryPrimitive.shl.apply (.bool true) (.int (-1))) (wrap (2 ^ 63)) := by
  have hleast : Cell.Counts (.int (-9223372036854775808)) (-2 ^ 63) := .int _
  have hone : Cell.Counts (.int (-1)) (-1) := .int _
  have htrue : Cell.Counts (.bool true) 1 := .bool true
  obtain ⟨-, -, -, -, -, -, hwraps, -⟩ := integer_primitives_wrap hleast hone
  obtain ⟨-, -, -, -, -, -, -, hdivides, hshifts, -⟩ := integer_primitives_wrap htrue hone
  obtain ⟨hdiv, hrem⟩ := hwraps rfl rfl
  exact ⟨hleast, hone, hdiv, hrem, hdivides (by decide) (by decide), (hshifts 63 (by decide)).1⟩

end Primitives

end Formula
