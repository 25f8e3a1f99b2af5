import Formula.Proofs.IntegerArithmetic
import Formula.Proofs.Primitive
import Mathlib.Order.Compare

/-!
# Comparisons

Two numbers are compared by their exact values, as doubles if one of them is a double and as
integers otherwise (`Cell.ComparedAs`). The order of two numbers and their equality are computed in
different ways, the one from the order of bit patterns and the other from their equality, and both
are those of the exact values (`ComparedAs.order?_eq`, `ComparedAs.equal_eq`). All comparisons
therefore agree with one another (`comparisons_cohere`).
-/

namespace Formula

/-! ## Doubles -/

namespace Binary64

variable {x y : Binary64}

/-- The value of a number in units. The infinities lie beyond all others. -/
def signedUnits (x : Binary64) : Int :=
  if x.isNegative then -(x.units : Int) else x.units

/-- The remaining bits of a double that was made of parts. -/
theorem magnitude_ofParts (negative : Bool) {n : Nat} (h : n < signWeight) :
    (ofParts negative n).magnitude = n := by
  unfold magnitude ofParts signWeight at *
  rw [UInt64.toNat_ofNat']
  cases negative <;> simp only [Bool.false_eq_true, if_true, if_false] <;> omega

/-- The magnitudes up to those of the infinities leave the sign bit free. -/
theorem lt_signWeight {n : Nat} (h : n ≤ infinityMagnitude) : n < signWeight :=
  Nat.lt_of_le_of_lt h (by decide)

/-- The magnitudes up to those of the infinities are those of numbers. -/
theorem isNaN_ofParts (negative : Bool) {n : Nat} (h : n ≤ infinityMagnitude) :
    (ofParts negative n).isNaN = false := by
  rw [isNaN, magnitude_ofParts _ (lt_signWeight h)]
  exact decide_eq_false (Nat.not_lt.mpr h)

@[simp]
theorem isNaN_ofInt (i : Int) : (ofInt i).isNaN = false := by
  rw [ofInt]
  exact isNaN_ofParts _ (nearestMagnitude_le _ _)

@[simp]
theorem isNaN_ofBool (b : Bool) : (ofBool b).isNaN = false := by
  cases b <;> decide

/-- Bits without sign are in the order of the absolute values. -/
theorem units_lt_units (h : x.magnitude < y.magnitude) : x.units < y.units := by
  have hbinade : 0 < binade := by decide
  have hx := Nat.div_add_mod x.magnitude binade
  have hy := Nat.div_add_mod y.magnitude binade
  have hfraction : x.magnitude % binade < binade := Nat.mod_lt _ hbinade
  have hexponents : x.magnitude / binade ≤ y.magnitude / binade := Nat.div_le_div_right h.le
  unfold units
  generalize x.magnitude / binade = e at *
  generalize y.magnitude / binade = e' at *
  generalize x.magnitude % binade = f at *
  generalize y.magnitude % binade = f' at *
  simp only [Nat.shiftLeft_eq]
  rcases hexponents.eq_or_lt with rfl | hlt
  · -- Within a binade the fraction counts.
    have hfractions : f < f' := by omega
    split_ifs with hzero
    · exact hfractions
    · exact Nat.mul_lt_mul_of_pos_right (by omega) (Nat.two_pow_pos _)
  · have hne : e' ≠ 0 := by omega
    rw [if_neg hne]
    have hleast : binade * 2 ^ (e' - 1) ≤ (binade + f') * 2 ^ (e' - 1) :=
      Nat.mul_le_mul_right _ (Nat.le_add_right _ _)
    refine Nat.lt_of_lt_of_le ?_ hleast
    split_ifs with hzero
    · calc f < binade := hfraction
        _ ≤ binade * 2 ^ (e' - 1) := Nat.le_mul_of_pos_right _ (Nat.two_pow_pos _)
    · -- All of a binade lies below twice its least number.
      calc (binade + f) * 2 ^ (e - 1) < (binade * 2) * 2 ^ (e - 1) :=
            Nat.mul_lt_mul_of_pos_right (by omega) (Nat.two_pow_pos _)
        _ = binade * 2 ^ (e - 1 + 1) := by rw [Nat.mul_assoc, Nat.pow_succ']
        _ ≤ binade * 2 ^ (e' - 1) :=
            Nat.mul_le_mul_left _ (Nat.pow_le_pow_right (by decide) (by omega))

theorem units_eq_zero (h : x.magnitude = 0) : x.units = 0 := by
  simp [units, h]

/-- Equal bits without sign have equal absolute values. -/
theorem units_eq_units (h : x.magnitude = y.magnitude) : x.units = y.units := by
  rw [units, units, h]

theorem units_pos (h : 0 < x.magnitude) : 0 < x.units :=
  Nat.lt_of_le_of_lt (Nat.zero_le _) (units_lt_units (x := zero) h)

/-- The rank is in the order of the values. -/
theorem compare_signedUnits (x y : Binary64) :
    compare x.signedUnits y.signedUnits = compare x.rank y.rank := by
  -- Both negate what has the sign, so that only magnitudes and units are left to compare.
  have hlt (x y : Binary64) (h : x.rank < y.rank) : x.signedUnits < y.signedUnits := by
    have hxy := @units_lt_units x y
    have hyx := @units_lt_units y x
    have hx := @units_pos x
    have hy := @units_pos y
    unfold rank at h
    unfold signedUnits
    split_ifs at h ⊢ <;> omega
  rcases lt_trichotomy x.rank y.rank with h | h | h
  · rw [compare_lt_iff_lt.mpr h, compare_lt_iff_lt.mpr (hlt x y h)]
  · have hsame : x.signedUnits = y.signedUnits := by
      have hxy := @units_eq_units x y
      have hx := @units_eq_zero x
      have hy := @units_eq_zero y
      unfold rank at h
      unfold signedUnits
      split_ifs at h ⊢ <;> omega
    rw [compare_eq_iff_eq.mpr h, compare_eq_iff_eq.mpr hsame]
  · rw [compare_gt_iff_gt.mpr h, compare_gt_iff_gt.mpr (hlt y x h)]

/-- Numbers are in the order of their values. -/
theorem order?_eq (x y : Binary64) :
    order? x y =
      if x.isNaN || y.isNaN then none else some (compare x.signedUnits y.signedUnits) := by
  rw [order?, compare_signedUnits]

/-- Two patterns have the same rank if they are equal or are the two zeros. -/
theorem rank_eq_rank_iff :
    x.rank = y.rank ↔ x.bits = y.bits ∨ x.magnitude = 0 ∧ y.magnitude = 0 := by
  have hx := x.bits.toNat_lt
  have hy := y.bits.toNat_lt
  rw [← UInt64.toNat_inj]
  unfold rank isNegative magnitude signWeight
  simp only [decide_eq_true_eq]
  split_ifs <;> omega

/-- Numbers are the same if their values are. -/
theorem same_eq (x y : Binary64) :
    x.same y = (!(x.isNaN || y.isNaN) && decide (x.signedUnits = y.signedUnits)) := by
  have hvalues : x.signedUnits = y.signedUnits ↔ x.rank = y.rank := by
    rw [← compare_eq_iff_eq, compare_signedUnits, compare_eq_iff_eq]
  have hbits : (x.bits == y.bits || x.magnitude == 0 && y.magnitude == 0) =
      decide (x.signedUnits = y.signedUnits) := by
    rw [Bool.eq_iff_iff]
    simp [hvalues, rank_eq_rank_iff]
  rw [same, hbits, Bool.not_or]

end Binary64

/-! ## Numbers -/

namespace Cell

variable {a b : Cell} {v w : Int}

/-- Whether a value is a double that is not a number. -/
def isNaN : Cell → Bool
  | float x => x.isNaN
  | _ => false

/-- The exact values by which two numbers are compared: in units if one of them is a double, and as
integers otherwise. -/
inductive ComparedAs (a b : Cell) : Int → Int → Prop
  | integers {v w : Int} (ha : a.Counts v) (hb : b.Counts w) : ComparedAs a b v w
  | doubles {x y : Binary64} (hfloat : (a.isFloat || b.isFloat) = true) (ha : a.toFloat? = some x)
      (hb : b.toFloat? = some y) : ComparedAs a b x.signedUnits y.signedUnits

/-- Numbers other than doubles count as integers. -/
theorem exists_counts (ha : a.isText = false) (hfloat : a.isFloat = false) : ∃ v, a.Counts v := by
  cases a with
  | bool b => exact ⟨_, .bool b⟩
  | int i => exact ⟨_, .int i⟩
  | float x => cases hfloat
  | str s => cases ha

/-- Every two numbers are compared by some values. -/
theorem exists_comparedAs (ha : a.isText = false) (hb : b.isText = false) :
    ∃ v w, ComparedAs a b v w := by
  cases hfloat : a.isFloat || b.isFloat with
  | true =>
      obtain ⟨x, hx⟩ := exists_toFloat? ha
      obtain ⟨y, hy⟩ := exists_toFloat? hb
      exact ⟨_, _, .doubles hfloat hx hy⟩
  | false =>
      obtain ⟨hfloata, hfloatb⟩ := Bool.or_eq_false_iff.mp hfloat
      obtain ⟨v, hv⟩ := exists_counts ha hfloata
      obtain ⟨w, hw⟩ := exists_counts hb hfloatb
      exact ⟨v, w, .integers hv hw⟩

theorem ComparedAs.symm (h : ComparedAs a b v w) : ComparedAs b a w v := by
  cases h with
  | integers ha hb => exact .integers hb ha
  | doubles hfloat ha hb => exact .doubles (by rwa [Bool.or_comm]) hb ha

/-- Turning a value into a double makes a number of everything but doubles. -/
theorem isNaN_of_toFloat? {x : Binary64} (h : a.toFloat? = some x) : x.isNaN = a.isNaN := by
  cases a with
  | bool b => exact Option.some.inj h ▸ Binary64.isNaN_ofBool b
  | int i => exact Option.some.inj h ▸ Binary64.isNaN_ofInt i.toInt
  | float x => exact Option.some.inj h ▸ rfl
  | str s => cases h

/-- Values that count as integers are numbers. -/
theorem Counts.isNaN_eq_false (h : a.Counts v) : a.isNaN = false := by
  cases h <;> rfl

/-- Numbers are in the order of the values by which they are compared. -/
theorem ComparedAs.order?_eq (h : ComparedAs a b v w) :
    a.order? b = some (if a.isNaN || b.isNaN then none else some (compare v w)) := by
  cases h with
  | integers ha hb =>
      obtain ⟨hfloat, i, hi, rfl⟩ := ha.exists_toInt?
      obtain ⟨hfloat', j, hj, rfl⟩ := hb.exists_toInt?
      simp [order?, hfloat, hfloat', hi, hj, ha.isNaN_eq_false, hb.isNaN_eq_false]
  | doubles hfloat ha hb =>
      rw [order?, if_pos hfloat, ha, hb, ← isNaN_of_toFloat? ha, ← isNaN_of_toFloat? hb]
      exact congrArg some (Binary64.order?_eq _ _)

/-- A number is equal to a double if the two are the same as doubles. -/
theorem equal_of_isFloat {x y : Binary64} (hfloat : (a.isFloat || b.isFloat) = true)
    (ha : a.toFloat? = some x) (hb : b.toFloat? = some y) : a.equal b = x.same y := by
  cases a with
  | bool | int | float => cases b <;> simp_all [equal, isFloat, toFloat?]
  | str => cases ha

/-- Integers are equal if they count as the same number. -/
theorem Counts.equal_eq (ha : a.Counts v) (hb : b.Counts w) : a.equal b = decide (v = w) := by
  have hequal : a.equal b = (a.toInt? == b.toInt?) := by
    cases ha <;> cases hb <;> rfl
  obtain ⟨_, i, hi, rfl⟩ := ha.exists_toInt?
  obtain ⟨_, j, hj, rfl⟩ := hb.exists_toInt?
  rw [hequal, hi, hj, Bool.eq_iff_iff]
  simp [Int64.toInt_inj]

/-- Numbers are equal if the values by which they are compared are. -/
theorem ComparedAs.equal_eq (h : ComparedAs a b v w) :
    a.equal b = (!(a.isNaN || b.isNaN) && decide (v = w)) := by
  cases h with
  | integers ha hb => simp [ha.equal_eq hb, ha.isNaN_eq_false, hb.isNaN_eq_false]
  | doubles hfloat ha hb =>
      rw [← isNaN_of_toFloat? ha, ← isNaN_of_toFloat? hb, ← Binary64.same_eq,
        equal_of_isFloat hfloat ha hb]

end Cell

/-! ## Comparisons -/

namespace BinaryPrimitive

/-- A comparison holds of two values. -/
def Holds (p : BinaryPrimitive) (a b : Cell) : Prop :=
  p.apply a b = some (.bool true)

/-- A comparison does not hold of two values. -/
def Fails (p : BinaryPrimitive) (a b : Cell) : Prop :=
  p.apply a b = some (.bool false)

/-- What yields a truth value holds or does not hold. -/
theorem holds_or_fails {p : BinaryPrimitive} {a b : Cell} {t : Bool}
    (h : p.apply a b = some (.bool t)) : p.Holds a b ∨ p.Fails a b := by
  cases t with
  | true => exact .inl h
  | false => exact .inr h

end BinaryPrimitive

namespace Cell

open BinaryPrimitive

variable {a b : Cell} {o : Option Ordering}

/-- Both three-way comparisons of two values yield `sign`, and its opposite the other way round. -/
structure HaveSign (a b : Cell) (sign : Int64) : Prop where
  less : cmpl.apply a b = some (.int sign)
  greater : cmpg.apply a b = some (.int sign)
  less_symm : cmpl.apply b a = some (.int (-sign))
  greater_symm : cmpg.apply b a = some (.int (-sign))

/-- What comparisons say of two numbers that have an order. -/
inductive Ordered (a b : Cell) : Prop
  | below (hlt : lt.Holds a b) (heq : eq.Fails a b) (hgt : gt.Fails a b) (hsign : HaveSign a b (-1))
  | level (hlt : lt.Fails a b) (heq : eq.Holds a b) (hgt : gt.Fails a b) (hsign : HaveSign a b 0)
  | above (hlt : lt.Fails a b) (heq : eq.Fails a b) (hgt : gt.Holds a b) (hsign : HaveSign a b 1)

/-- What comparisons say of two values that have no order. -/
structure Unordered (a b : Cell) : Prop where
  fails : ∀ p ∈ [lt, le, gt, ge, eq], p.Fails a b
  differ : ne.Holds a b
  less : cmpl.apply a b = some (.int (-1))
  greater : cmpg.apply a b = some (.int 1)

/-- What comparisons say of two numbers, together. -/
structure Coherent (a b : Cell) : Prop where
  decided : ∀ p ∈ [lt, le, gt, ge, eq, ne], p.Holds a b ∨ p.Fails a b
  eq_iff : eq.Holds a b ↔ a.order? b = some (some .eq)
  ne_iff : ne.Holds a b ↔ ¬eq.Holds a b
  le_iff : le.Holds a b ↔ lt.Holds a b ∨ eq.Holds a b
  ge_iff : ge.Holds a b ↔ gt.Holds a b ∨ eq.Holds a b
  lt_iff : lt.Holds a b ↔ gt.Holds b a
  ordered : a.order? b ≠ some none → Ordered a b
  unordered : a.order? b = some none → Unordered a b
  unordered_iff : a.order? b = some none ↔ a.isNaN = true ∨ b.isNaN = true
  values : ∃ v w, ComparedAs a b v w ∧
    a.order? b = some (if a.isNaN || b.isNaN then none else some (compare v w))

/-- The order of two numbers is the opposite of their order the other way round, and decides whether
they are equal. -/
theorem ComparedAs.exists_order? {v w : Int} (h : ComparedAs a b v w) :
    ∃ o, a.order? b = some o ∧ b.order? a = some (o.map Ordering.swap) ∧
      a.equal b = (o == some .eq) := by
  refine ⟨_, h.order?_eq, ?_, ?_⟩
  · rw [h.symm.order?_eq, Bool.or_comm]
    split
    · rfl
    · rw [Option.map_some, ← Std.OrientedOrd.eq_swap]
  · rw [h.equal_eq, Bool.eq_iff_iff]
    cases a.isNaN || b.isNaN <;> simp

/-- The order of two values decides all comparisons but those of equality, which is decided by
itself. -/
theorem apply_of_order? (h : a.order? b = some o) :
    lt.apply a b = some (.bool (o == some .lt)) ∧
    le.apply a b = some (.bool (o == some .lt || o == some .eq)) ∧
    gt.apply a b = some (.bool (o == some .gt)) ∧
    ge.apply a b = some (.bool (o == some .gt || o == some .eq)) ∧
    cmpl.apply a b = some (.int (o.elim (-1) signOfOrder)) ∧
    cmpg.apply a b = some (.int (o.elim 1 signOfOrder)) := by
  simp only [BinaryPrimitive.apply, compare₂, h, Option.map_some, and_self]

/-- Numbers with an order are below, level with or above one another. -/
theorem ordered_of_order? {o : Ordering} (h : a.order? b = some (some o))
    (hsymm : b.order? a = some (some o.swap)) (hequal : a.equal b = (o == .eq)) : Ordered a b := by
  obtain ⟨hlt, -, hgt, -, hcmpl, hcmpg⟩ := apply_of_order? h
  obtain ⟨-, -, -, -, hcmpl', hcmpg'⟩ := apply_of_order? hsymm
  have heq : eq.apply a b = some (.bool (o == .eq)) := congrArg (fun t => some (bool t)) hequal
  cases o with
  | lt => exact .below hlt heq hgt ⟨hcmpl, hcmpg, hcmpl', hcmpg'⟩
  | eq => exact .level hlt heq hgt ⟨hcmpl, hcmpg, hcmpl', hcmpg'⟩
  | gt => exact .above hlt heq hgt ⟨hcmpl, hcmpg, hcmpl', hcmpg'⟩

/-- Numbers without an order fail all comparisons but one. -/
theorem unordered_of_order? (h : a.order? b = some none) (hequal : a.equal b = false) :
    Unordered a b := by
  obtain ⟨hlt, hle, hgt, hge, hcmpl, hcmpg⟩ := apply_of_order? h
  have heq : eq.apply a b = some (.bool false) := congrArg (fun t => some (bool t)) hequal
  have hne : ne.apply a b = some (.bool true) := congrArg (fun t => some (bool !t)) hequal
  refine ⟨?_, hne, hcmpl, hcmpg⟩
  simp only [List.forall_mem_cons]
  exact ⟨hlt, hle, hgt, hge, heq, nofun⟩

/-- Comparisons of two numbers agree with one another. -/
theorem coherent (ha : a.isText = false) (hb : b.isText = false) : Coherent a b := by
  obtain ⟨v, w, hvalues⟩ := exists_comparedAs ha hb
  obtain ⟨o, ho, hsymm, hequal⟩ := hvalues.exists_order?
  have hunordered : a.order? b = some none ↔ a.isNaN = true ∨ b.isNaN = true := by
    rw [hvalues.order?_eq, ← Bool.or_eq_true]
    cases a.isNaN || b.isNaN <;> simp
  have heq : eq.apply a b = some (.bool (o == some .eq)) :=
    congrArg (fun t => some (bool t)) hequal
  have hne : ne.apply a b = some (.bool !(o == some .eq)) :=
    congrArg (fun t => some (bool !t)) hequal
  obtain ⟨hlt, hle, hgt, hge, -, -⟩ := apply_of_order? ho
  obtain ⟨-, -, hgt', -⟩ := apply_of_order? hsymm
  refine ⟨?_, ?_, ?_, ?_, ?_, ?_, ?_, ?_, hunordered, v, w, hvalues, hvalues.order?_eq⟩
  · simp only [List.forall_mem_cons]
    exact ⟨holds_or_fails hlt, holds_or_fails hle, holds_or_fails hgt, holds_or_fails hge,
      holds_or_fails heq, holds_or_fails hne, nofun⟩
  · rw [Holds, heq, ho]
    simp
  · simp [Holds, heq, hne]
  · simp [Holds, heq, hle, hlt]
  · simp [Holds, heq, hge, hgt]
  · rcases o with _ | _ | _ | _ <;> simp [Holds, hlt, hgt']
  · intro hordered
    cases o with
    | none => exact absurd ho hordered
    | some o => exact ordered_of_order? ho hsymm hequal
  · intro hnone
    rw [hnone, Option.some_inj] at ho
    subst ho
    exact unordered_of_order? hnone hequal

end Cell

open BinaryPrimitive in
/-- **Comparisons agree with one another.** Two numbers, of whatever types, are compared by exact
values: as doubles if one of them is a double, and as integers otherwise. They are equal if and only
if their order is, and then they are not different; at most and at least are below or equal and
above or equal; and one is below the other if and only if the other is above it. If they have an
order, they are either below, equal or above, and both three-way comparisons yield -1, 0 or 1
accordingly and the opposite the other way round. They have none exactly if one of them is a double
that is not a number; then all comparisons fail but that they are different, and the three-way
comparisons yield -1 and 1. Texts are equal by their characters, and a text never equals a
number. -/
theorem comparisons_cohere :
    (∀ a b : Cell, a.isText = false → b.isText = false → a.Coherent b) ∧
    (∀ s t : String, eq.apply (.str s) (.str t) = some (.bool (decide (s = t))) ∧
      ne.apply (.str s) (.str t) = some (.bool (decide (s ≠ t)))) ∧
    ∀ (s : String) (a : Cell), a.isText = false →
      eq.Fails (.str s) a ∧ eq.Fails a (.str s) ∧ ne.Holds (.str s) a ∧ ne.Holds a (.str s) := by
  refine ⟨fun a b => Cell.coherent, ?_, ?_⟩
  · intro s t
    have hequal : Cell.equal (.str s) (.str t) = (s == t) := rfl
    simp only [BinaryPrimitive.apply, hequal, beq_eq_decide, decide_not, and_self]
  · intro s a ha
    cases a with
    | bool | int | float => exact ⟨rfl, rfl, rfl, rfl⟩
    | str t => cases ha

/-- An integer equals the double that it is rounded to, a truth value lies below it, and a double
that is not a number does not even equal itself. -/
theorem comparisons_cohere_rounded :
    BinaryPrimitive.eq.Holds (.int 9007199254740993) (.float ⟨0x4340000000000000⟩) ∧
    BinaryPrimitive.gt.Holds (.float ⟨0x4340000000000000⟩) (.bool true) ∧
    Cell.Ordered (.bool true) (.int 9007199254740993) ∧
    Cell.Unordered (.float .nan) (.float .nan) ∧
    BinaryPrimitive.eq.Fails (.str "1") (.int 1) := by
  obtain ⟨hnumbers, -, htexts⟩ := comparisons_cohere
  refine ⟨?_, ?_, ?_, ?_, (htexts "1" (.int 1) rfl).1⟩
  · exact (hnumbers _ _ rfl rfl).eq_iff.mpr (by decide +kernel)
  · exact (hnumbers _ _ rfl rfl).lt_iff.mp (show _ = _ by decide +kernel)
  · exact (hnumbers _ _ rfl rfl).ordered (by decide +kernel)
  · exact (hnumbers _ _ rfl rfl).unordered (by decide +kernel)

end Formula
