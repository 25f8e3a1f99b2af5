import Formula.Literal.Decimal
import Formula.Proofs.Comparison
import Formula.Proofs.IntegerLiterals
import Mathlib.Data.List.TakeWhile

/-!
# The grammar of decimal literals

A decimal literal is an optional sign, a mantissa and an optional exponent (`IsDecimalLiteral`).
Doubles can be written in other ways too, and words may start like a literal without being one. The
two tests that a word has to pass, how it starts and whether it writes a double, let through exactly
the literals (`decimal_grammar`): a name does not start with a digit or a point, and a word with
more than one sign writes nothing.
-/

namespace Formula

namespace Binary64

variable {n : Nat}

/-- A decimal number is rounded to a number or to an infinity. -/
theorem decimalMagnitude_le (mantissa : Nat) (exponent : Int) :
    decimalMagnitude mantissa exponent ≤ infinityMagnitude := by
  unfold decimalMagnitude
  split <;> exact nearestMagnitude_le _ _

/-- A number without a sign is not negative. -/
theorem isNegative_ofParts_false (h : n < signWeight) : (ofParts false n).isNegative = false := by
  unfold isNegative ofParts
  rw [decide_eq_false_iff_not, UInt64.toNat_ofNat']
  unfold signWeight at *
  simp only [Bool.false_eq_true, if_false]
  omega

/-- A power of two that is added above all bits of a number flips one bit. -/
theorem two_pow_add_eq_xor {i : Nat} (h : n < 2 ^ i) : 2 ^ i + n = n ^^^ 2 ^ i := by
  apply Nat.eq_of_testBit_eq
  intro j
  rw [Nat.testBit_xor, Nat.testBit_two_pow]
  rcases Nat.lt_trichotomy j i with hj | rfl | hj
  · rw [Nat.testBit_two_pow_add_gt hj, decide_eq_false (by omega), Bool.xor_false]
  · rw [Nat.testBit_two_pow_add_eq, decide_eq_true rfl, Bool.xor_true]
  · have hlt : 2 ^ i + n < 2 ^ j := by
      have hle : 2 ^ (i + 1) ≤ 2 ^ j := Nat.pow_le_pow_right (by decide) hj
      rw [Nat.pow_succ] at hle
      omega
    rw [Nat.testBit_lt_two_pow hlt, Nat.testBit_lt_two_pow (by omega),
      decide_eq_false (by omega), Bool.xor_false]

/-- The sign is the highest bit, and no other bit depends on it. -/
theorem ofParts_true_eq_xor (h : n < signWeight) :
    ofParts true n = ⟨(ofParts false n).bits ^^^ 0x8000000000000000⟩ := by
  have hsize : signWeight + n < UInt64.size := by
    unfold signWeight UInt64.size at *
    omega
  have hlt : n < UInt64.size := by omega
  have hbits : UInt64.ofNat (signWeight + n) = UInt64.ofNat n ^^^ 0x8000000000000000 := by
    apply UInt64.toNat.inj
    rw [UInt64.toNat_xor, UInt64.toNat_ofNat_of_lt' hsize, UInt64.toNat_ofNat_of_lt' hlt]
    exact two_pow_add_eq_xor (i := 63) h
  simp only [ofParts, if_true, Bool.false_eq_true, if_false, Nat.zero_add, hbits]

end Binary64

namespace Literal

open Text

variable {word body cs : List Char} {negative : Bool} {c : Char}

/-! ## The grammar -/

/-- A run of decimal digits, which may be empty. -/
def AreDigits (cs : List Char) : Prop :=
  ∀ c ∈ cs, ∃ d, IsDigit 10 c d

/-- Digits, perhaps with a point and more digits behind them, or digits behind a point. -/
inductive IsMantissa : List Char → Prop
  | whole {digits : List Char} (hne : digits ≠ []) (h : AreDigits digits) : IsMantissa digits
  | point {digits fraction : List Char} (hne : digits ≠ []) (h : AreDigits digits)
      (hfraction : AreDigits fraction) : IsMantissa (digits ++ '.' :: fraction)
  | fraction {fraction : List Char} (hne : fraction ≠ []) (hfraction : AreDigits fraction) :
      IsMantissa ('.' :: fraction)

/-- Nothing, or the mark of an exponent, an optional sign and digits. -/
inductive IsExponent : List Char → Prop
  | absent : IsExponent []
  | marked {mark : Char} {rest digits : List Char} {negative : Bool}
      (hmark : mark = 'e' ∨ mark = 'E') (hsign : HasSign rest negative digits)
      (hne : digits ≠ []) (h : AreDigits digits) : IsExponent (mark :: rest)

/-- A mantissa and an exponent. -/
def IsUnsignedDecimal (cs : List Char) : Prop :=
  ∃ mantissa exponent, cs = mantissa ++ exponent ∧ IsMantissa mantissa ∧ IsExponent exponent

/-- At most one sign in front of an unsigned decimal. -/
def IsDecimalLiteral (word : List Char) : Prop :=
  ∃ negative body, HasSign word negative body ∧ IsUnsignedDecimal body

/-! ## Reading the parts -/

/-- What holds of the characters from zero to nine holds of every decimal digit. -/
theorem forall_decimal {p : Char → Bool} {d : Nat}
    (hp : ∀ d < 10, lowerDigits[d]?.all p = true ∧ upperDigits[d]?.all p = true)
    (h : IsDigit 10 c d) : p c = true := by
  obtain ⟨hd, h | h⟩ := h
  · simpa [h] using (hp d hd).1
  · simpa [h] using (hp d hd).2

/-- The digits of the grammar are those that are read. -/
theorem isDecimal_iff : isDecimal c = true ↔ ∃ d, IsDigit 10 c d := by
  constructor
  · intro h
    have hbounds : 48 ≤ c.toNat ∧ c.toNat ≤ 57 := by
      simpa [isDecimal, Char.le_def, UInt32.le_iff_toNat_le] using h
    have hvalue : digit? 10 c = some (c.toNat - 48) := by
      rw [digit?, digitValue?, if_pos (by exact h), Option.filter_some, if_pos]
      exact decide_eq_true (by omega)
    exact ⟨_, digit?_eq_some_iff.mp hvalue⟩
  · rintro ⟨d, h⟩
    exact forall_decimal (by decide) h

/-- The runs of digits of the grammar are those that are read. -/
theorem areDigits_iff : AreDigits cs ↔ ∀ c ∈ cs, isDecimal c = true :=
  forall₂_congr fun _ _ => isDecimal_iff.symm

/-- A run of digits ends at the first character that is no digit. -/
theorem span_digits {digits rest : List Char} (h : AreDigits digits)
    (hrest : ∀ c ∈ rest.head?, isDecimal c = false) :
    (digits ++ rest).takeWhile isDecimal = digits ∧
      (digits ++ rest).dropWhile isDecimal = rest := by
  have hdigits := areDigits_iff.mp h
  rw [List.takeWhile_append_of_pos hdigits, List.dropWhile_append_of_pos hdigits]
  cases rest with
  | nil => simp
  | cons c cs => simp [hrest c rfl]

/-- An exponent starts with neither a digit nor a point. -/
theorem IsExponent.head (h : IsExponent cs) : ∀ c ∈ cs.head?, isDecimal c = false ∧ c ≠ '.' := by
  cases h with
  | absent => simp
  | marked hmark => rcases hmark with rfl | rfl <;> simp <;> decide

/-- The exponents of the grammar are those that are read. -/
theorem exponent?_isSome_iff : (exponent? cs).isSome = true ↔ IsExponent cs := by
  have hread {mark : Char} {rest digits : List Char} {negative : Bool}
      (hsign : HasSign rest negative digits) : (exponent? (mark :: rest)).isSome = true ↔
        (mark = 'e' ∨ mark = 'E') ∧ digits ≠ [] ∧ AreDigits digits := by
    simp only [exponent?, splitSign_of_hasSign hsign, areDigits_iff]
    split <;> simp_all
  constructor
  · intro h
    cases cs with
    | nil => exact .absent
    | cons mark rest =>
        obtain ⟨negative, digits, hsign⟩ := exists_hasSign rest
        obtain ⟨hmark, hne, hdigits⟩ := (hread hsign).mp h
        exact .marked hmark hsign hne hdigits
  · rintro (_ | ⟨hmark, hsign, hne, hdigits⟩)
    · rfl
    · exact (hread hsign).mpr ⟨hmark, hne, hdigits⟩

/-- Without a point there is no fraction. -/
theorem splitFraction_of_head (h : cs.head? ≠ some '.') : splitFraction cs = ([], cs) := by
  unfold splitFraction
  split
  · exact absurd rfl h
  · rfl

/-- A word in digits is read if there is a digit before or behind the point, and what follows them
is an exponent. -/
theorem unsignedDecimal?_isSome_of_split {whole fraction rest : List Char}
    (hwhole : cs.takeWhile isDecimal = whole)
    (hsplit : splitFraction (cs.dropWhile isDecimal) = (fraction, rest)) :
    (unsignedDecimal? cs).isSome = true ↔ (whole ≠ [] ∨ fraction ≠ []) ∧ IsExponent rest := by
  rw [← exponent?_isSome_iff, unsignedDecimal?, hwhole, hsplit]
  by_cases hnone : whole = [] ∧ fraction = []
  · simp [hnone]
  · have hsome : whole ≠ [] ∨ fraction ≠ [] := not_and_or.mp hnone
    simp [hnone, hsome]

/-- Digits around a point and an exponent are read, if there is a digit at all. -/
theorem unsignedDecimal?_isSome_of_point {whole fraction exponent : List Char}
    (hwhole : AreDigits whole) (hfraction : AreDigits fraction)
    (hne : whole ≠ [] ∨ fraction ≠ []) (hexponent : IsExponent exponent) :
    (unsignedDecimal? (whole ++ '.' :: fraction ++ exponent)).isSome = true := by
  rw [List.append_assoc, List.cons_append]
  have hpoint : ∀ c ∈ ('.' :: (fraction ++ exponent)).head?, isDecimal c = false := by
    simp [isDecimal]
  obtain ⟨htake, hdrop⟩ := span_digits hwhole hpoint
  obtain ⟨htake', hdrop'⟩ := span_digits hfraction fun c hc => (hexponent.head c hc).1
  refine (unsignedDecimal?_isSome_of_split htake ?_).mpr ⟨hne, hexponent⟩
  rw [hdrop, splitFraction, htake', hdrop']

/-- The unsigned decimals of the grammar are those that are read. -/
theorem unsignedDecimal?_isSome_iff :
    (unsignedDecimal? cs).isSome = true ↔ IsUnsignedDecimal cs := by
  constructor
  · intro h
    have hcs : cs.takeWhile isDecimal ++ cs.dropWhile isDecimal = cs :=
      List.takeWhile_append_dropWhile
    have hdigits (ds : List Char) : AreDigits (ds.takeWhile isDecimal) :=
      areDigits_iff.mpr fun c hc => List.mem_takeWhile_imp hc
    by_cases hpoint : (cs.dropWhile isDecimal).head? = some '.'
    · obtain ⟨behind, hbehind⟩ := List.head?_eq_some_iff.mp hpoint
      obtain ⟨hne, hexponent⟩ :=
        (unsignedDecimal?_isSome_of_split rfl (by rw [hbehind, splitFraction])).mp h
      refine ⟨cs.takeWhile isDecimal ++ '.' :: behind.takeWhile isDecimal,
        behind.dropWhile isDecimal, ?_, ?_, hexponent⟩
      · rw [List.append_assoc, List.cons_append, List.takeWhile_append_dropWhile, ← hbehind, hcs]
      · by_cases hwhole : cs.takeWhile isDecimal = []
        · rw [hwhole]
          exact .fraction (hne.resolve_left (not_not.mpr hwhole)) (hdigits behind)
        · exact .point hwhole (hdigits cs) (hdigits behind)
    · obtain ⟨hne, hexponent⟩ :=
        (unsignedDecimal?_isSome_of_split rfl (splitFraction_of_head hpoint)).mp h
      exact ⟨_, _, hcs.symm, .whole (hne.resolve_right (not_not.mpr rfl)) (hdigits cs), hexponent⟩
  · rintro ⟨mantissa, exponent, rfl, hmantissa, hexponent⟩
    cases hmantissa with
    | whole hne hdigits =>
        obtain ⟨htake, hdrop⟩ := span_digits hdigits fun c hc => (hexponent.head c hc).1
        have hsplit : splitFraction exponent = ([], exponent) :=
          splitFraction_of_head fun hhead => (hexponent.head _ hhead).2 rfl
        rw [← hdrop] at hsplit
        exact (unsignedDecimal?_isSome_of_split htake hsplit).mpr ⟨.inl hne, hdrop.symm ▸ hexponent⟩
    | point hne hdigits hfraction =>
        exact unsignedDecimal?_isSome_of_point hdigits hfraction (.inl hne) hexponent
    | fraction hne hfraction =>
        have hnil : AreDigits [] := by simp [AreDigits]
        exact unsignedDecimal?_isSome_of_point hnil hfraction (.inr hne) hexponent

/-! ## Two tests -/

/-- The first character decides how a word starts, unless it is a sign. -/
theorem startsDecimal_cons (hplus : c ≠ '+') (hminus : c ≠ '-') (cs : List Char) :
    startsDecimal (c :: cs) = (isDecimal c || c == '.') := by
  simp [startsDecimal, hplus, hminus]

/-- A run of digits starts like a decimal. -/
theorem startsDecimal_digits_append {digits : List Char} (hne : digits ≠ [])
    (h : AreDigits digits) (rest : List Char) : startsDecimal (digits ++ rest) = true := by
  obtain ⟨c, ds, rfl⟩ := List.exists_cons_of_ne_nil hne
  have hc : isDecimal c = true := areDigits_iff.mp h c List.mem_cons_self
  have hplus : c ≠ '+' := by
    rintro rfl
    cases hc
  have hminus : c ≠ '-' := by
    rintro rfl
    cases hc
  rw [List.cons_append, startsDecimal_cons hplus hminus, hc, Bool.true_or]

/-- An unsigned decimal starts like one. -/
theorem startsDecimal_of_isUnsignedDecimal (h : IsUnsignedDecimal cs) :
    startsDecimal cs = true := by
  obtain ⟨mantissa, exponent, rfl, hmantissa, -⟩ := h
  cases hmantissa with
  | whole hne h => exact startsDecimal_digits_append hne h exponent
  | point hne h =>
      rw [List.append_assoc]
      exact startsDecimal_digits_append hne h _
  | fraction => exact startsDecimal_cons (by decide) (by decide) _

/-- Digits have no case. -/
theorem toLower_of_isDecimal (h : isDecimal c = true) : c.toLower = c := by
  obtain ⟨d, hd⟩ := isDecimal_iff.mp h
  have hsame : (c.toLower == c) = true :=
    forall_decimal (p := fun c => c.toLower == c) (by decide) hd
  exact eq_of_beq hsame

/-- A name starts with a letter, and not like a decimal. -/
theorem startsDecimal_of_namedMagnitude? {n : Nat} (h : namedMagnitude? cs = some n) :
    startsDecimal cs = false := by
  have hhead : (cs.map Char.toLower).head? = some 'i' ∨ (cs.map Char.toLower).head? = some 'n' := by
    unfold namedMagnitude? at h
    dsimp only at h
    split at h
    · rename_i hinfinity
      rw [Bool.or_eq_true, decide_eq_true_eq, decide_eq_true_eq] at hinfinity
      rcases hinfinity with hname | hname <;> simp [hname]
    · split at h
      · rename_i hname
        simp [hname]
      · cases h
  obtain ⟨c, hc, hletter⟩ : ∃ c, cs.head? = some c ∧ (c.toLower = 'i' ∨ c.toLower = 'n') := by
    rw [List.head?_map, Option.map_eq_some_iff, Option.map_eq_some_iff] at hhead
    rcases hhead with ⟨c, hc, hi⟩ | ⟨c, hc, hn⟩
    · exact ⟨c, hc, .inl hi⟩
    · exact ⟨c, hc, .inr hn⟩
  obtain ⟨rest, rfl⟩ := List.head?_eq_some_iff.mp hc
  have hdigit : isDecimal c = false := by
    rw [← Bool.not_eq_true]
    intro hdecimal
    rw [toLower_of_isDecimal hdecimal] at hletter
    rcases hletter with rfl | rfl <;> cases hdecimal
  have hother (mark : Char) (hmark : mark.toLower ≠ 'i' ∧ mark.toLower ≠ 'n') : c ≠ mark := by
    rintro rfl
    exact hletter.elim hmark.1 hmark.2
  rw [startsDecimal_cons (hother '+' (by decide)) (hother '-' (by decide)), hdigit, Bool.false_or,
    beq_eq_false_iff_ne]
  exact hother '.' (by decide)

/-- A sign in front does not matter to how a word starts. -/
theorem startsDecimal_of_hasSign (h : HasSign word negative body) :
    startsDecimal word = startsDecimal body := by
  cases h <;> rfl

/-- The two tests together leave the decimals: a word is read as the decimal behind its sign, and as
nothing else. -/
theorem decimal?_of_hasSign (h : HasSign word negative body) :
    decimal? word = (unsignedDecimal? body).map fun number =>
      .ofParts negative (Binary64.decimalMagnitude number.1 number.2) := by
  simp only [decimal?, double?, startsDecimal_of_hasSign h, splitSign_of_hasSign h,
    doubleMagnitude?]
  cases hread : unsignedDecimal? body with
  | some number =>
      have hdecimal : IsUnsignedDecimal body := unsignedDecimal?_isSome_iff.mp (by simp [hread])
      rw [if_pos (startsDecimal_of_isUnsignedDecimal hdecimal)]
      rfl
  | none =>
      -- What is left would have to be a name, and names do not start like decimals.
      cases hname : namedMagnitude? body with
      | none => simp
      | some n => simp [startsDecimal_of_namedMagnitude? hname]

/-- **The grammar of decimal literals.** A text is read if and only if it is a decimal literal. What
it is read as is a number or an infinity, and a minus sign in front of a text without a sign flips
the sign bit and no other. -/
theorem decimal_grammar (text : String) :
    ((decimal? text.toList).isSome = true ↔ IsDecimalLiteral text.toList) ∧
    (∀ x, decimal? text.toList = some x → x.isNaN = false) ∧
    (∀ x, decimal? text.toList = some x →
      text.toList.head? ≠ some '-' → text.toList.head? ≠ some '+' →
        x.isNegative = false ∧
          decimal? ("-" ++ text).toList = some ⟨x.bits ^^^ 0x8000000000000000⟩) := by
  refine ⟨⟨?_, ?_⟩, ?_, ?_⟩
  · intro h
    obtain ⟨negative, body, hsign⟩ := exists_hasSign text.toList
    rw [decimal?_of_hasSign hsign, Option.isSome_map, unsignedDecimal?_isSome_iff] at h
    exact ⟨negative, body, hsign, h⟩
  · rintro ⟨negative, body, hsign, hbody⟩
    rw [decimal?_of_hasSign hsign, Option.isSome_map, unsignedDecimal?_isSome_iff]
    exact hbody
  · intro x hx
    obtain ⟨negative, body, hsign⟩ := exists_hasSign text.toList
    rw [decimal?_of_hasSign hsign, Option.map_eq_some_iff] at hx
    obtain ⟨⟨mantissa, exponent⟩, -, rfl⟩ := hx
    exact Binary64.isNaN_ofParts _ (Binary64.decimalMagnitude_le mantissa exponent)
  · intro x hx hminus hplus
    rw [decimal?_of_hasSign (.absent hminus hplus), Option.map_eq_some_iff] at hx
    obtain ⟨⟨mantissa, exponent⟩, hread, rfl⟩ := hx
    have hlt := Binary64.lt_signWeight (Binary64.decimalMagnitude_le mantissa exponent)
    have hnegative : ("-" ++ text).toList = '-' :: text.toList := by simp
    refine ⟨Binary64.isNegative_ofParts_false hlt, ?_⟩
    rw [hnegative, decimal?_of_hasSign (.minus _), hread, Option.map_some,
      Binary64.ofParts_true_eq_xor hlt]

/-- A fraction with an exponent, without a sign and with one. -/
theorem decimal_grammar_fraction :
    decimal? ".5e1".toList = some ⟨0x4014000000000000⟩ ∧ IsDecimalLiteral ".5e1".toList ∧
      (⟨0x4014000000000000⟩ : Binary64).isNaN = false ∧
      (⟨0x4014000000000000⟩ : Binary64).isNegative = false ∧
      decimal? ("-" ++ ".5e1").toList = some ⟨0x4014000000000000 ^^^ 0x8000000000000000⟩ := by
  have hread : decimal? ".5e1".toList = some ⟨0x4014000000000000⟩ := by decide +kernel
  obtain ⟨hgrammar, hnan, hminus⟩ := decimal_grammar ".5e1"
  exact ⟨hread, hgrammar.mp (by rw [hread]; rfl), hnan _ hread,
    hminus _ hread (by decide) (by decide)⟩

end Literal

end Formula
