import Formula.Proofs.Numerals

/-!
# The grammar of integer literals

An integer literal has a sign or none (`HasSign`), then a mark of its radix or none (`HasRadix`),
and then digits with underscores between them (`IsWellSpelled`). What it denotes is told by these
parts and by the exact number that its digits write, however many there are (`integer_eq_iff`).
-/

namespace Formula.Literal

open Text

variable {word body digits : List Char} {negative : Bool} {radix v : Nat}

/-! ## Parts of a literal -/

/-- At most one sign, whether it is negative, and what follows it. -/
inductive HasSign : List Char → Bool → List Char → Prop
  | minus (body : List Char) : HasSign ('-' :: body) true body
  | plus (body : List Char) : HasSign ('+' :: body) false body
  | absent {body : List Char} (hminus : body.head? ≠ some '-') (hplus : body.head? ≠ some '+') :
      HasSign body false body

/-- The letters that mark a radix behind a zero. -/
def radixMarks : List (Char × Nat) :=
  [('x', 16), ('X', 16), ('o', 8), ('O', 8), ('b', 2), ('B', 2)]

/-- The radix of an unsigned literal and its digits: the radix of its mark, eight if it has another
zero in front, and ten if it has none or is just a zero. -/
inductive HasRadix : List Char → Nat → List Char → Prop
  | marked {mark : Char} {radix : Nat} (hmark : (mark, radix) ∈ radixMarks) (digits : List Char) :
      HasRadix ('0' :: mark :: digits) radix digits
  | octal {first : Char} (hfirst : ∀ radix, (first, radix) ∉ radixMarks) (digits : List Char) :
      HasRadix ('0' :: first :: digits) 8 (first :: digits)
  | decimal {body : List Char} (hbody : ¬(1 < body.length ∧ body.head? = some '0')) :
      HasRadix body 10 body

/-- Digits of a radix, at least one, with underscores between them only. -/
structure IsWellSpelled (radix : Nat) (digits : List Char) : Prop where
  nonempty : digits ≠ []
  first : digits.head? ≠ some '_'
  last : digits.getLast? ≠ some '_'
  inside : ∀ c ∈ digits, c = '_' ∨ ∃ d, IsDigit radix c d

/-- The greatest number that a literal may have behind its sign. -/
def greatest (negative : Bool) : Nat :=
  if negative then 2 ^ 63 else 2 ^ 64 - 1

/-! ## Reading the parts -/

/-- Every word has a sign or none. -/
theorem exists_hasSign (word : List Char) : ∃ negative body, HasSign word negative body := by
  by_cases hminus : word.head? = some '-'
  · obtain ⟨body, rfl⟩ := List.head?_eq_some_iff.mp hminus
    exact ⟨true, body, .minus body⟩
  · by_cases hplus : word.head? = some '+'
    · obtain ⟨body, rfl⟩ := List.head?_eq_some_iff.mp hplus
      exact ⟨false, body, .plus body⟩
    · exact ⟨false, word, .absent hminus hplus⟩

/-- The sign is taken off. -/
theorem splitSign_of_hasSign (h : HasSign word negative body) :
    splitSign word = (negative, body) := by
  cases h with
  | minus | plus => rfl
  | absent hminus hplus =>
      unfold splitSign
      split
      · exact absurd rfl hminus
      · exact absurd rfl hplus
      · rfl

/-- Every unsigned literal has a radix. -/
theorem exists_hasRadix (body : List Char) : ∃ radix digits, HasRadix body radix digits := by
  by_cases hbody : 1 < body.length ∧ body.head? = some '0'
  · obtain ⟨hlength, hhead⟩ := hbody
    obtain ⟨rest, rfl⟩ := List.head?_eq_some_iff.mp hhead
    obtain ⟨first, digits, rfl⟩ :=
      List.exists_cons_of_length_pos (Nat.lt_of_succ_lt_succ hlength)
    by_cases hmark : ∃ radix, (first, radix) ∈ radixMarks
    · obtain ⟨radix, hmark⟩ := hmark
      exact ⟨radix, digits, .marked hmark digits⟩
    · exact ⟨8, first :: digits, .octal (not_exists.mp hmark) digits⟩
  · exact ⟨10, body, .decimal hbody⟩

/-- The mark of the radix is taken off. -/
theorem splitRadix_of_hasRadix (h : HasRadix body radix digits) :
    splitRadix body = (radix, digits) := by
  cases h with
  | @marked mark radix hmark digits =>
      have hmarks : ∀ m ∈ radixMarks, ∀ digits,
          splitRadix ('0' :: m.1 :: digits) = (m.2, digits) := by
        simp [radixMarks, splitRadix]
      exact hmarks (mark, radix) hmark digits
  | @octal first hfirst digits =>
      have hmark (mark : Char) (radix : Nat) (hmem : (mark, radix) ∈ radixMarks) : first ≠ mark :=
        fun hsame => hfirst radix (hsame ▸ hmem)
      rw [splitRadix]
      · exact hmark 'x' 16 (by decide)
      · exact hmark 'X' 16 (by decide)
      · exact hmark 'o' 8 (by decide)
      · exact hmark 'O' 8 (by decide)
      · exact hmark 'b' 2 (by decide)
      · exact hmark 'B' 2 (by decide)
  | decimal hbody =>
      unfold splitRadix
      split
      case h_8 => rfl
      all_goals exact absurd ⟨by simp, rfl⟩ hbody

/-- The radix of a literal is a positive word. -/
theorem HasRadix.radix_lt (h : HasRadix body radix digits) :
    0 < radix ∧ radix < UInt64.size := by
  cases h with
  | @marked mark radix hmark =>
      have hmarks : ∀ m ∈ radixMarks, 0 < m.2 ∧ m.2 < UInt64.size := by decide
      exact hmarks (mark, radix) hmark
  | octal | decimal => decide

/-- The digits of a literal are checked for their spelling. -/
theorem wellSpelled_iff : wellSpelled radix digits = true ↔ IsWellSpelled radix digits := by
  have hdigit (c : Char) : (digit? radix c).isSome = true ↔ ∃ d, IsDigit radix c d := by
    simp only [Option.isSome_iff_exists, digit?_eq_some_iff]
  simp only [wellSpelled, Bool.and_eq_true, bne_iff_ne, List.all_eq_true, Bool.or_eq_true,
    beq_iff_eq, hdigit]
  constructor
  · rintro ⟨⟨⟨hnonempty, hfirst⟩, hlast⟩, hinside⟩
    exact ⟨hnonempty, hfirst, hlast, hinside⟩
  · rintro ⟨hnonempty, hfirst, hlast, hinside⟩
    exact ⟨⟨⟨hnonempty, hfirst⟩, hlast⟩, hinside⟩

/-- Well spelled digits write a number when the underscores are left out. -/
theorem IsWellSpelled.exists_isNumeral (h : IsWellSpelled radix digits) :
    ∃ v, IsNumeral radix (digits.filter (· != '_')) v := by
  refine exists_isNumeral_iff.mpr fun c hc => ?_
  obtain ⟨hmem, hne⟩ := List.mem_filter.mp hc
  exact (h.inside c hmem).resolve_left (by simpa using hne)

/-! ## The denoted word -/

/-- A word whose digits are not well spelled is malformed. -/
theorem integer_of_misspelled (hsign : HasSign word negative body)
    (hradix : HasRadix body radix digits) (h : ¬IsWellSpelled radix digits) :
    integer word = .error .malformed := by
  have hspelled : wellSpelled radix digits = false := by
    rw [← Bool.not_eq_true, wellSpelled_iff]
    exact h
  simp [integer, splitSign_of_hasSign hsign, splitRadix_of_hasRadix hradix, hspelled]

/-- Well spelled digits denote the number that they write, or its negative, if it is not too
large. -/
theorem integer_of_wellSpelled (hsign : HasSign word negative body)
    (hradix : HasRadix body radix digits) (h : IsWellSpelled radix digits)
    (hv : IsNumeral radix (digits.filter (· != '_')) v) :
    integer word =
      if greatest negative < v then .error .outOfRange
      else .ok (UInt64.ofNat (if negative then 2 ^ 64 - v else v)) := by
  obtain ⟨hpos, hsize⟩ := hradix.radix_lt
  have hmagnitude (w : UInt64) : magnitude? radix digits = some w ↔ v = w.toNat := by
    rw [magnitude?_eq_some_iff hpos hsize, number?_eq_some_iff.mpr hv, Option.some.injEq]
  unfold integer
  rw [splitSign_of_hasSign hsign]
  dsimp only
  rw [splitRadix_of_hasRadix hradix]
  dsimp only
  rw [wellSpelled_iff.mpr h, Bool.not_true, if_neg Bool.false_ne_true]
  by_cases hlt : v < UInt64.size
  · have htoNat : (UInt64.ofNat v).toNat = v := UInt64.toNat_ofNat_of_lt' hlt
    rw [(hmagnitude (UInt64.ofNat v)).mpr htoNat.symm]
    cases negative with
    | false =>
        have hfits : ¬greatest false < v := Nat.not_lt.mpr (Nat.le_of_lt_succ hlt)
        rw [if_neg hfits]
        rfl
    | true =>
        have hlarge : UInt64.ofNat v > 0x8000000000000000 ↔ greatest true < v := by
          rw [gt_iff_lt, UInt64.lt_iff_toNat_lt, htoNat]
          rfl
        have hnegative : 0 - UInt64.ofNat v = UInt64.ofNat (2 ^ 64 - v) := by
          apply UInt64.toNat.inj
          rw [UInt64.toNat_sub, htoNat, UInt64.toNat_ofNat']
          rfl
        simp only [hlarge, hnegative]
        rfl
  · have hnone : magnitude? radix digits = none := by
      refine Option.eq_none_iff_forall_ne_some.mpr fun w hw => hlt ?_
      rw [(hmagnitude w).mp hw]
      exact w.toNat_lt
    have hlarge : greatest negative < v := by
      simp only [greatest, UInt64.size] at hlt ⊢
      split <;> omega
    rw [hnone, if_pos hlarge]

/-- A number that is not too large is the number of its word, and the word of its negative has the
number that complements it. -/
theorem toNat_ofNat_signed (h : v ≤ greatest negative) :
    (UInt64.ofNat (if negative then 2 ^ 64 - v else v)).toNat =
      if negative then (2 ^ 64 - v) % 2 ^ 64 else v := by
  rw [UInt64.toNat_ofNat']
  cases negative with
  | true => rfl
  | false =>
      have hlt : v < 2 ^ 64 := Nat.lt_of_le_of_lt h (by decide)
      exact Nat.mod_eq_of_lt hlt

/-- **What an integer literal denotes.** At most one sign and the mark of a radix are taken off a
text. If what is left is empty, starts or ends with an underscore, or has a character that is
neither an underscore nor a digit of the radix, the text is malformed. Otherwise it is out of range
if and only if the exact number that the digits write is too large for its sign, and else it denotes
this number, or its negative modulo the number of words. -/
theorem integer_eq_iff (text : String) (result : Except IntegerError UInt64) :
    integer text.toList = result ↔
      ∃ negative body radix digits,
        HasSign text.toList negative body ∧ HasRadix body radix digits ∧
        (¬IsWellSpelled radix digits ∧ result = .error .malformed ∨
          IsWellSpelled radix digits ∧ ∃ v, IsNumeral radix (digits.filter (· != '_')) v ∧
            (greatest negative < v ∧ result = .error .outOfRange ∨
              v ≤ greatest negative ∧ ∃ word, result = .ok word ∧
                word.toNat = if negative then (2 ^ 64 - v) % 2 ^ 64 else v)) := by
  constructor
  · rintro rfl
    obtain ⟨negative, body, hsign⟩ := exists_hasSign text.toList
    obtain ⟨radix, digits, hradix⟩ := exists_hasRadix body
    refine ⟨negative, body, radix, digits, hsign, hradix, ?_⟩
    by_cases hspelled : IsWellSpelled radix digits
    · obtain ⟨v, hv⟩ := hspelled.exists_isNumeral
      refine .inr ⟨hspelled, v, hv, ?_⟩
      rw [integer_of_wellSpelled hsign hradix hspelled hv]
      by_cases hlarge : greatest negative < v
      · exact .inl ⟨hlarge, if_pos hlarge⟩
      · exact .inr ⟨Nat.le_of_not_lt hlarge, _, if_neg hlarge,
          (toNat_ofNat_signed (Nat.le_of_not_lt hlarge))⟩
    · exact .inl ⟨hspelled, integer_of_misspelled hsign hradix hspelled⟩
  · rintro ⟨negative, body, radix, digits, hsign, hradix, h⟩
    rcases h with ⟨hspelled, rfl⟩ | ⟨hspelled, v, hv, h⟩
    · exact integer_of_misspelled hsign hradix hspelled
    · rw [integer_of_wellSpelled hsign hradix hspelled hv]
      rcases h with ⟨hlarge, rfl⟩ | ⟨hfits, word, rfl, hword⟩
      · exact if_pos hlarge
      · rw [if_neg (Nat.not_lt.mpr hfits), Except.ok.injEq, ← UInt64.toNat_inj,
          toNat_ofNat_signed hfits, hword]

end Formula.Literal
