import Formula.Proofs.Numerals
import Formula.Proofs.Reading
import Formula.Text.Quoted

/-!
# Reading quoted texts

A quoted text is written so that people can read it, and the escapes of string literals are not
quite those that it uses. Between its quotes it is always the body of one literal
(`literalBody?_quote`). The literal denotes the text again if no character of it is written by
its code (`decodeFrom_quote`); otherwise it is malformed or denotes a shorter text
(`length_of_decodeFrom_quote`).
-/

namespace Formula

namespace Text

/-! ## Quoted characters -/

/-- Characters that a quoted text writes by their code: as a zero behind a backslash, or by their
code point in braces. -/
def IsCoded (c : Char) : Prop :=
  quoteChar c = ['\\', '0'] ∨ ∃ digits, quoteChar c = ['\\', 'u', '\x7b'] ++ digits ++ ['\x7d']

/-- The characters without a short escape that are null or not plain. -/
theorem isCoded_iff (c : Char) :
    IsCoded c ↔ c ∉ ['"', '\\', '\n', '\r', '\t'] ∧ (c.toNat = 0 ∨ isPlain c = false) := by
  unfold IsCoded quoteChar
  split_ifs with hquote hslash hnewline hreturn htab hzero hplain <;> simp_all

/-- The ways to write a character of a quoted text. -/
inductive Writes (c : Char) : List Char → Prop
  /-- The character itself. -/
  | plain (hquote : c ≠ '"') (hslash : c ≠ '\\') : Writes c [c]
  /-- An escape of one letter, as string literals have it. -/
  | letter {l : Char} (hl : Escape.simple? l = some c) : Writes c ['\\', l]
  /-- A zero, where string literals have three octal digits. -/
  | zero : Writes c ['\\', '0']
  /-- The code point in braces, where string literals have none. -/
  | code : Writes c (['\\', 'u', '\x7b'] ++ hexDigits c.toNat ++ ['\x7d'])

/-- Every character is written in one of these ways. -/
theorem writes_quoteChar (c : Char) : Writes c (quoteChar c) := by
  unfold quoteChar
  split_ifs with hquote hslash hnewline hreturn htab hzero hplain
  · exact .letter (by rw [hquote]; rfl)
  · exact .letter (by rw [hslash]; rfl)
  · exact .letter (by rw [hnewline]; rfl)
  · exact .letter (by rw [hreturn]; rfl)
  · exact .letter (by rw [htab]; rfl)
  · exact .zero
  · exact .plain hquote hslash
  · exact .code

/-- Digits are neither quotes nor backslashes. -/
theorem ne_of_mem_hexDigits {n : Nat} {c : Char} (h : c ∈ hexDigits n) : c ≠ '"' ∧ c ≠ '\\' := by
  obtain ⟨d, hd, rfl⟩ := exists_digitChar_of_mem_toDigits (by decide) h
  have hdigit : ∀ d < 16, Nat.digitChar d ≠ '"' ∧ Nat.digitChar d ≠ '\\' := by decide
  exact hdigit d hd

/-- If a quoted text does not start with a backslash, it starts like the text. -/
theorem exists_of_flatMap_quoteChar {s : List Char} {c : Char} {cs : List Char} (hc : c ≠ '\\')
    (h : s.flatMap quoteChar = c :: cs) : ∃ s', s = c :: s' ∧ s'.flatMap quoteChar = cs := by
  cases s with
  | nil => cases h
  | cons d s =>
      rw [List.flatMap_cons] at h
      have hd := writes_quoteChar d
      generalize quoteChar d = written at h hd
      cases hd with
      | plain =>
          obtain ⟨rfl, rfl⟩ := List.cons.inj h
          exact ⟨s, rfl, rfl⟩
      | letter | zero | code => exact absurd (List.cons.inj h).1.symm hc

end Text

open Text

/-! ## The body of a literal -/

/-- Characters other than quotes and backslashes belong to the body of a literal. -/
theorem literalBodyFrom?_plain {cs : List Char} (hcs : ∀ c ∈ cs, c ≠ '"' ∧ c ≠ '\\')
    (acc rest : List Char) :
    literalBodyFrom? acc (cs ++ rest) = literalBodyFrom? (cs.reverse ++ acc) rest := by
  induction cs generalizing acc with
  | nil => rfl
  | cons c cs ih =>
      obtain ⟨⟨hquote, hslash⟩, hcs⟩ := List.forall_mem_cons.mp hcs
      rw [List.cons_append, literalBodyFrom?, ih hcs]
      · simp
      · exact hquote
      · exact fun _ _ hc => absurd hc hslash

/-- A quoted character belongs to the body of a literal. -/
theorem literalBodyFrom?_quoteChar (c : Char) (acc rest : List Char) :
    literalBodyFrom? acc (quoteChar c ++ rest) =
      literalBodyFrom? ((quoteChar c).reverse ++ acc) rest := by
  have hc := writes_quoteChar c
  generalize quoteChar c = written at hc
  cases hc with
  | plain hquote hslash => exact literalBodyFrom?_plain (by simp [hquote, hslash]) acc rest
  | letter | zero => rfl
  | code =>
      have hcode : ∀ d ∈ '\x7b' :: (hexDigits c.toNat ++ ['\x7d']), d ≠ '"' ∧ d ≠ '\\' := by
        intro d hd
        simp only [List.mem_cons, List.mem_append, List.not_mem_nil, or_false] at hd
        rcases hd with rfl | hd | rfl
        · decide
        · exact ne_of_mem_hexDigits hd
        · decide
      have hplain := literalBodyFrom?_plain hcode ('u' :: '\\' :: acc) rest
      simpa [literalBodyFrom?] using hplain

/-- A quoted text is one literal, whatever follows it. -/
@[simp]
theorem literalBody?_quote (s rest : List Char) :
    literalBody? (s.flatMap quoteChar ++ '"' :: rest) = some (s.flatMap quoteChar, rest) := by
  have hfrom : ∀ acc, literalBodyFrom? acc (s.flatMap quoteChar ++ '"' :: rest) =
      some (acc.reverse ++ s.flatMap quoteChar, rest) := by
    induction s with
    | nil => simp [literalBodyFrom?]
    | cons c s ih =>
        intro acc
        rw [List.flatMap_cons, List.append_assoc, literalBodyFrom?_quoteChar, ih]
        simp
  exact hfrom []

/-! ## The text of a literal -/

namespace Escape

variable {offset : Nat} {found s cs text : List Char} {c l : Char}

/-- A character other than a backslash denotes itself. -/
theorem decodeFrom_plain (hc : c ≠ '\\') (offset : Nat) (found cs : List Char) :
    decodeFrom offset found (c :: cs) = decodeFrom (offset + c.utf8Size) (c :: found) cs := by
  rw [decodeFrom]
  exact hc

/-- An escape of one letter denotes the character of the letter. -/
theorem decodeFrom_letter (hl : simple? l = some c) (offset : Nat) (found cs : List Char) :
    decodeFrom offset found ('\\' :: l :: cs) = decodeFrom (offset + 1 + 1) (c :: found) cs := by
  have hread : read? (l :: cs) = some (c, 1) := by simp [read?, hl]
  rw [decodeFrom, hread]
  rfl

/-- Three octal digits that start with a zero are two digits behind it. -/
theorem exists_of_leadingNumber? {n : Nat} (h : leadingNumber? 8 3 ('0' :: cs) = some n) :
    ∃ a b cs', cs = a :: b :: cs' ∧ a ≠ '\\' ∧ b ≠ '\\' := by
  match cs with
  | [] | [_] => cases h
  | a :: b :: cs =>
      have hslash : digit? 8 '\\' = none := by decide
      have hzero : digit? 8 '0' = some 0 := by decide
      have hnumber : number? 8 ['0', a, b] = some n := h
      simp only [number?, List.foldlM_cons, List.foldlM_nil, hzero] at hnumber
      refine ⟨a, b, cs, rfl, ?_, ?_⟩
      · rintro rfl
        simp [hslash] at hnumber
      · rintro rfl
        simp [hslash] at hnumber

/-- A zero is the first of three octal digits, or the escape is malformed. -/
theorem exists_of_decodeFrom_zero (h : decodeFrom offset found ('\\' :: '0' :: cs) = .ok text) :
    ∃ a b cs' c, cs = a :: b :: cs' ∧ a ≠ '\\' ∧ b ≠ '\\' ∧
      decodeFrom (offset + 1 + 3) (c :: found) cs' = .ok text := by
  have hread : read? ('0' :: cs) =
      ((leadingNumber? 8 3 ('0' :: cs)).bind ascii?).map (·, 3) := rfl
  rw [decodeFrom, hread] at h
  cases hnumber : leadingNumber? 8 3 ('0' :: cs) with
  | none => simp [hnumber] at h
  | some n =>
      obtain ⟨a, b, cs', rfl, ha, hb⟩ := exists_of_leadingNumber? hnumber
      cases hascii : ascii? n with
      | none => simp [hnumber, hascii] at h
      | some c =>
          simp only [hnumber, Option.bind_some, hascii, Option.map_some] at h
          exact ⟨a, b, cs', c, rfl, ha, hb, h⟩

/-- A brace is no digit. -/
theorem decodeFrom_code (offset : Nat) (found cs : List Char) :
    decodeFrom offset found ('\\' :: 'u' :: '\x7b' :: cs) =
      .error (.malformedEscape offset 'u') := by
  have hbrace : digit? 16 '\x7b' = none := by decide
  have hnumber : leadingNumber? 16 4 ('\x7b' :: cs) = none := by
    unfold leadingNumber?
    dsimp only
    split
    · simp [number?, hbrace]
    · rfl
  have hread : read? ('u' :: '\x7b' :: cs) =
      ((leadingNumber? 16 4 ('\x7b' :: cs)).bind scalar?).map (·, 5) := rfl
  rw [decodeFrom, hread, hnumber]
  rfl

/-- A character that is not coded is read as itself. -/
theorem decodeFrom_quoteChar (hc : ¬IsCoded c) (found cs : List Char) (offset : Nat) :
    ∃ offset', decodeFrom offset found (quoteChar c ++ cs) =
      decodeFrom offset' (c :: found) cs := by
  have hwrites := writes_quoteChar c
  unfold IsCoded at hc
  generalize quoteChar c = written at hc hwrites
  cases hwrites with
  | plain _ hslash => exact ⟨_, decodeFrom_plain hslash offset found cs⟩
  | letter hl => exact ⟨_, decodeFrom_letter hl offset found cs⟩
  | zero => exact absurd (.inl rfl) hc
  | code => exact absurd (.inr ⟨_, rfl⟩) hc

/-- A quoted text without coded characters denotes itself. -/
theorem decodeFrom_quote (hs : ∀ c ∈ s, ¬IsCoded c) (offset : Nat) (found : List Char) :
    decodeFrom offset found (s.flatMap quoteChar) = .ok (found.reverse ++ s) := by
  induction s generalizing offset found with
  | nil => simp [decodeFrom]
  | cons c s ih =>
      obtain ⟨hc, hs⟩ := List.forall_mem_cons.mp hs
      obtain ⟨offset', hread⟩ := decodeFrom_quoteChar hc found (s.flatMap quoteChar) offset
      rw [List.flatMap_cons, hread, ih hs]
      simp

/-- What a quoted text denotes is not longer than the text, and shorter if a character is
coded. -/
theorem length_of_decodeFrom_quote
    (h : decodeFrom offset found (s.flatMap quoteChar) = .ok text) :
    text.length ≤ found.length + s.length ∧
      ((∃ c ∈ s, IsCoded c) → text.length < found.length + s.length) := by
  -- A zero takes two more characters of the text with it, so the induction is on the length.
  induction hn : s.length using Nat.strongRecOn generalizing s offset found with
  | ind n ih =>
      subst hn
      cases s with
      | nil =>
          obtain rfl : found.reverse = text := by simpa [decodeFrom] using h
          simp
      | cons c s =>
          rw [List.flatMap_cons] at h
          by_cases hc : IsCoded c
          · suffices hlt : text.length < found.length + (c :: s).length from
              ⟨Nat.le_of_lt hlt, fun _ => hlt⟩
            rcases hc with hc | ⟨digits, hc⟩
            · rw [hc] at h
              obtain ⟨a, b, cs, d, hcs, ha, hb, h⟩ := exists_of_decodeFrom_zero h
              obtain ⟨s₁, rfl, hs₁⟩ := exists_of_flatMap_quoteChar ha hcs
              obtain ⟨s₂, rfl, rfl⟩ := exists_of_flatMap_quoteChar hb hs₁
              obtain ⟨hle, _⟩ := ih s₂.length (by simp only [List.length_cons]; omega) h rfl
              simp only [List.length_cons] at hle ⊢
              omega
            · rw [hc] at h
              simp only [List.append_assoc, List.cons_append, decodeFrom_code] at h
              cases h
          · obtain ⟨offset', hread⟩ := decodeFrom_quoteChar hc found (s.flatMap quoteChar) offset
            rw [hread] at h
            obtain ⟨hle, hlt⟩ := ih s.length (Nat.lt_succ_self _) h rfl
            simp only [List.length_cons] at hle hlt ⊢
            refine ⟨by omega, ?_⟩
            rintro ⟨d, hd, hcoded⟩
            rcases List.mem_cons.mp hd with rfl | hd
            · exact absurd hcoded hc
            · have := hlt ⟨d, hd, hcoded⟩
              omega

/-- A quoted text denotes itself if and only if no character of it is coded. -/
theorem decode_quote_iff (offset : Nat) (s : List Char) :
    decode offset (s.flatMap quoteChar) = .ok s ↔ ∀ c ∈ s, ¬IsCoded c := by
  constructor
  · intro h c hc hcoded
    have hlt := (length_of_decodeFrom_quote h).2 ⟨c, hc, hcoded⟩
    simp at hlt
  · intro hs
    exact decodeFrom_quote hs offset []

end Escape

end Formula
