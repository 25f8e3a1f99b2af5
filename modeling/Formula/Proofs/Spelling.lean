import Formula.Proofs.Numerals
import Formula.Proofs.Quoting
import Formula.Proofs.Spans

/-!
# Spellings in string literals

A character has several spellings in a string literal: itself, the escape that names it, or its code
(`Escape.Spells`). The body of a literal is found by skipping the character behind each backslash
(`IsBody`), and it is decoded by reading whole escapes. Both agree on where escapes start: a body is
a sequence of spellings, or it has a first backslash at which none starts
(`IsBody.written_or_malformed`).
-/

namespace Formula

open Text

namespace Escape

/-! ## Spellings of a character -/

/-- The letters of the escapes that name a character. -/
def names : List (Char × Char) :=
  [('a', '\x07'), ('b', '\x08'), ('f', '\x0c'), ('n', '\n'), ('r', '\r'), ('t', '\t'),
    ('v', '\x0b'), ('\\', '\\'), ('"', '"'), ('\'', '\'')]

/-- The ways to write a character in a string literal. -/
inductive Spells (c : Char) : List Char → Prop
  /-- The character itself. -/
  | raw (hquote : c ≠ '"') (hslash : c ≠ '\\') : Spells c [c]
  /-- The letter that names it. -/
  | name {letter : Char} (hname : (letter, c) ∈ names) : Spells c ['\\', letter]
  /-- Two hexadecimal digits of its code, if it is an ASCII character. -/
  | hex {digits : List Char} (hcount : digits.length = 2) (hcode : IsNumeral 16 digits c.toNat)
      (hascii : c.toNat < 0x80) : Spells c ('\\' :: 'x' :: digits)
  /-- Three octal digits of its code, if it is an ASCII character. -/
  | octal {digits : List Char} (hcount : digits.length = 3) (hcode : IsNumeral 8 digits c.toNat)
      (hascii : c.toNat < 0x80) : Spells c ('\\' :: digits)
  /-- Four hexadecimal digits of its code. -/
  | short {digits : List Char} (hcount : digits.length = 4) (hcode : IsNumeral 16 digits c.toNat) :
      Spells c ('\\' :: 'u' :: digits)
  /-- Eight hexadecimal digits of its code. -/
  | long {digits : List Char} (hcount : digits.length = 8) (hcode : IsNumeral 16 digits c.toNat) :
      Spells c ('\\' :: 'U' :: digits)

/-- A character together with a way to write it. -/
structure Spelling where
  /-- The character that is written. -/
  char : Char
  /-- The characters that write it. -/
  chars : List Char
  /-- They are one of its spellings. -/
  spells : Spells char chars

/-- The characters that spellings write. -/
def denoted (items : List Spelling) : List Char :=
  items.map Spelling.char

/-- The spellings one after the other. -/
def written (items : List Spelling) : List Char :=
  items.flatMap Spelling.chars

@[simp]
theorem denoted_cons (item : Spelling) (items : List Spelling) :
    denoted (item :: items) = item.char :: denoted items := rfl

@[simp]
theorem written_cons (item : Spelling) (items : List Spelling) :
    written (item :: items) = item.chars ++ written items :=
  List.flatMap_cons

variable {c l : Char} {chars cs rest : List Char} {n width : Nat}

/-! ## Reading an escape -/

/-- The escapes of one letter are those that name a character. -/
theorem simple?_eq_some_iff : simple? l = some c ↔ (l, c) ∈ names := by
  constructor
  · intro h
    unfold simple? at h
    split at h <;> cases h <;> decide
  · have hnames : ∀ entry ∈ names, simple? entry.1 = some entry.2 := by decide
    exact hnames (l, c)

/-- A character is given by its scalar value. -/
theorem scalar?_eq_some_iff : scalar? n = some c ↔ c.toNat = n := by
  unfold scalar?
  split_ifs with hn
  · rw [Option.some.injEq]
    constructor
    · rintro rfl
      rw [Char.ofNat, dif_pos hn]
      rfl
    · rintro rfl
      exact Char.ofNat_toNat c
  · refine iff_of_false (by simp) ?_
    rintro rfl
    exact hn c.valid

/-- An ASCII character is given by its code. -/
theorem ascii?_eq_some_iff : ascii? n = some c ↔ c.toNat = n ∧ n < 0x80 := by
  have hscalar (hn : n < 0x80) : ascii? n = scalar? n := by
    rw [ascii?, scalar?, if_pos hn, if_pos (.inl (by omega))]
  by_cases hn : n < 0x80
  · rw [hscalar hn, scalar?_eq_some_iff, and_iff_left hn]
  · simp [ascii?, hn]

/-- A number is read if enough digits of the radix stand at the start. -/
theorem leadingNumber?_eq_some_iff {radix count : Nat} :
    leadingNumber? radix count cs = some n ↔
      ∃ digits rest, cs = digits ++ rest ∧ digits.length = count ∧ IsNumeral radix digits n := by
  unfold leadingNumber?
  constructor
  · intro h
    dsimp only at h
    split_ifs at h with hcount
    exact ⟨_, _, (List.take_append_drop count cs).symm, hcount, number?_eq_some_iff.mp h⟩
  · rintro ⟨digits, rest, rfl, rfl, hdigits⟩
    simpa using number?_eq_some_iff.mpr hdigits

/-- Digits are ASCII characters other than quotes and backslashes. -/
theorem plain_of_isDigit {radix d : Nat} (h : IsDigit radix c d) :
    c ≠ '"' ∧ c ≠ '\\' ∧ c.utf8Size = 1 := by
  have hdigits : (lowerDigits ++ upperDigits).all
      (fun c => c ≠ '"' ∧ c ≠ '\\' ∧ c.utf8Size = 1) = true := by decide
  have hmem : c ∈ lowerDigits ++ upperDigits :=
    List.mem_append.mpr (h.2.imp List.mem_of_getElem? List.mem_of_getElem?)
  exact of_decide_eq_true (List.all_eq_true.mp hdigits c hmem)

/-- No octal digit is a letter that an escape starts with. -/
theorem not_marker_of_isDigit {d : Nat} (h : IsDigit 8 c d) :
    simple? c = none ∧ c ≠ 'x' ∧ c ≠ 'u' ∧ c ≠ 'U' := by
  have hlower : ∀ d < 8, lowerDigits[d]?.all
      (fun c => simple? c = none ∧ c ≠ 'x' ∧ c ≠ 'u' ∧ c ≠ 'U') = true := by decide
  have hupper : ∀ d < 8, upperDigits[d]? = lowerDigits[d]? := by decide
  obtain ⟨hd, hc⟩ := h
  rw [hupper d hd, or_self] at hc
  have hplain := hlower d hd
  rw [hc, Option.all_some] at hplain
  exact of_decide_eq_true hplain

/-- A code is read if enough digits stand at the start and their number is that of a character. -/
theorem coded_eq_some_iff {character? : Nat → Option Char} {radix count taken : Nat} :
    ((leadingNumber? radix count cs).bind character?).map (·, taken) = some (c, width) ↔
      (∃ digits rest, cs = digits ++ rest ∧ digits.length = count ∧
        ∃ n, IsNumeral radix digits n ∧ character? n = some c) ∧ taken = width := by
  simp only [Option.map_eq_some_iff, Option.bind_eq_some_iff, leadingNumber?_eq_some_iff,
    Prod.mk.injEq]
  constructor
  · rintro ⟨_, ⟨n, ⟨digits, rest, hcs, hcount, hdigits⟩, hn⟩, rfl, rfl⟩
    exact ⟨⟨digits, rest, hcs, hcount, n, hdigits, hn⟩, rfl⟩
  · rintro ⟨⟨digits, rest, hcs, hcount, n, hdigits, hn⟩, rfl⟩
    exact ⟨c, ⟨n, ⟨digits, rest, hcs, hcount, hdigits⟩, hn⟩, rfl, rfl⟩

/-- An escape that is read is a spelling behind its backslash. -/
theorem exists_spells_of_read? (h : read? cs = some (c, width)) :
    ∃ chars rest, cs = chars ++ rest ∧ chars.length = width ∧ Spells c ('\\' :: chars) := by
  revert h
  fun_cases read? cs with
  | case1 => simp
  | case2 l cs denoted hl =>
      rintro ⟨⟩
      exact ⟨[l], cs, rfl, rfl, .name (simple?_eq_some_iff.mp hl)⟩
  | case3 cs =>
      rw [coded_eq_some_iff]
      rintro ⟨⟨digits, rest, rfl, hcount, n, hdigits, hn⟩, rfl⟩
      obtain ⟨rfl, hascii⟩ := ascii?_eq_some_iff.mp hn
      exact ⟨'x' :: digits, rest, rfl, by simp [hcount], .hex hcount hdigits hascii⟩
  | case4 cs =>
      rw [coded_eq_some_iff]
      rintro ⟨⟨digits, rest, rfl, hcount, n, hdigits, hn⟩, rfl⟩
      obtain rfl := scalar?_eq_some_iff.mp hn
      exact ⟨'u' :: digits, rest, rfl, by simp [hcount], .short hcount hdigits⟩
  | case5 cs =>
      rw [coded_eq_some_iff]
      rintro ⟨⟨digits, rest, rfl, hcount, n, hdigits, hn⟩, rfl⟩
      obtain rfl := scalar?_eq_some_iff.mp hn
      exact ⟨'U' :: digits, rest, rfl, by simp [hcount], .long hcount hdigits⟩
  | case6 l cs =>
      rw [coded_eq_some_iff]
      rintro ⟨⟨digits, rest, hcs, hcount, n, hdigits, hn⟩, rfl⟩
      obtain ⟨rfl, hascii⟩ := ascii?_eq_some_iff.mp hn
      exact ⟨digits, rest, hcs, hcount, .octal hcount hdigits hascii⟩

/-- A spelling behind its backslash is an escape that is read. -/
theorem read?_of_spells (h : Spells c ('\\' :: chars)) (rest : List Char) :
    read? (chars ++ rest) = some (c, chars.length) := by
  cases h with
  | raw _ hslash => exact absurd rfl hslash
  | name hname => simp [read?, simple?_eq_some_iff.mpr hname]
  | hex hcount hcode hascii =>
      refine coded_eq_some_iff.mpr ⟨⟨_, rest, rfl, hcount, _, hcode, ?_⟩, by simp [hcount]⟩
      exact ascii?_eq_some_iff.mpr ⟨rfl, hascii⟩
  | short hcount hcode =>
      refine coded_eq_some_iff.mpr ⟨⟨_, rest, rfl, hcount, _, hcode, ?_⟩, by simp [hcount]⟩
      exact scalar?_eq_some_iff.mpr rfl
  | long hcount hcode =>
      refine coded_eq_some_iff.mpr ⟨⟨_, rest, rfl, hcount, _, hcode, ?_⟩, by simp [hcount]⟩
      exact scalar?_eq_some_iff.mpr rfl
  | octal hcount hcode hascii =>
      obtain ⟨l, ls, rfl⟩ := List.exists_cons_of_length_pos (by omega : 0 < chars.length)
      obtain ⟨d, hd⟩ := exists_isNumeral_iff.mp ⟨_, hcode⟩ l (by simp)
      obtain ⟨hl, hx, hu, hU⟩ := not_marker_of_isDigit hd
      rw [List.cons_append, read?, hl, if_neg hx, if_neg hu, if_neg hU]
      refine coded_eq_some_iff.mpr ⟨⟨_, rest, rfl, hcount, _, hcode, ?_⟩, by simp [hcount]⟩
      exact ascii?_eq_some_iff.mpr ⟨rfl, hascii⟩

/-- An escape has a letter or digit behind its backslash, and digits only behind that. -/
theorem Spells.exists_of_escape (h : Spells c ('\\' :: chars)) :
    ∃ letter digits, chars = letter :: digits ∧ letter.utf8Size = 1 ∧
      ∀ d ∈ digits, d ≠ '"' ∧ d ≠ '\\' ∧ d.utf8Size = 1 := by
  have hplain {radix n : Nat} {digits : List Char} (h : IsNumeral radix digits n) :
      ∀ d ∈ digits, d ≠ '"' ∧ d ≠ '\\' ∧ d.utf8Size = 1 := by
    intro d hd
    obtain ⟨_, hdigit⟩ := exists_isNumeral_iff.mp ⟨n, h⟩ d hd
    exact plain_of_isDigit hdigit
  cases h with
  | raw _ hslash => exact absurd rfl hslash
  | name hname =>
      have hnames : ∀ entry ∈ names, entry.1.utf8Size = 1 := by decide
      exact ⟨_, [], rfl, hnames _ hname, by simp⟩
  | hex _ hcode | short _ hcode | long _ hcode => exact ⟨_, _, rfl, rfl, hplain hcode⟩
  | octal hcount hcode =>
      obtain ⟨l, ls, rfl⟩ := List.exists_cons_of_length_pos (by omega : 0 < chars.length)
      obtain ⟨⟨-, -, hl⟩, hls⟩ := List.forall_mem_cons.mp (hplain hcode)
      exact ⟨l, ls, rfl, hl, hls⟩

/-- A spelling is the character itself, or it starts with a backslash. -/
theorem Spells.eq_cons_or (h : Spells c chars) :
    chars = [c] ∧ c ≠ '"' ∧ c ≠ '\\' ∨ ∃ cs, chars = '\\' :: cs := by
  cases h with
  | raw hquote hslash => exact .inl ⟨rfl, hquote, hslash⟩
  | name | hex | octal | short | long => exact .inr ⟨_, rfl⟩

theorem Spells.length_pos (h : Spells c chars) : 0 < chars.length := by
  rcases h.eq_cons_or with ⟨rfl, -⟩ | ⟨cs, rfl⟩ <;> simp

/-- A run of ASCII characters takes one byte for each. -/
theorem byteLength_of_ascii (h : ∀ d ∈ cs, d.utf8Size = 1) : byteLength cs = cs.length := by
  induction cs with
  | nil => rfl
  | cons d cs ih =>
      obtain ⟨hd, hcs⟩ := List.forall_mem_cons.mp h
      simp [hd, ih hcs, Nat.add_comm]

/-! ## Decoding spellings -/

/-- A spelling at the start is decoded to its character. -/
theorem decodeFrom_spells (h : Spells c chars) (offset : Nat) (found rest : List Char) :
    decodeFrom offset found (chars ++ rest) =
      decodeFrom (offset + byteLength chars) (c :: found) rest := by
  rcases h.eq_cons_or with ⟨rfl, -, hslash⟩ | ⟨cs, rfl⟩
  · simpa using decodeFrom_plain hslash offset found rest
  · obtain ⟨letter, digits, rfl, hletter, hdigits⟩ := h.exists_of_escape
    have hascii : byteLength (letter :: digits) = (letter :: digits).length :=
      byteLength_of_ascii (List.forall_mem_cons.mpr ⟨hletter, fun d hd => (hdigits d hd).2.2⟩)
    rw [List.cons_append, decodeFrom, read?_of_spells h]
    dsimp only
    rw [List.drop_left, byteLength_cons, hascii, Nat.add_assoc]
    rfl

/-- Spellings at the start are decoded to their characters. -/
theorem decodeFrom_written (items : List Spelling) (offset : Nat) (found rest : List Char) :
    decodeFrom offset found (written items ++ rest) =
      decodeFrom (offset + byteLength (written items)) ((denoted items).reverse ++ found) rest := by
  induction items generalizing offset found with
  | nil => rfl
  | cons item items ih =>
      rw [written_cons, denoted_cons, List.append_assoc, decodeFrom_spells item.spells, ih,
        byteLength_append, Nat.add_assoc]
      simp

/-- A body of spellings denotes their characters. -/
@[simp]
theorem decode_written (items : List Spelling) (offset : Nat) :
    decode offset (written items) = .ok (denoted items) := by
  have h := decodeFrom_written items offset [] []
  rw [List.append_nil, List.append_nil, decodeFrom, List.reverse_reverse] at h
  exact h

/-- Every text can be written. -/
theorem exists_denoted_eq (text : List Char) : ∃ items, denoted items = text := by
  have hchar (c : Char) : ∃ chars, Spells c chars := by
    by_cases hc : c = '"' ∨ c = '\\'
    · refine ⟨['\\', c], .name ?_⟩
      rcases hc with rfl | rfl <;> decide
    · rw [not_or] at hc
      exact ⟨[c], .raw hc.1 hc.2⟩
  induction text with
  | nil => exact ⟨[], rfl⟩
  | cons c text ih =>
      obtain ⟨chars, hchars⟩ := hchar c
      obtain ⟨items, rfl⟩ := ih
      exact ⟨⟨c, chars, hchars⟩ :: items, rfl⟩

end Escape

/-! ## Bodies of literals -/

/-- The body of a literal: a quote stands behind a backslash only, and every backslash that is not
itself behind one has a character behind it. -/
inductive IsBody : List Char → Prop
  | nil : IsBody []
  | plain {c : Char} {cs : List Char} (hquote : c ≠ '"') (hslash : c ≠ '\\') (h : IsBody cs) :
      IsBody (c :: cs)
  | escaped (c : Char) {cs : List Char} (h : IsBody cs) : IsBody ('\\' :: c :: cs)

section Bodies

open Escape

variable {acc body cs rest text tail chars : List Char} {c letter : Char}

/-- A literal is closed at the first quote that is not behind a backslash. -/
theorem isBody_of_literalBodyFrom? (h : literalBodyFrom? acc cs = some (body, rest)) :
    ∃ own, body = acc.reverse ++ own ∧ IsBody own ∧ cs = own ++ '"' :: rest := by
  fun_induction literalBodyFrom? acc cs with
  | case1 => cases h
  | case2 acc cs =>
      cases h
      exact ⟨[], by simp, .nil, rfl⟩
  | case3 acc c cs ih =>
      obtain ⟨own, rfl, hown, rfl⟩ := ih h
      exact ⟨'\\' :: c :: own, by simp, .escaped c hown, rfl⟩
  | case4 acc c cs hquote hescape ih =>
      obtain ⟨own, rfl, hown, rfl⟩ := ih h
      have hslash : c ≠ '\\' := by
        rintro rfl
        cases own with
        | nil => exact hescape _ _ rfl rfl
        | cons d own => exact hescape _ _ rfl rfl
      exact ⟨c :: own, by simp, .plain hquote hslash hown, rfl⟩

/-- A body up to a quote is taken as a whole. -/
theorem literalBodyFrom?_of_isBody (h : IsBody body) (acc rest : List Char) :
    literalBodyFrom? acc (body ++ '"' :: rest) = some (acc.reverse ++ body, rest) := by
  induction h generalizing acc with
  | nil => simp [literalBodyFrom?]
  | @plain c cs hquote hslash _ ih =>
      rw [← List.singleton_append, List.append_assoc,
        literalBodyFrom?_plain (by simp [hquote, hslash]), ih]
      simp
  | escaped c _ ih =>
      rw [List.cons_append, List.cons_append, literalBodyFrom?, ih]
      simp

/-- What follows an opening quote is split into a body, a quote and the rest. -/
theorem literalBody?_eq_some_iff :
    literalBody? cs = some (body, rest) ↔ IsBody body ∧ cs = body ++ '"' :: rest := by
  constructor
  · intro h
    obtain ⟨own, rfl, hown, hcs⟩ := isBody_of_literalBodyFrom? h
    exact ⟨hown, hcs⟩
  · rintro ⟨hbody, rfl⟩
    exact literalBodyFrom?_of_isBody hbody [] rest

/-- A body goes on behind a character other than a quote and a backslash. -/
theorem isBody_cons (hquote : c ≠ '"') (hslash : c ≠ '\\') : IsBody (c :: cs) ↔ IsBody cs := by
  refine ⟨fun h => ?_, .plain hquote hslash⟩
  cases h with
  | plain _ _ h => exact h
  | escaped => exact absurd rfl hslash

/-- A body goes on behind a backslash and a character. -/
theorem isBody_escaped : IsBody ('\\' :: c :: cs) ↔ IsBody cs := by
  refine ⟨fun h => ?_, .escaped c⟩
  cases h with
  | plain _ hslash => exact absurd rfl hslash
  | escaped _ h => exact h

/-- A body goes on behind a spelling. -/
theorem isBody_spells_append (h : Spells c chars) : IsBody (chars ++ rest) ↔ IsBody rest := by
  have hplain {ds : List Char} (hds : ∀ d ∈ ds, d ≠ '"' ∧ d ≠ '\\' ∧ d.utf8Size = 1) :
      IsBody (ds ++ rest) ↔ IsBody rest := by
    induction ds with
    | nil => rfl
    | cons d ds ih =>
        obtain ⟨⟨hquote, hslash, -⟩, hds⟩ := List.forall_mem_cons.mp hds
        rw [List.cons_append, isBody_cons hquote hslash, ih hds]
  rcases h.eq_cons_or with ⟨rfl, hquote, hslash⟩ | ⟨cs, rfl⟩
  · exact isBody_cons hquote hslash
  · obtain ⟨letter, digits, rfl, -, hdigits⟩ := h.exists_of_escape
    rw [List.cons_append, List.cons_append, isBody_escaped, hplain hdigits]

/-- Spellings make up a body. -/
theorem isBody_written (items : List Spelling) : IsBody (written items) := by
  induction items with
  | nil => exact .nil
  | cons item items ih =>
      rw [written_cons]
      exact (isBody_spells_append item.spells).mpr ih

/-- A body is made up of spellings, or of spellings up to a backslash at which none starts. -/
theorem IsBody.written_or_malformed (h : IsBody body) :
    (∃ items, body = written items) ∨ ∃ items letter tail,
      body = written items ++ '\\' :: letter :: tail ∧
      ∀ item : Spelling, ¬item.chars <+: '\\' :: letter :: tail := by
  induction hlength : body.length using Nat.strongRecOn generalizing body with
  | ind n ih =>
      -- Spellings are taken off the start until there is none.
      by_cases hitem : ∃ item : Spelling, item.chars <+: body
      · obtain ⟨item, rest, rfl⟩ := hitem
        have hrest := (isBody_spells_append item.spells).mp h
        have hlt : rest.length < n := by
          have hpos := item.spells.length_pos
          rw [List.length_append] at hlength
          omega
        rcases ih _ hlt hrest rfl with ⟨items, rfl⟩ | ⟨items, letter, tail, rfl, htail⟩
        · exact .inl ⟨item :: items, by simp⟩
        · exact .inr ⟨item :: items, letter, tail, by simp, htail⟩
      · cases h with
        | nil => exact .inl ⟨[], rfl⟩
        | @plain c cs hquote hslash => exact absurd ⟨⟨c, [c], .raw hquote hslash⟩, cs, rfl⟩ hitem
        | @escaped letter tail =>
            exact .inr ⟨[], letter, tail, rfl, fun item hprefix => hitem ⟨item, hprefix⟩⟩

/-- A literal is malformed at the first backslash at which no spelling starts. -/
theorem decode_malformed (h : ∀ item : Spelling, ¬item.chars <+: '\\' :: letter :: tail)
    (items : List Spelling) (offset : Nat) :
    decode offset (written items ++ '\\' :: letter :: tail) =
      .error (.malformedEscape (offset + byteLength (written items)) letter) := by
  have hread : read? (letter :: tail) = none := by
    refine Option.eq_none_iff_forall_ne_some.mpr fun (c, width) hread => ?_
    obtain ⟨chars, rest, hcs, -, hchars⟩ := exists_spells_of_read? hread
    exact h ⟨c, _, hchars⟩ ⟨rest, by simp [hcs]⟩
  rw [decode, decodeFrom_written, decodeFrom, hread]
  rfl

/-- A body that denotes a text is made up of spellings of its characters. -/
theorem IsBody.exists_of_decode (h : IsBody body) {offset : Nat}
    (htext : decode offset body = .ok text) :
    ∃ items, body = written items ∧ text = denoted items := by
  rcases h.written_or_malformed with ⟨items, rfl⟩ | ⟨items, letter, tail, rfl, htail⟩
  · rw [decode_written] at htext
    exact ⟨items, rfl, (Except.ok.inj htext).symm⟩
  · rw [decode_malformed htail] at htext
    cases htext

/-- Where decoding a body comes along: the offset, the characters found so far in reverse and what
is left, as in the recursive calls of `decodeFrom`. -/
inductive Escape.Reaches (start : Nat) (body : List Char) : Nat → List Char → List Char → Prop
  | start : Reaches start body start [] body
  | plain {offset : Nat} {found cs : List Char} {c : Char}
      (h : Reaches start body offset found (c :: cs)) (hslash : c ≠ '\\') :
      Reaches start body (offset + c.utf8Size) (c :: found) cs
  | escape {offset width : Nat} {found cs : List Char} {c : Char}
      (h : Reaches start body offset found ('\\' :: cs)) (hread : read? cs = some (c, width)) :
      Reaches start body (offset + 1 + width) (c :: found) (cs.drop width)

/-- Where decoding comes along, it goes on with what is left. -/
theorem Escape.Reaches.decode_eq {start offset : Nat} {found : List Char}
    (h : Reaches start body offset found cs) : decode start body = decodeFrom offset found cs := by
  induction h with
  | start => rfl
  | plain _ hslash ih => rw [ih, decodeFrom_plain hslash]
  | escape _ hread ih => rw [ih, decodeFrom, hread]

/-- Where decoding the body of a literal comes along, a body is left. -/
theorem Escape.Reaches.isBody {start offset : Nat} {found : List Char}
    (h : Reaches start body offset found cs) (hbody : IsBody body) : IsBody cs := by
  induction h with
  | start => exact hbody
  | plain _ hslash ih =>
      cases ih with
      | plain _ _ h => exact h
      | escaped => exact absurd rfl hslash
  | escape _ hread ih =>
      obtain ⟨chars, rest, rfl, rfl, hchars⟩ := exists_spells_of_read? hread
      rw [List.drop_left]
      exact (isBody_spells_append hchars).mp ih

end Bodies

/-! ## Literals of a source -/

namespace Reader

open Escape

variable {r after : Reader} {source blanks body rest : List Char} {t : Token}

/-- A literal behind blanks is read up to its closing quote. -/
theorem next_of_literal (hr : r.stopped = false) (hblank : ∀ c ∈ blanks, isBlank c = true)
    (hrest : r.rest = blanks ++ '"' :: (body ++ '"' :: rest)) (hbody : IsBody body) :
    r.next =
      match decode (r.position + byteLength blanks + 1) body with
      | .error fault =>
        (some (.error fault), ⟨rest, r.position + byteLength blanks + byteLength body + 2, true⟩)
      | .ok text =>
        (some (.ok ⟨String.ofList text, .string, r.position + byteLength blanks⟩),
          ⟨rest, r.position + byteLength blanks + byteLength body + 2, false⟩) := by
  have hquote : isBlank '"' = false := by decide
  have htake : r.rest.takeWhile isBlank = blanks := by
    rw [hrest, List.takeWhile_append_of_pos hblank, List.takeWhile_cons_of_neg (by simp [hquote]),
      List.append_nil]
  have hdrop : r.rest.dropWhile isBlank = '"' :: (body ++ '"' :: rest) := by
    rw [hrest, List.dropWhile_append_of_pos hblank, List.dropWhile_cons_of_neg (by simp [hquote])]
  have hclosed : literalBody? (body ++ '"' :: rest) = some (body, rest) :=
    literalBody?_eq_some_iff.mpr ⟨hbody, rfl⟩
  rw [next_of_running hr, htake, hdrop]
  cases htext : decode (r.position + byteLength blanks + 1) body <;>
    simp only [readWord, hclosed, htext]

/-- What a reader finds behind some characters is a slice of the source. -/
theorem IsIn.isSlice {left piece right : List Char} (hr : r.IsIn source)
    (hrest : r.rest = left ++ (piece ++ right)) :
    IsSlice source (r.position + byteLength left)
      (r.position + byteLength left + byteLength piece) piece := by
  have hslice := hr.rest
  rw [hrest] at hslice
  exact hslice.split.2.split.1

/-- A token of the kind of literals stands in the source as spellings of its characters between
quotes. -/
theorem IsIn.exists_of_string (hr : r.IsIn source) (h : r.next = (some (.ok t), after))
    (hkind : t.kind = .string) :
    ∃ items, IsSlice source t.offset after.position ('"' :: (written items ++ ['"'])) ∧
      t.text = String.ofList (denoted items) := by
  have hlexes := lexes_of_next h
  generalize hcs : r.rest.dropWhile isBlank = cs at hlexes
  cases hlexes with
  | opening | closing => cases hkind
  | word => exact absurd hkind (wordKind_ne_string _)
  | @literal cs body rest text hclosed htext =>
      obtain ⟨hbody, rfl⟩ := literalBody?_eq_some_iff.mp hclosed
      obtain ⟨items, rfl, rfl⟩ := hbody.exists_of_decode htext
      refine ⟨items, ?_, rfl⟩
      have hsplit : r.rest =
          r.rest.takeWhile isBlank ++ ('"' :: (written items ++ ['"']) ++ rest) := by
        rw [List.cons_append, List.append_assoc, List.singleton_append, ← hcs,
          List.takeWhile_append_dropWhile]
      have hslice := hr.isSlice hsplit
      rw [byteLength_quoted] at hslice
      exact hslice

/-- A literal with a backslash at which no spelling starts is reported there. -/
theorem IsIn.next_of_malformed {items : List Spelling} {letter : Char} {tail : List Char}
    (hr : r.IsIn source) (hblank : ∀ c ∈ blanks, isBlank c = true)
    (hrest : r.rest = blanks ++ '"' :: (written items ++ '\\' :: letter :: tail ++ '"' :: rest))
    (hbody : IsBody (written items ++ '\\' :: letter :: tail))
    (htail : ∀ item : Spelling, ¬item.chars <+: '\\' :: letter :: tail) :
    ∃ offset, IsSlice source (r.position + byteLength blanks) offset ('"' :: written items) ∧
      r.next.1 = some (.error (.malformedEscape offset letter)) := by
  have hsplit : r.rest =
      blanks ++ ('"' :: written items ++ ('\\' :: letter :: tail ++ '"' :: rest)) := by
    simp [hrest]
  have hslice := hr.isSlice hsplit
  rw [byteLength_cons, ← Nat.add_assoc] at hslice
  refine ⟨_, hslice, ?_⟩
  rw [next_of_literal hr.running hblank hrest hbody, decode_malformed htail]
  rfl

end Reader

/-- Spellings between quotes are one literal. -/
theorem tokenize_written (items : List Escape.Spelling) :
    tokenize (String.ofList ('"' :: (Escape.written items ++ ['"']))) =
      .ok [⟨String.ofList (Escape.denoted items), .string, 0⟩] := by
  have hrest : (Reader.ofString (String.ofList ('"' :: (Escape.written items ++ ['"'])))).rest =
      [] ++ '"' :: (Escape.written items ++ '"' :: []) := by simp [Reader.ofString]
  have htoken := Reader.next_of_literal rfl (by simp) hrest (isBody_written items)
  rw [Escape.decode_written] at htoken
  refine tokenize_eq_ok_iff.mpr ?_
  rw [Reader.readAll_of_token htoken, Reader.readAll_of_end (r := Reader.mk [] _ _) rfl]
  exact ⟨rfl, rfl⟩

/-- **String literals are sequences of spellings.** Spellings between quotes are read as the text of
their characters, every text can be written in this way, and every literal that is read stands in
its source as such a sequence. If a closed literal is none, the error names the byte of the first
backslash at which no spelling starts and the character behind it. Decoding a literal never comes to
a backslash with nothing behind it. -/
theorem literal_decodes_spellings :
    (∀ items : List Escape.Spelling,
      tokenize (String.ofList ('"' :: (Escape.written items ++ ['"']))) =
        .ok [⟨String.ofList (Escape.denoted items), .string, 0⟩]) ∧
    (∀ text : String, ∃ items, String.ofList (Escape.denoted items) = text) ∧
    (∀ source : String, ∀ t ∈ (Reader.ofString source).readAll.tokens, t.kind = .string →
      ∃ items stop,
        IsSlice source.toList t.offset stop ('"' :: (Escape.written items ++ ['"'])) ∧
        t.text = String.ofList (Escape.denoted items)) ∧
    (∀ (source : String) (r : Reader), r.IsIn source.toList → ∀ blanks body rest,
      (∀ c ∈ blanks, isBlank c = true) → r.rest = blanks ++ '"' :: (body ++ '"' :: rest) →
      IsBody body → (∀ items, body ≠ Escape.written items) →
      ∃ items letter tail offset,
        body = Escape.written items ++ '\\' :: letter :: tail ∧
        (∀ item : Escape.Spelling, ¬item.chars <+: '\\' :: letter :: tail) ∧
        IsSlice source.toList (r.position + byteLength blanks) offset
          ('"' :: Escape.written items) ∧
        r.next.1 = some (.error (.malformedEscape offset letter))) ∧
    (∀ cs body rest, literalBody? cs = some (body, rest) → ∀ start offset found left,
      Escape.Reaches start body offset found left →
      Escape.decode start body = Escape.decodeFrom offset found left ∧ left ≠ ['\\']) := by
  refine ⟨tokenize_written, ?_, ?_, ?_, ?_⟩
  · intro text
    obtain ⟨items, hitems⟩ := Escape.exists_denoted_eq text.toList
    exact ⟨items, by rw [hitems, String.ofList_toList]⟩
  · intro source t ht hkind
    obtain ⟨i, hi⟩ := List.mem_iff_getElem?.mp ht
    obtain ⟨hlength, _⟩ := List.getElem?_eq_some_iff.mp hi
    have hin := (Reader.isIn_ofString source).advance (Nat.le_of_lt hlength)
    obtain ⟨items, hslice, htext⟩ := hin.exists_of_string (Reader.next_advance _ i t hi) hkind
    exact ⟨items, _, hslice, htext⟩
  · intro source r hr blanks body rest hblank hrest hbody hitems
    obtain ⟨items, letter, tail, rfl, htail⟩ :=
      hbody.written_or_malformed.resolve_left fun ⟨items, h⟩ => hitems items h
    obtain ⟨offset, hslice, hfault⟩ := hr.next_of_malformed hblank hrest hbody htail
    exact ⟨items, letter, tail, offset, rfl, htail, hslice, hfault⟩
  · intro cs body rest hclosed start offset found left hleft
    have hbody := (literalBody?_eq_some_iff.mp hclosed).1
    refine ⟨hleft.decode_eq, ?_⟩
    rintro rfl
    cases hleft.isBody hbody with
    | plain _ hslash => exact absurd rfl hslash

/-- A literal with a code, and one behind a blank of three bytes whose second escape is a character
of two bytes. -/
theorem literal_decodes_spellings_wide :
    (∃ items stop,
      IsSlice "x \"\\u00e9\"".toList 2 stop ('"' :: (Escape.written items ++ ['"'])) ∧
      "é" = String.ofList (Escape.denoted items)) ∧
    (∃ items letter tail offset,
      "\\n\\é".toList = Escape.written items ++ '\\' :: letter :: tail ∧
      (∀ item : Escape.Spelling, ¬item.chars <+: '\\' :: letter :: tail) ∧
      IsSlice "\u3000\"\\n\\é\"".toList 3 offset ('"' :: Escape.written items) ∧
      (Reader.ofString "\u3000\"\\n\\é\"").next.1 =
        some (.error (.malformedEscape offset letter))) ∧
    "\\n\\é".toList ≠ ['\\'] := by
  obtain ⟨-, -, htoken, hmalformed, hreaches⟩ := literal_decodes_spellings
  have hmem : ⟨"é", .string, 2⟩ ∈ (Reader.ofString "x \"\\u00e9\"").readAll.tokens := by
    decide +kernel
  have hclosed : literalBody? "\\n\\é\"".toList = some ("\\n\\é".toList, []) := by decide +kernel
  have hitems : ∀ items, "\\n\\é".toList ≠ Escape.written items := by
    intro items hitems
    have hfault : Escape.decode 0 "\\n\\é".toList = .error (.malformedEscape 2 'é') := by
      decide +kernel
    rw [hitems, Escape.decode_written] at hfault
    cases hfault
  have hblank : ∀ c ∈ ['\u3000'], isBlank c = true := List.all_eq_true.mp (by decide +kernel)
  exact ⟨htoken _ _ hmem rfl,
    hmalformed _ _ (Reader.isIn_ofString _) ['\u3000'] _ [] hblank (by decide +kernel)
      (literalBody?_eq_some_iff.mp hclosed).1 hitems,
    (hreaches _ _ _ hclosed 0 _ _ _ .start).2⟩

end Formula
