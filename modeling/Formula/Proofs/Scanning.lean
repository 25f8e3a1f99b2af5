import Formula.Proofs.Spelling

/-!
# Scanning by positions

A reader keeps what it has not read yet. A scanner can do with a position in the bytes of its source
and cut out of the source what it needs, provided that every cut lies within the source and between
two characters. Here such a scanner checks all its cuts (`Cursor.next?`). No check ever fails, and
the scanner yields what the reader does (`Cursor.next?_cursor`).

The end of a literal is searched for among bytes, where the byte behind a backslash is skipped even
if it is only a part of a character. The other bytes of such a character are neither quotes nor
backslashes, so the search finds the quote that the reader finds (`closingQuote?_bytes`).
-/

namespace Formula

namespace Text

variable {cs piece : List Char} {c : Char} {b : UInt8} {start stop : Nat}

/-! ## Bytes of a text -/

/-- The bytes of a run of characters in UTF-8. -/
def bytes (cs : List Char) : List UInt8 :=
  cs.flatMap String.utf8EncodeChar

@[simp]
theorem bytes_cons (c : Char) (cs : List Char) :
    bytes (c :: cs) = String.utf8EncodeChar c ++ bytes cs :=
  rfl

@[simp]
theorem bytes_append (cs ds : List Char) : bytes (cs ++ ds) = bytes cs ++ bytes ds :=
  List.flatMap_append

@[simp]
theorem length_bytes (cs : List Char) : (bytes cs).length = byteLength cs := by
  induction cs with
  | nil => rfl
  | cons c cs ih =>
      simp [ih]

/-- The bytes of a character of several bytes are not in the ASCII range. -/
theorem le_of_mem_utf8EncodeChar (hc : c.utf8Size ≠ 1) (hb : b ∈ String.utf8EncodeChar c) :
    0x80 ≤ b := by
  have hor (x : UInt8) {y : UInt8} (hy : 0x80 ≤ y) : 0x80 ≤ x ||| y :=
    UInt8.le_trans hy UInt8.right_le_or
  rcases c.utf8Size_eq with h | h | h | h
  · exact absurd h hc
  · rw [String.utf8EncodeChar_eq_cons_cons h] at hb
    simp only [List.mem_cons, List.not_mem_nil, or_false] at hb
    rcases hb with rfl | rfl <;> exact hor _ (by decide)
  · rw [String.utf8EncodeChar_eq_cons_cons_cons h] at hb
    simp only [List.mem_cons, List.not_mem_nil, or_false] at hb
    rcases hb with rfl | rfl | rfl <;> exact hor _ (by decide)
  · rw [String.utf8EncodeChar_eq_cons_cons_cons_cons h] at hb
    simp only [List.mem_cons, List.not_mem_nil, or_false] at hb
    rcases hb with rfl | rfl | rfl | rfl <;> exact hor _ (by decide)

/-- A byte in the ASCII range is a character of its own. -/
theorem utf8EncodeChar_of_lt (hb : b ∈ String.utf8EncodeChar c) (hlt : b < 0x80) :
    String.utf8EncodeChar c = [b] ∧ c.toNat = b.toNat := by
  by_cases hc : c.utf8Size = 1
  · rw [String.utf8EncodeChar_eq_singleton hc] at hb ⊢
    obtain rfl := List.mem_singleton.mp hb
    have hle := Char.utf8Size_eq_one_iff.mp hc
    rw [UInt32.le_iff_toNat_le] at hle
    refine ⟨rfl, ?_⟩
    rw [UInt32.toNat_toUInt8, Char.toNat]
    exact (Nat.mod_eq_of_lt (Nat.lt_of_le_of_lt hle (by decide))).symm
  · exact absurd (le_of_mem_utf8EncodeChar hc hb) (UInt8.not_le.mpr hlt)

/-! ## Cuts -/

/-- Splits a run behind a number of bytes, if that is within the run and between two characters. -/
def splitAt? : Nat → List Char → Option (List Char × List Char)
  | 0, cs => some ([], cs)
  | _ + 1, [] => none
  | n + 1, c :: cs =>
    if c.utf8Size ≤ n + 1 then
      (splitAt? (n + 1 - c.utf8Size) cs).map fun (before, after) => (c :: before, after)
    else none

/-- The characters of a text from one byte up to another, if both are within the text and between
two characters and the second is not before the first. -/
def slice? (cs : List Char) (start stop : Nat) : Option (List Char) :=
  if start ≤ stop then do
    let (_, tail) ← splitAt? start cs
    let (piece, _) ← splitAt? (stop - start) tail
    return piece
  else none

/-- Only the empty run has no bytes. -/
theorem byteLength_eq_zero_iff : byteLength cs = 0 ↔ cs = [] := by
  constructor
  · intro h
    exact List.length_eq_zero_iff.mp (Nat.le_zero.mp (h ▸ length_le_byteLength cs))
  · rintro rfl
    rfl

/-- A run is split into two runs, the first of which has the given number of bytes. -/
theorem splitAt?_eq_some_iff {n : Nat} {before after : List Char} :
    splitAt? n cs = some (before, after) ↔ cs = before ++ after ∧ byteLength before = n := by
  fun_induction splitAt? n cs generalizing before with
  | case1 cs =>
      rw [byteLength_eq_zero_iff, Option.some.injEq, Prod.mk.injEq, eq_comm (a := [])]
      constructor
      · rintro ⟨rfl, rfl⟩
        exact ⟨rfl, rfl⟩
      · rintro ⟨rfl, rfl⟩
        exact ⟨rfl, rfl⟩
  | case2 n =>
      refine iff_of_false (by simp) ?_
      rintro ⟨hnil, hlength⟩
      obtain ⟨rfl, -⟩ := List.append_eq_nil_iff.mp hnil.symm
      cases hlength
  | case3 n c cs hle ih =>
      rw [Option.map_eq_some_iff]
      constructor
      · rintro ⟨⟨before, after⟩, hsplit, ⟨⟩⟩
        obtain ⟨rfl, hlength⟩ := ih.mp hsplit
        refine ⟨rfl, ?_⟩
        rw [byteLength_cons, hlength]
        omega
      · rintro ⟨hcs, hlength⟩
        obtain ⟨rfl, -⟩ | ⟨before, rfl, rfl⟩ := List.cons_eq_append_iff.mp hcs
        · cases hlength
        · rw [byteLength_cons] at hlength
          exact ⟨(before, after), ih.mpr ⟨rfl, by omega⟩, rfl⟩
  | case4 n c cs hlt =>
      refine iff_of_false (by simp) ?_
      rintro ⟨hcs, hlength⟩
      obtain ⟨rfl, -⟩ | ⟨before, rfl, rfl⟩ := List.cons_eq_append_iff.mp hcs
      · cases hlength
      · rw [byteLength_cons] at hlength
        omega

/-- A cut is made exactly where there is a slice. -/
theorem slice?_eq_some_iff : slice? cs start stop = some piece ↔ IsSlice cs start stop piece := by
  unfold slice?
  split
  · rename_i hle
    simp only [IsSlice, Option.bind_eq_bind, Option.bind_eq_some_iff, Prod.exists,
      splitAt?_eq_some_iff]
    constructor
    · rintro ⟨before, tail, ⟨rfl, hbefore⟩, piece, after, ⟨rfl, hpiece⟩, ⟨⟩⟩
      exact ⟨before, after, by simp, hbefore, by omega⟩
    · rintro ⟨before, after, rfl, hbefore, hpiece⟩
      exact ⟨before, piece ++ after, ⟨by simp, hbefore⟩, piece, after, ⟨rfl, by omega⟩, rfl⟩
  · rename_i hlt
    exact iff_of_false (by simp) fun h => hlt h.le

/-- A slice ends behind its bytes. -/
theorem IsSlice.add_byteLength (h : IsSlice cs start stop piece) :
    start + byteLength piece = stop := by
  obtain ⟨_, _, _, _, hlength⟩ := h
  exact hlength

/-- A slice up to the end is what is left behind its start. -/
theorem IsSlice.drop_bytes (h : IsSlice cs start (byteLength cs) piece) :
    (bytes cs).drop start = bytes piece := by
  obtain ⟨before, after, rfl, rfl, hlength⟩ := h
  obtain rfl : after = [] := by
    rw [← byteLength_eq_zero_iff]
    simp only [byteLength_append] at hlength
    omega
  rw [List.append_nil, bytes_append, ← length_bytes before, List.drop_left]

end Text

open Text

/-! ## The end of a literal -/

section Literals

variable {bs before : List UInt8} {i : Nat} {cs : List Char} {c : Char}

/-- The bytes that the search for the end of a literal stops at: quotes and backslashes. -/
def isMark (b : UInt8) : Bool :=
  b == 0x22 || b == 0x5c

/-- Searches for the closing quote of a literal from a byte on: its place, or nothing if there is
none. At a backslash the search goes on behind the next byte. There is no answer at all if a place
out of range is looked at. -/
def closingQuote? (bs : List UInt8) (i : Nat) : Option (Option Nat) :=
  if bs.length < i then none
  else
    match (bs.drop i).findIdx? isMark with
    | none => some none
    | some hit =>
      match bs[i + hit]? with
      | none => none
      | some b =>
        if b = 0x22 then some (some (i + hit))
        -- A backslash at the very end has nothing behind it.
        else if bs.length < i + hit + 2 then some none
        else closingQuote? bs (i + hit + 2)
termination_by bs.length - i

/-- The number of bytes before the closing quote of a literal. The first byte may be escaped: it then
stands behind a backslash and does not count as a quote or a backslash itself. -/
def bytesToQuote? : Bool → List UInt8 → Option Nat
  | _, [] => none
  | true, _ :: bs => (bytesToQuote? false bs).map (1 + ·)
  | false, b :: bs => if b = 0x22 then some 0 else (bytesToQuote? (b == 0x5c) bs).map (1 + ·)

/-- Places add up. -/
theorem map_add_map_add (m n : Nat) (place : Option Nat) :
    (place.map (n + ·)).map (m + ·) = place.map (m + n + ·) := by
  rw [Option.map_map]
  congr 1
  funext k
  exact (Nat.add_assoc m n k).symm

/-- Bytes that are no marks are passed over. -/
theorem bytesToQuote?_append (hbefore : ∀ b ∈ before, isMark b = false) (bs : List UInt8) :
    bytesToQuote? false (before ++ bs) = (bytesToQuote? false bs).map (before.length + ·) := by
  induction before with
  | nil => simp
  | cons b before ih =>
      rw [List.forall_mem_cons] at hbefore
      obtain ⟨hquote, hslash⟩ : b ≠ 0x22 ∧ b ≠ 0x5c := by simpa [isMark] using hbefore.1
      rw [List.cons_append, bytesToQuote?, if_neg hquote, beq_false_of_ne hslash, ih hbefore.2,
        map_add_map_add, List.length_cons, Nat.add_comm 1]

/-- A search for a mark stops at the first one, and the bytes before it are passed over. -/
theorem bytesToQuote?_of_findIdx? {hit : Nat} (h : (bs.drop i).findIdx? isMark = some hit) :
    ∃ b, bs[i + hit]? = some b ∧ isMark b = true ∧ bytesToQuote? false (bs.drop i) =
      (bytesToQuote? false (b :: bs.drop (i + hit + 1))).map (hit + ·) := by
  obtain ⟨hlt, hmark, hbefore⟩ := List.findIdx?_eq_some_iff_getElem.mp h
  have hsplit : bs.drop i =
      (bs.drop i).take hit ++ (bs.drop i)[hit] :: bs.drop (i + hit + 1) := by
    rw [Nat.add_assoc, ← List.drop_drop, ← List.drop_eq_getElem_cons hlt, List.take_append_drop]
  have hpassed : ∀ b ∈ (bs.drop i).take hit, isMark b = false := by
    intro b hb
    obtain ⟨j, hj, rfl⟩ := List.getElem_of_mem hb
    rw [List.length_take] at hj
    rw [List.getElem_take]
    exact Bool.eq_false_iff.mpr (hbefore j (by omega))
  refine ⟨(bs.drop i)[hit], ?_, hmark, ?_⟩
  · rw [← List.getElem?_drop, List.getElem?_eq_getElem hlt]
  · conv_lhs => rw [hsplit]
    rw [bytesToQuote?_append hpassed, List.length_take_of_le (Nat.le_of_lt hlt)]

/-- The search among bytes looks at no place out of range, and finds the quote that is found byte by
byte. -/
theorem closingQuote?_eq (hi : i ≤ bs.length) :
    closingQuote? bs i = some ((bytesToQuote? false (bs.drop i)).map (i + ·)) := by
  fun_induction closingQuote? bs i with
  | case1 i hlt => omega
  | case2 i hle hnone =>
      have hpassed := bytesToQuote?_append (List.findIdx?_eq_none_iff.mp hnone) []
      rw [List.append_nil] at hpassed
      rw [hpassed]
      rfl
  | case3 i hle hit hfound hnone =>
      obtain ⟨b, hb, -⟩ := bytesToQuote?_of_findIdx? hfound
      cases hb.symm.trans hnone
  | case4 i hle hit hfound hquote =>
      obtain ⟨b, hb, -, hplace⟩ := bytesToQuote?_of_findIdx? hfound
      cases hb.symm.trans hquote
      rw [hplace, bytesToQuote?, if_pos rfl]
      rfl
  | case5 i hle hit hfound b hb hquote hend =>
      obtain ⟨b', hb', hmark, hplace⟩ := bytesToQuote?_of_findIdx? hfound
      cases hb.symm.trans hb'
      obtain rfl : b = 0x5c := by simpa [isMark, hquote] using hmark
      rw [hplace, List.drop_eq_nil_of_le (by omega), bytesToQuote?, if_neg hquote, bytesToQuote?]
      rfl
  | case6 i hle hit hfound b hb hquote hend ih =>
      obtain ⟨b', hb', hmark, hplace⟩ := bytesToQuote?_of_findIdx? hfound
      cases hb.symm.trans hb'
      obtain rfl : b = 0x5c := by simpa [isMark, hquote] using hmark
      -- The search goes on two bytes behind the mark, which is two steps byte by byte.
      rw [ih (by omega), hplace, List.drop_eq_getElem_cons (show i + hit + 1 < bs.length by omega),
        bytesToQuote?, if_neg hquote, beq_self_eq_true, bytesToQuote?, map_add_map_add,
        map_add_map_add, map_add_map_add]

/-- A mark is a character of its own. -/
theorem utf8EncodeChar_of_isMark {b : UInt8} (hb : b ∈ String.utf8EncodeChar c)
    (hmark : isMark b = true) : String.utf8EncodeChar c = [b] ∧ (c = '"' ∨ c = '\\') := by
  have hcases : b = 0x22 ∨ b = 0x5c := by simpa [isMark] using hmark
  have hlt : b < 0x80 := by rcases hcases with rfl | rfl <;> decide
  obtain ⟨hencode, hcode⟩ := utf8EncodeChar_of_lt hb hlt
  refine ⟨hencode, ?_⟩
  rw [← Char.toNat_inj, ← Char.toNat_inj, hcode]
  rcases hcases with rfl | rfl <;> decide

/-- There are no marks behind the first byte of a character. -/
theorem isMark_eq_false_of_mem_tail {b : UInt8} {tail : List UInt8}
    (hc : String.utf8EncodeChar c = b :: tail) : ∀ b' ∈ tail, isMark b' = false := by
  intro b' hb'
  rw [Bool.eq_false_iff]
  intro hmark
  have hencode := (utf8EncodeChar_of_isMark (hc ▸ List.mem_cons_of_mem b hb') hmark).1
  rw [hc] at hencode
  cases hencode
  cases hb'

/-- Byte by byte, the quote is found that ends the body of a literal. What stands in the body so far
adds to its length. -/
theorem map_literalBodyFrom? (acc cs : List Char) :
    (literalBodyFrom? acc cs).map (byteLength ·.1) =
      (bytesToQuote? false (bytes cs)).map (byteLength acc.reverse + ·) := by
  have hquote : String.utf8EncodeChar '"' = [0x22] := by decide
  have hslash : String.utf8EncodeChar '\\' = [0x5c] := by decide
  fun_induction literalBodyFrom? acc cs with
  | case1 => rfl
  | case2 acc cs =>
      rw [bytes_cons, hquote, List.singleton_append, bytesToQuote?, if_pos rfl]
      rfl
  | case3 acc c cs ih =>
      -- The first byte behind the backslash is skipped, and the others of the character are passed.
      obtain ⟨b, tail, hc⟩ := List.exists_cons_of_ne_nil (String.utf8EncodeChar_ne_nil (c := c))
      have hlength : byteLength (c :: '\\' :: acc).reverse =
          byteLength acc.reverse + 1 + 1 + tail.length := by
        have hsize := String.length_utf8EncodeChar c
        rw [hc, List.length_cons] at hsize
        have hone : Char.utf8Size '\\' = 1 := rfl
        simp only [List.reverse_cons, byteLength_append, byteLength_cons, byteLength_nil, hone,
          ← hsize]
        omega
      rw [ih, hlength, bytes_cons, bytes_cons, hslash, hc, List.singleton_append,
        List.cons_append, bytesToQuote?, if_neg (by decide), beq_self_eq_true, bytesToQuote?,
        bytesToQuote?_append (isMark_eq_false_of_mem_tail hc), map_add_map_add, map_add_map_add,
        map_add_map_add]
  | case4 acc c cs hne hescape ih =>
      rw [ih, bytes_cons]
      by_cases hc : c = '\\'
      · obtain rfl : cs = [] := by
          cases cs with
          | nil => rfl
          | cons d cs => exact absurd rfl (hescape d cs hc)
        rw [hc]
        rfl
      · have hpassed : ∀ b ∈ String.utf8EncodeChar c, isMark b = false := by
          intro b hb
          rw [Bool.eq_false_iff]
          intro hmark
          exact (utf8EncodeChar_of_isMark hb hmark).2.elim hne hc
        rw [bytesToQuote?_append hpassed, map_add_map_add, String.length_utf8EncodeChar,
          List.reverse_cons, byteLength_append, byteLength_cons, byteLength_nil, Nat.add_zero]

/-- Behind an opening quote, the quote is found that ends the body of the literal. -/
theorem closingQuote?_bytes {source : List Char} (h : IsSlice source i (byteLength source) cs) :
    closingQuote? (bytes source) i =
      some ((literalBody? cs).map fun literal => i + byteLength literal.1) := by
  have hi : i ≤ (bytes source).length := by
    rw [length_bytes]
    exact h.le
  have hbody : (literalBody? cs).map (byteLength ·.1) = bytesToQuote? false (bytes cs) := by
    simpa [literalBody?] using map_literalBodyFrom? [] cs
  rw [closingQuote?_eq hi, h.drop_bytes, ← hbody, Option.map_map]
  rfl

end Literals

/-! ## Scanners -/

/-- A scanner's state: a byte of its source, and whether it has come to an end. -/
structure Cursor where
  /-- The byte at which the scanner reads on. -/
  position : Nat
  /-- Whether the scanner has reached the end or met an error. -/
  stopped : Bool

/-- The state of a reader without what it has not read yet. -/
def Reader.cursor (r : Reader) : Cursor :=
  ⟨r.position, r.stopped⟩

namespace Cursor

variable {source cs : List Char} {r : Reader} {start : Nat}

/-- Scans a literal whose opening quote is at `start`. There is no answer if a cut is not possible
or a place out of range is looked at. -/
def scanLiteral? (source : List Char) (before : Cursor) (start : Nat) :
    Option (Option (Except LexError Token) × Cursor) := do
  match ← closingQuote? (bytes source) (start + 1) with
  | none => return (some (.error (.unterminatedString start)), { before with stopped := true })
  | some stop =>
    let body ← slice? source (start + 1) stop
    match Escape.decode (start + 1) body with
    | .error fault => return (some (.error fault), ⟨stop + 1, true⟩)
    | .ok text => return (some (.ok ⟨String.ofList text, .string, start⟩), ⟨stop + 1, false⟩)

/-- Scans a word that is at `start`. There is no answer if a cut is not possible. -/
def scanWord? (source : List Char) (start : Nat) :
    Option (Option (Except LexError Token) × Cursor) := do
  let rest ← slice? source start (byteLength source)
  let length := byteLength (rest.takeWhile isWordChar)
  let word ← slice? rest 0 length
  return (some (.ok ⟨String.ofList word, wordKind word, start⟩), ⟨start + length, false⟩)

/-- Scans what is at `start`, where `trimmed` is left of the source. There is no answer if a cut is
not possible or a place out of range is looked at. -/
def scan? (source : List Char) (before : Cursor) (start : Nat) (trimmed : List Char) :
    Option (Option (Except LexError Token) × Cursor) :=
  match trimmed with
  | [] => some (none, ⟨byteLength source, true⟩)
  | first :: _ =>
    if first = '(' ∨ first = ')' then do
      let text ← slice? source start (start + 1)
      return (some (.ok ⟨String.ofList text, .parenthesis, start⟩), ⟨start + 1, false⟩)
    else if first = '"' then scanLiteral? source before start
    else scanWord? source start

/-- Scans the next token after any blanks. There is no answer if a cut is not possible or a place
out of range is looked at. -/
def next? (source : List Char) (c : Cursor) :
    Option (Option (Except LexError Token) × Cursor) :=
  if c.stopped then some (none, c)
  else do
    let rest ← slice? source c.position (byteLength source)
    let trimmed := rest.dropWhile isBlank
    scan? source c (c.position + (byteLength rest - byteLength trimmed)) trimmed

/-- A literal is scanned as it is read. -/
theorem scanLiteral?_eq (h : IsSlice source start (byteLength source) ('"' :: cs)) :
    scanLiteral? source r.cursor start =
      some ((r.readWord start ('"' :: cs)).1, (r.readWord start ('"' :: cs)).2.cursor) := by
  have hcs : IsSlice source (start + 1) (byteLength source) cs :=
    (show IsSlice source start (byteLength source) (['"'] ++ cs) from h).split.2
  simp only [scanLiteral?, closingQuote?_bytes hcs, Reader.readWord, Option.bind_eq_bind,
    Option.bind_some]
  cases hbody : literalBody? cs with
  | none => rfl
  | some literal =>
      obtain ⟨body, rest⟩ := literal
      obtain ⟨-, rfl⟩ := literalBody?_eq_some_iff.mp hbody
      have hstop : start + 1 + byteLength body + 1 = start + byteLength body + 2 := by omega
      simp only [Option.map_some, slice?_eq_some_iff.mpr hcs.split.1, Option.bind_some, hstop]
      cases Escape.decode (start + 1) body with
      | error fault => rfl
      | ok text => rfl

/-- A word is scanned as it is read. -/
theorem scanWord?_eq {c : Char} (h : IsSlice source start (byteLength source) (c :: cs))
    (hc : isWordChar c = true) (hquote : c ≠ '"') :
    scanWord? source start =
      some ((r.readWord start (c :: cs)).1, (r.readWord start (c :: cs)).2.cursor) := by
  obtain ⟨-, hopen, hclose⟩ := (isWordChar_iff c).mp hc
  have hword : IsSlice (c :: cs) 0 (byteLength (c :: cs.takeWhile isWordChar))
      (c :: cs.takeWhile isWordChar) :=
    ⟨[], cs.dropWhile isWordChar, by simp, rfl, Nat.zero_add _⟩
  rw [Reader.readWord]
  · simp only [scanWord?, slice?_eq_some_iff.mpr h, Option.bind_eq_bind, Option.bind_some,
      List.takeWhile_cons_of_pos hc, slice?_eq_some_iff.mpr hword]
    rfl
  · exact hopen
  · exact hclose
  · exact hquote

/-- Behind blanks, the scanner does what the reader does. -/
theorem scan?_eq (h : IsSlice source start (byteLength source) cs)
    (hcs : ∀ c ∈ cs.head?, isBlank c = false) :
    scan? source r.cursor start cs =
      some ((r.readWord start cs).1, (r.readWord start cs).2.cursor) := by
  cases cs with
  | nil =>
      rw [scan?, Reader.readWord, ← h.add_byteLength]
      rfl
  | cons c cs =>
      rw [scan?]
      split_ifs with hparen hquote
      · have hfirst : IsSlice source start (start + 1) [c] := by
          have hsize : c.utf8Size = 1 := by rcases hparen with rfl | rfl <;> rfl
          have hsplit := (show IsSlice source start (byteLength source) ([c] ++ cs) from h).split.1
          rwa [byteLength_cons, byteLength_nil, hsize] at hsplit
        rcases hparen with rfl | rfl
        · simp only [slice?_eq_some_iff.mpr hfirst]
          rfl
        · simp only [slice?_eq_some_iff.mpr hfirst]
          rfl
      · subst hquote
        exact scanLiteral?_eq h
      · rw [not_or] at hparen
        exact scanWord?_eq h ((isWordChar_iff c).mpr ⟨hcs c rfl, hparen⟩) hquote

/-- **A scanner by positions does what the reader does.** Where what a reader has not read yet is
the source from its position on, a scanner at this position makes no cut that is not possible, looks
at no place out of range, yields what the reader yields, and comes to the same position. -/
theorem next?_cursor (h : IsSlice source r.position (byteLength source) r.rest) :
    next? source r.cursor = some (r.next.1, r.next.2.cursor) := by
  cases hstopped : r.stopped with
  | true =>
      rw [Reader.next_of_stopped hstopped, next?, Reader.cursor, hstopped]
      rfl
  | false =>
      have hsplit := List.takeWhile_append_dropWhile (p := isBlank) (l := r.rest)
      have hlength : byteLength r.rest - byteLength (r.rest.dropWhile isBlank) =
          byteLength (r.rest.takeWhile isBlank) := by
        have hsum := congrArg byteLength hsplit
        rw [byteLength_append] at hsum
        omega
      rw [Reader.next_of_running hstopped, next?, if_neg (by simp [Reader.cursor, hstopped])]
      simp only [Reader.cursor, slice?_eq_some_iff.mpr h, Option.bind_eq_bind, Option.bind_some,
        hlength]
      refine scan?_eq ?_ fun c hc => not_of_mem_head?_dropWhile hc
      rw [← hsplit] at h
      exact h.split.2

end Cursor

end Formula
