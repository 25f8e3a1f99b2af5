/-!
# Characters and bytes of text

Offsets and lengths of text count the bytes of its UTF-8 encoding. Formulas are read by a few classes
of characters: blanks, which separate words, and the digits of numbers.
-/

namespace Formula.Text

/-! ## Bytes -/

/-- The number of bytes that a run of characters takes in UTF-8. -/
def byteLength (cs : List Char) : Nat :=
  cs.foldl (fun n c => n + c.utf8Size) 0

@[simp]
theorem byteLength_nil : byteLength [] = 0 := rfl

/-- Counting on from a number adds the number. -/
theorem foldl_utf8Size (n : Nat) (cs : List Char) :
    cs.foldl (fun n c => n + c.utf8Size) n = n + byteLength cs := by
  induction cs generalizing n with
  | nil => rfl
  | cons c cs ih =>
      unfold byteLength
      rw [List.foldl_cons, List.foldl_cons, ih, ih, Nat.zero_add, Nat.add_assoc]

@[simp]
theorem byteLength_cons (c : Char) (cs : List Char) :
    byteLength (c :: cs) = c.utf8Size + byteLength cs := by
  rw [byteLength, List.foldl_cons, foldl_utf8Size, Nat.zero_add]

@[simp]
theorem byteLength_append (cs ds : List Char) :
    byteLength (cs ++ ds) = byteLength cs + byteLength ds := by
  rw [byteLength, List.foldl_append, foldl_utf8Size]
  rfl

@[simp]
theorem byteLength_toList (s : String) : byteLength s.toList = s.utf8ByteSize := by
  suffices h : ∀ cs : List Char, byteLength cs = (String.ofList cs).utf8ByteSize by
    rw [h, String.ofList_toList]
  intro cs
  induction cs with
  | nil => simp
  | cons c cs ih =>
      have hsplit : String.ofList (c :: cs) = String.singleton c ++ String.ofList cs := by
        rw [String.singleton_eq_ofList, ← String.ofList_append]
        rfl
      simp [ih, hsplit]

/-- Every character takes at least one byte. -/
theorem length_le_byteLength (cs : List Char) : cs.length ≤ byteLength cs := by
  induction cs with
  | nil => simp
  | cons c cs ih =>
      have hc : 0 < c.utf8Size := Char.utf8Size_pos c
      simp only [List.length_cons, byteLength_cons]
      omega

/-! ## Finding a text in another -/

/-- Continues `find?` at a byte offset. -/
def findFrom? (needle : List Char) (offset : Nat) : List Char → Option Nat
  | [] => if needle.isEmpty then some offset else none
  | c :: cs =>
    if needle.isPrefixOf (c :: cs) then some offset
    else findFrom? needle (offset + c.utf8Size) cs

/-- The byte offset of the first place where a text occurs in another. -/
def find? (text needle : String) : Option Nat :=
  findFrom? needle.toList 0 text.toList

/-! ## Blanks -/

/-- Blank characters: tab to carriage return, space, next line, no-break space, and the
space and line separators further up. -/
def isBlank (c : Char) : Bool :=
  let n := c.toNat
  n == 0x20 || (0x09 ≤ n && n ≤ 0x0d) || n == 0x85 || n == 0xa0 || n == 0x1680
    || (0x2000 ≤ n && n ≤ 0x200a) || n == 0x2028 || n == 0x2029 || n == 0x202f
    || n == 0x205f || n == 0x3000

/-! ## Digits

Digits of a positional system with at most sixteen of them, and the numbers they write. -/

/-- The value of a digit: `0` to `9`, then `a` to `f` in either case. -/
def digitValue? (c : Char) : Option Nat :=
  if '0' ≤ c && c ≤ '9' then some (c.toNat - 48)
  else if 'a' ≤ c && c ≤ 'f' then some (c.toNat - 87)
  else if 'A' ≤ c && c ≤ 'F' then some (c.toNat - 55)
  else none

/-- The value of a digit that the radix admits. -/
def digit? (radix : Nat) (c : Char) : Option Nat :=
  (digitValue? c).filter (· < radix)

/-- The number that a run of digits writes, if all of them are digits of the radix. -/
def number? (radix : Nat) (digits : List Char) : Option Nat :=
  digits.foldlM (fun n c => (digit? radix c).map (n * radix + ·)) 0

/-- The number that the first `count` characters write, if there are that many and all of
them are digits of the radix. -/
def leadingNumber? (radix count : Nat) (cs : List Char) : Option Nat :=
  let digits := cs.take count
  if digits.length = count then number? radix digits else none

/-- A decimal digit. -/
def isDecimal (c : Char) : Bool :=
  '0' ≤ c && c ≤ '9'

end Formula.Text
