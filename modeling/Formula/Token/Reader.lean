import Formula.Text
import Formula.Token

/-!
# Reading tokens

A reader walks over a source from left to right and yields its tokens one by one. It stops at
the end of the source and after the first error.

The main facts are that a token is never empty (`length_rest_lt_of_next`), so that reading on
comes to an end, and that a reader which has stopped stays as it is (`next_of_stopped`).
-/

namespace Formula

open Text

/-! ## Words -/

/-- Characters that belong to a word: all but blanks and parentheses. -/
def isWordChar (c : Char) : Bool :=
  !isBlank c && c != '(' && c != ')'

/-- Words that start like a number: with a decimal digit or a point. -/
def startsNumber : List Char → Bool
  | c :: _ => isDecimal c || c == '.'
  | [] => false

/-- The kind of a word. A word that starts like a number is a float if it has a point and an
integer otherwise; `true` and `false` are truth values; all else is a symbol. -/
def wordKind (word : List Char) : Kind :=
  if startsNumber word then
    if word.contains '.' then .float else .int
  else if word = ['t', 'r', 'u', 'e'] || word = ['f', 'a', 'l', 's', 'e'] then .bool
  else .symbol

/-! ## String literals -/

/-- Continues `literalBody?` with the characters of the body so far in reverse. -/
def literalBodyFrom? (body : List Char) : List Char → Option (List Char × List Char)
  | [] => none
  | '"' :: cs => some (body.reverse, cs)
  | '\\' :: c :: cs => literalBodyFrom? (c :: '\\' :: body) cs
  | c :: cs => literalBodyFrom? (c :: body) cs

/-- Splits what follows an opening quote into the body of the literal and what follows the
closing quote. A character after a backslash never closes the literal. -/
def literalBody? (cs : List Char) : Option (List Char × List Char) :=
  literalBodyFrom? [] cs

/-- What follows a literal is shorter than what follows its opening quote. -/
theorem length_of_literalBodyFrom? {acc cs body rest : List Char}
    (h : literalBodyFrom? acc cs = some (body, rest)) : rest.length < cs.length := by
  fun_induction literalBodyFrom? acc cs with
  | case1 => simp at h
  | case2 acc cs =>
      simp only [Option.some.injEq, Prod.mk.injEq] at h
      simp [h.2]
  | case3 acc c cs ih =>
      have := ih h
      simp only [List.length_cons]
      omega
  | case4 acc c cs _ _ ih =>
      have := ih h
      simp only [List.length_cons]
      omega

/-! ## Readers -/

/-- A reader's state: what it has not read yet, where that starts, and whether it has come to
an end. -/
structure Reader where
  /-- The characters that are still to be read. -/
  rest : List Char
  /-- The byte offset at which they start. -/
  position : Nat := 0
  /-- Whether the reader has reached the end or met an error. -/
  stopped : Bool := false
deriving DecidableEq

namespace Reader

/-- A reader at the start of a source. -/
def ofString (source : String) : Reader :=
  ⟨source.toList, 0, false⟩

/-- Reads the token at the start of `rest`, which lies at `offset` and is not blank. A reader
that meets an unclosed literal stays where it was. -/
def readWord (before : Reader) (offset : Nat) :
    List Char → Option (Except LexError Token) × Reader
  | [] => (none, ⟨[], offset, true⟩)
  | '(' :: cs => (some (.ok ⟨"(", .parenthesis, offset⟩), ⟨cs, offset + 1, false⟩)
  | ')' :: cs => (some (.ok ⟨")", .parenthesis, offset⟩), ⟨cs, offset + 1, false⟩)
  | '"' :: cs =>
    match literalBody? cs with
    | none => (some (.error (.unterminatedString offset)), { before with stopped := true })
    | some (body, rest) =>
      let stop := offset + byteLength body + 2
      match Escape.decode (offset + 1) body with
      | .error fault => (some (.error fault), ⟨rest, stop, true⟩)
      | .ok text => (some (.ok ⟨String.ofList text, .string, offset⟩), ⟨rest, stop, false⟩)
  | c :: cs =>
    let word := c :: cs.takeWhile isWordChar
    (some (.ok ⟨String.ofList word, wordKind word, offset⟩),
      ⟨cs.dropWhile isWordChar, offset + byteLength word, false⟩)

/-- Reads the next token after any blanks: the token, or the error that stops the reader, or
nothing if the reader has stopped or reaches the end. -/
def next (r : Reader) : Option (Except LexError Token) × Reader :=
  if r.stopped then (none, r)
  else
    readWord r (r.position + byteLength (r.rest.takeWhile isBlank)) (r.rest.dropWhile isBlank)

theorem next_of_stopped {r : Reader} (h : r.stopped = true) : r.next = (none, r) := by
  simp [next, h]

theorem length_dropWhile_le (p : Char → Bool) (cs : List Char) :
    (cs.dropWhile p).length ≤ cs.length :=
  (List.dropWhile_sublist p).length_le

/-- A word takes at least one character. -/
theorem length_rest_lt_of_readWord {before after : Reader} {offset : Nat} {cs : List Char}
    {t : Token} (h : readWord before offset cs = (some (.ok t), after)) :
    after.rest.length < cs.length := by
  unfold readWord at h
  split at h
  · simp at h
  · obtain ⟨-, rfl⟩ := Prod.mk.inj h
    simp
  · obtain ⟨-, rfl⟩ := Prod.mk.inj h
    simp
  · split at h
    · simp at h
    · rename_i body rest hbody
      have := length_of_literalBodyFrom? hbody
      dsimp only at h
      split at h
      · simp at h
      · obtain ⟨-, rfl⟩ := Prod.mk.inj h
        simp only [List.length_cons]
        omega
  · obtain ⟨-, rfl⟩ := Prod.mk.inj h
    simp only [List.length_cons]
    exact Nat.lt_succ_of_le (length_dropWhile_le _ _)

/-- A token takes at least one character, so a reader that yields one has less left. -/
theorem length_rest_lt_of_next {r after : Reader} {t : Token}
    (h : r.next = (some (.ok t), after)) : after.rest.length < r.rest.length := by
  unfold next at h
  split at h
  · simp at h
  · exact Nat.lt_of_lt_of_le (length_rest_lt_of_readWord h) (length_dropWhile_le _ _)

/-! ## Reading to the end -/

/-- All that a reader still yields: tokens in order, then perhaps an error, and the reader
after that. -/
structure Reading where
  /-- The tokens in the order of the source. -/
  tokens : List Token
  /-- The error that stopped the reader, if it did not reach the end. -/
  fault : Option LexError
  /-- The reader when it has stopped. -/
  final : Reader

/-- Continues `readAll` with the tokens found so far in reverse. -/
def readAllFrom (found : List Token) (r : Reader) : Reading :=
  match h : r.next with
  | (none, after) => ⟨found.reverse, none, after⟩
  | (some (.error fault), after) => ⟨found.reverse, some fault, after⟩
  | (some (.ok t), after) =>
    have := length_rest_lt_of_next h
    readAllFrom (t :: found) after
termination_by r.rest.length

/-- Reads on until the reader stops. -/
def readAll (r : Reader) : Reading :=
  readAllFrom [] r

end Reader

/-- The tokens of a source, or the first error in it. -/
def tokenize (source : String) : Except LexError (List Token) :=
  let reading := (Reader.ofString source).readAll
  match reading.fault with
  | none => .ok reading.tokens
  | some fault => .error fault

end Formula
