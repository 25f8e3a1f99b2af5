import Formula.Kind
import Formula.Text

/-!
# Tokens

The words of a formula, each with its kind and the place where it starts, and the ways in
which reading them can fail.
-/

namespace Formula

/-- A word of a formula. For a string literal the text is the one it denotes, without quotes
and escapes. -/
structure Token where
  /-- The word itself. -/
  text : String
  /-- What the word is. -/
  kind : Kind
  /-- The byte offset of the word's first character in the source. -/
  offset : Nat
deriving DecidableEq, Repr, Inhabited

namespace Token

/-- An opening parenthesis. -/
def isOpen (t : Token) : Bool :=
  t.kind == .parenthesis && t.text == "("

/-- A closing parenthesis. -/
def isClose (t : Token) : Bool :=
  t.kind == .parenthesis && t.text == ")"

end Token

/-- Why a source cannot be read as tokens. -/
inductive LexError where
  /-- A string literal opened at this offset is never closed. -/
  | unterminatedString (offset : Nat)
  /-- The backslash at this offset does not start an escape; `escape` is the character after
  it. -/
  | malformedEscape (offset : Nat) (escape : Char)
deriving DecidableEq, Repr

/-- The wording of a reading error. -/
def LexError.message : LexError → String
  | unterminatedString offset => s!"unterminated string sequence starting at offset {offset}"
  | malformedEscape offset escape => s!"malformed escape `\\{escape}` at offset {offset}"

/-! ## Escapes in string literals

The body of a string literal stands for the text obtained by replacing each escape, a backslash and
what follows it, by the character it denotes. -/

namespace Escape

open Text

/-- The character with a given scalar value. -/
def scalar? (n : Nat) : Option Char :=
  if n.isValidChar then some (Char.ofNat n) else none

/-- The ASCII character with a given code. -/
def ascii? (n : Nat) : Option Char :=
  if n < 0x80 then some (Char.ofNat n) else none

/-- The character that a one-letter escape denotes. -/
def simple? : Char → Option Char
  | 'a' => some '\x07'
  | 'b' => some '\x08'
  | 'f' => some '\x0c'
  | 'n' => some '\n'
  | 'r' => some '\r'
  | 't' => some '\t'
  | 'v' => some '\x0b'
  | '\\' => some '\\'
  | '"' => some '"'
  | '\'' => some '\''
  | _ => none

/-- Reads the escape that follows a backslash: the character it denotes and the number of
characters it takes. Besides the one-letter escapes there are the ASCII characters by two
hexadecimal or three octal digits, and all characters by four or eight hexadecimal digits. -/
def read? : List Char → Option (Char × Nat)
  | [] => none
  | c :: cs =>
    if let some denoted := simple? c then some (denoted, 1)
    else if c = 'x' then (leadingNumber? 16 2 cs).bind ascii? |>.map (·, 3)
    else if c = 'u' then (leadingNumber? 16 4 cs).bind scalar? |>.map (·, 5)
    else if c = 'U' then (leadingNumber? 16 8 cs).bind scalar? |>.map (·, 9)
    else (leadingNumber? 8 3 (c :: cs)).bind ascii? |>.map (·, 3)

/-- Continues `decode` at a byte offset, with the characters found so far in reverse. -/
def decodeFrom (offset : Nat) (found : List Char) : List Char → Except LexError (List Char)
  | [] => .ok found.reverse
  | '\\' :: cs =>
    match read? cs with
    | some (denoted, width) =>
      decodeFrom (offset + 1 + width) (denoted :: found) (cs.drop width)
    | none => .error (.malformedEscape offset (cs.head?.getD '\\'))
  | c :: cs => decodeFrom (offset + c.utf8Size) (c :: found) cs
termination_by cs => cs.length

/-- The text that the body of a string literal denotes. The body starts at the given byte
offset, and an error names the offset of the backslash at fault. -/
def decode (offset : Nat) (body : List Char) : Except LexError (List Char) :=
  decodeFrom offset [] body

end Escape

end Formula
