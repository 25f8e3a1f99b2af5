import Formula.Expr
import Formula.Token.Reader

/-!
# Expressions from tokens

A form is an opening parenthesis, a symbol, any number of expressions and a closing
parenthesis; every other token is an atom. Reading stops at the end of the first expression:
what follows it is not looked at.
-/

namespace Formula

/-- Why a source does not start with an expression. -/
inductive ParseError where
  /-- The tokens cannot be read so far. -/
  | lex (fault : LexError)
  /-- The word at this offset stands where an operator has to be. -/
  | expectingOperator (offset : Nat)
  /-- The parenthesis at this offset closes nothing. -/
  | unexpectedParenthesis (offset : Nat)
  /-- The source ends before the expression does. -/
  | unexpectedEnd
deriving DecidableEq, Repr

namespace ParseError

/-- The wording of a parse error. -/
def message : ParseError → String
  | lex fault => fault.message
  | expectingOperator _ => "expecting symbolic operator"
  | unexpectedParenthesis _ => "unexpected parenthesis"
  | unexpectedEnd => "unexpected EOF"

/-- Errors that more text at the end of the source could repair. -/
def isIncomplete : ParseError → Bool
  | lex (.unterminatedString _) | unexpectedEnd => true
  | _ => false

end ParseError

namespace Expr

/-- An entry of the stack on which an expression is put together. -/
inductive Entry where
  /-- A form whose operator has been read and whose closing parenthesis has not. -/
  | opened (operator : String)
  /-- An expression that has been read. -/
  | done (e : Expr)

namespace Entry

/-- Whether the entry is an expression. -/
def isDone : Entry → Bool
  | opened _ => false
  | done _ => true

/-- The expression of an entry. -/
def expr? : Entry → Option Expr
  | opened _ => none
  | done e => some e

end Entry

/-- Closes the uppermost open form of a stack whose top comes first. The expressions above it are
its operands, from below. The result is the form and the stack that was below it. -/
def closeForm? (stack : List Entry) : Option (Expr × List Entry) :=
  match stack.dropWhile Entry.isDone with
  | .opened operator :: below =>
    some (form operator ((stack.takeWhile Entry.isDone).reverse.filterMap Entry.expr?), below)
  | _ => none

/-- Reads a token where an expression is not complete yet. -/
def nextToken (r : Reader) : Except ParseError (Token × Reader) :=
  match r.next with
  | (some (.ok t), after) => .ok (t, after)
  | (some (.error fault), _) => .error (.lex fault)
  | (none, _) => .error .unexpectedEnd

/-- A token is what the reader yields next. -/
theorem nextToken_eq_ok_iff {r after : Reader} {t : Token} :
    nextToken r = .ok (t, after) ↔ r.next = (some (.ok t), after) := by
  unfold nextToken
  split <;> simp_all

/-- The first expression that a reader yields above the entries of `stack`, whose top comes first,
and the reader behind it. -/
def readExpr (stack : List Entry) (r : Reader) : Except ParseError (Expr × Reader) :=
  match h : nextToken r with
  | .error fault => .error fault
  | .ok (t, after) =>
    have := Reader.length_rest_lt_of_next (nextToken_eq_ok_iff.1 h)
    if t.isOpen then
      match hop : nextToken after with
      | .error fault => .error fault
      | .ok (op, behind) =>
        have := Reader.length_rest_lt_of_next (nextToken_eq_ok_iff.1 hop)
        if op.kind = .symbol then readExpr (.opened op.text :: stack) behind
        else .error (.expectingOperator op.offset)
    else if t.isClose then
      match closeForm? stack with
      | none => .error (.unexpectedParenthesis t.offset)
      | some (e, []) => .ok (e, after)
      | some (e, below) => readExpr (.done e :: below) after
    else
      match stack with
      | [] => .ok (atom t.kind t.text, after)
      | _ => readExpr (.done (atom t.kind t.text) :: stack) after
termination_by r.rest.length

/-- The first expression of a source. -/
def parse (source : String) : Except ParseError Expr :=
  (readExpr [] (Reader.ofString source)).map Prod.fst

end Expr

end Formula
