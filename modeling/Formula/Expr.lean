import Formula.Kind
import Formula.Text.Quoted

/-!
# Expressions

An expression is a tree whose nodes carry a kind and a text. A node of kind `parenthesis` is a
form: its text is an operator and its children are the operands. Every other node is an atom;
an atom may carry children, which take no part in what it means.

`len` counts the nodes with a work list, so that the depth of the tree does not matter; `size`
is the same number by recursion.
-/

namespace Formula

/-- An expression tree. -/
inductive Expr where
  | node (kind : Kind) (text : String) (children : List Expr)
deriving Inhabited

namespace Expr

/-- The kind of the topmost node. -/
def kind : Expr → Kind
  | node kind _ _ => kind

/-- The text of the topmost node: the operator of a form, the word of an atom. -/
def text : Expr → String
  | node _ text _ => text

/-- The children of the topmost node. -/
def children : Expr → List Expr
  | node _ _ children => children

/-- An atom without children. -/
def atom (kind : Kind) (text : String) : Expr :=
  node kind text []

/-- An operator applied to operands. -/
def form (operator : String) (operands : List Expr) : Expr :=
  node .parenthesis operator operands

/-- Forms are the nodes made by parentheses. -/
def isForm (e : Expr) : Bool :=
  e.kind == .parenthesis

/-! ## Equality -/

mutual

/-- Expressions are compared node by node. -/
def decEq : (a b : Expr) → Decidable (a = b)
  | node k s cs, node k' s' cs' =>
    if hk : k = k' then
      if hs : s = s' then
        match decEqList cs cs' with
        | .isTrue h => .isTrue (by rw [hk, hs, h])
        | .isFalse h => .isFalse (fun e => h (by injection e))
      else .isFalse (fun e => hs (by injection e))
    else .isFalse (fun e => hk (by injection e))

/-- Lists of expressions are compared member by member. -/
def decEqList : (as bs : List Expr) → Decidable (as = bs)
  | [], [] => .isTrue rfl
  | [], _ :: _ => .isFalse (by simp)
  | _ :: _, [] => .isFalse (by simp)
  | a :: as, b :: bs =>
    match decEq a b with
    | .isTrue h =>
      match decEqList as bs with
      | .isTrue hs => .isTrue (by rw [h, hs])
      | .isFalse hs => .isFalse (fun e => hs (by injection e))
    | .isFalse h => .isFalse (fun e => h (by injection e))

end

instance : DecidableEq Expr :=
  decEq

/-! ## Counting nodes -/

mutual

/-- The number of nodes of a tree. -/
def size : Expr → Nat
  | node _ _ cs => sizeList cs + 1

/-- The number of nodes of several trees together. -/
def sizeList : List Expr → Nat
  | [] => 0
  | c :: cs => size c + sizeList cs

end

@[simp]
theorem sizeList_append (as bs : List Expr) :
    sizeList (as ++ bs) = sizeList as + sizeList bs := by
  induction as with
  | nil => simp [sizeList]
  | cons a as ih => simp only [List.cons_append, sizeList, ih, Nat.add_assoc]

@[simp]
theorem sizeList_reverse (es : List Expr) : sizeList es.reverse = sizeList es := by
  induction es with
  | nil => rfl
  | cons e es ih =>
      rw [List.reverse_cons, sizeList_append, ih]
      simp only [sizeList]
      omega

/-- A count of nodes that is under way. -/
structure Tally where
  /-- The number of nodes visited so far. -/
  visited : Nat
  /-- The trees that are still to be visited, the next one first. -/
  pending : List Expr

namespace Tally

/-- Visits the topmost node of the next tree, if there is one. Its children are to be visited
next, beginning with the last. -/
def visit? (t : Tally) : Option Tally :=
  match t.pending with
  | [] => none
  | e :: pending => some ⟨t.visited + 1, e.children.reverse ++ pending⟩

/-- A visit counts one node, which is then no longer to be visited. -/
theorem counted_of_visit? {t t' : Tally} (h : t.visit? = some t') :
    t'.visited = t.visited + 1 ∧ sizeList t.pending = sizeList t'.pending + 1 := by
  unfold visit? at h
  split at h
  · cases h
  · rename_i e pending hpending
    cases h
    cases e
    refine ⟨rfl, ?_⟩
    rw [hpending, sizeList_append, sizeList_reverse]
    simp only [sizeList, size, children]
    omega

/-- Visits all trees, and gives the number of their nodes with those visited before. -/
def finish (t : Tally) : Nat :=
  match h : t.visit? with
  | none => t.visited
  | some t' =>
    have := counted_of_visit? h
    t'.finish
termination_by sizeList t.pending

end Tally

/-- The number of nodes of a tree, counted with a list of trees still to be visited. -/
def len (e : Expr) : Nat :=
  Tally.finish ⟨0, [e]⟩

/-! ## Expressions as text

A form is written with its parentheses and single blanks, a string as a quoted text, and a
truth value after a number sign. Children of atoms are not written. -/

/-- The text of an atom. -/
def renderAtom (kind : Kind) (text : String) : String :=
  match kind with
  | .string => Text.quote text
  | .bool => "#" ++ text
  | _ => text

mutual

/-- Writes an expression after the text `before`. -/
def renderOnto (before : String) : Expr → String
  | node .parenthesis operator operands =>
    (renderOperandsOnto (before ++ "(" ++ operator) operands).push ')'
  | node kind text _ => before ++ renderAtom kind text

/-- Writes operands after the text `before`, each after a blank. -/
def renderOperandsOnto (before : String) : List Expr → String
  | [] => before
  | e :: es => renderOperandsOnto (renderOnto (before.push ' ') e) es

end

/-- An expression as text. -/
def render (e : Expr) : String :=
  renderOnto "" e

end Expr

end Formula
