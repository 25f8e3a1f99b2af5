import Formula.Proofs.Typing
import Mathlib.Data.List.TakeWhile

/-!
# The walk of the compiler

The compiler comes to the nodes of an expression in a fixed order, to a form before its operands
and to the operands from left to right (`Expr.visits`). Whether a node is at fault can be seen from
the node alone (`Visit.fault?`), and the compiler stops at the first node that is. Up to there it
has taken one node after another, and it has applied no operator before its operands were on the
stack (`Draft.Emits`). Both are said of every expression by `Draft.walked_emit`.
-/

namespace Formula

/-! ## Visits -/

/-- A node as the compiler comes to it. -/
structure Visit where
  /-- The kind of the node. -/
  kind : Kind
  /-- The operator of a form, or the word of an atom. -/
  text : String
  /-- The number of operands of a form. -/
  count : Nat
deriving DecidableEq

namespace Visit

/-- What is wrong with a node: an operator that is not there, a symbol that is not declared, a
number that cannot be read or a text that is too large. -/
def fault? (scope : Scope) (v : Visit) : Option CompileError :=
  match v.kind with
  | .parenthesis =>
    if scope.registry.resolve v.text v.count = none then some (.unknownOperator v.text v.count)
    else none
  | .bool => none
  | .int =>
    match Literal.integer v.text.toList with
    | .ok _ => none
    | .error .malformed => some (.invalidInteger v.text)
    | .error .outOfRange => some (.integerOutOfRange v.text)
  | .float =>
    if Literal.decimal? v.text.toList = none then some (.invalidFloat v.text) else none
  | .string =>
    if textSizeLimit ≤ v.text.utf8ByteSize then some (.stringTooLarge v.text.utf8ByteSize) else none
  | .symbol =>
    if scope.symbols.lookup v.text = none then some (.undeclaredSymbol v.text) else none

/-- The name of a symbol. The operator of a form is none. -/
def symbol? (v : Visit) : Option String :=
  if v.kind = .symbol then some v.text else none

end Visit

namespace Expr

mutual

/-- The nodes of an expression in the order in which the compiler comes to them. What stands below
an atom is left out. -/
def visits : Expr → List Visit
  | node .parenthesis name operands =>
    ⟨.parenthesis, name, operands.length⟩ :: visitsAll operands
  | node kind text _ => [⟨kind, text, 0⟩]

/-- The nodes of several expressions. -/
def visitsAll : List Expr → List Visit
  | [] => []
  | e :: es => visits e ++ visitsAll es

end

theorem visits_atom {kind : Kind} (hkind : kind ≠ .parenthesis) (text : String)
    (children : List Expr) : visits (node kind text children) = [⟨kind, text, 0⟩] := by
  rw [visits]
  exact hkind

/-- The nodes that the compiler takes: all those before the first one that is at fault. -/
def taken (scope : Scope) (e : Expr) : List Visit :=
  e.visits.takeWhile fun v => v.fault? scope = none

/-- The symbols that the compiler takes, from left to right and as often as they occur. -/
def takenSymbols (scope : Scope) (e : Expr) : List String :=
  (e.taken scope).filterMap Visit.symbol?

end Expr

namespace Draft

variable {π σ : Type} [SlotStore π] [TextStore σ] {scope : Scope} {d d₁ d₂ : Draft π σ}
  {op : Operator} {type : Ty} {visits rest : List Visit} {fault : CompileError}
  {result : Except CompileError Ty × Draft π σ}

/-! ## Steps with visits -/

/-- What the compiler does when it takes a node. -/
inductive Takes (scope : Scope) (d : Draft π σ) : Visit → Draft π σ → Prop
  /-- A form adds nothing before its operands. -/
  | form (name : String) (count : Nat) : Takes scope d ⟨.parenthesis, name, count⟩ d
  | value {type : Ty} (htype : type ≠ .string) (text : String) (word : UInt64) :
      Takes scope d ⟨type.kind, text, 0⟩ (d.pushOperand (.ofKind type.kind word))
  | text {text : String} (hsize : text.utf8ByteSize < textSizeLimit) :
      Takes scope d ⟨.string, text, 0⟩ (d.pushText text)
  | symbol {name : String} {type : Ty} (hname : scope.symbols.lookup name = some type) :
      Takes scope d ⟨.symbol, name, 0⟩ (d.pushSymbol name type)

/-- The compiler takes nodes one after another, and in between applies operators that find their
operands on the stack. -/
inductive Emits (scope : Scope) (d : Draft π σ) : List Visit → Draft π σ → Prop
  | refl : Emits scope d [] d
  | visit {visits : List Visit} {v : Visit} {d₁ d₂ : Draft π σ} (h : Emits scope d visits d₁)
      (hv : Takes scope d₁ v d₂) : Emits scope d (visits ++ [v]) d₂
  | operator {visits : List Visit} {op : Operator} {d₁ : Draft π σ}
      (h : Emits scope d visits d₁) (hop : op ∈ scope.registry.operators)
      (hdepth : op.arity ≤ d₁.depth) :
      Emits scope d visits (d₁.pushOperator op)

/-- Nodes may be taken in two runs. -/
theorem Emits.trans (h : Emits scope d visits d₁) (h' : Emits scope d₁ rest d₂) :
    Emits scope d (visits ++ rest) d₂ := by
  induction h' with
  | refl => simpa using h
  | visit _ hv ih =>
      rw [← List.append_assoc]
      exact ih.visit hv
  | operator _ hop hdepth ih => exact ih.operator hop hdepth

/-- The result of a walk over nodes: either none of them is at fault and all are taken, or the
first one that is at fault gives the error and those before it are taken. -/
inductive Walked (scope : Scope) (d : Draft π σ) (visits : List Visit) :
    Except CompileError Ty × Draft π σ → Prop
  | done {type : Ty} {d₁ : Draft π σ} (hsound : ∀ v ∈ visits, v.fault? scope = none)
      (hemits : Emits scope d visits d₁) : Walked scope d visits (.ok type, d₁)
  | stopped (before : List Visit) (v : Visit) (after : List Visit) {fault : CompileError}
      {d₁ : Draft π σ} (hvisits : visits = before ++ v :: after)
      (hsound : ∀ v ∈ before, v.fault? scope = none)
      (hfault : v.fault? scope = some fault) (hemits : Emits scope d before d₁) :
      Walked scope d visits (.error fault, d₁)

/-- A walk goes on after nodes that are not at fault. -/
theorem Walked.after (h : Walked scope d₁ rest result)
    (hsound : ∀ v ∈ visits, v.fault? scope = none) (hemits : Emits scope d visits d₁) :
    Walked scope d (visits ++ rest) result := by
  cases h with
  | done hrest hemits' =>
      refine .done ?_ (hemits.trans hemits')
      intro v hv
      rcases List.mem_append.mp hv with hv | hv
      · exact hsound v hv
      · exact hrest v hv
  | stopped before v after hvisits hbefore hfault hemits' =>
      refine .stopped (visits ++ before) v after ?_ ?_ hfault (hemits.trans hemits')
      · rw [hvisits, List.append_assoc]
      · intro v hv
        rcases List.mem_append.mp hv with hv | hv
        · exact hsound v hv
        · exact hbefore v hv

/-- A walk that has stopped does not come to further nodes. -/
theorem Walked.stop (h : Walked scope d visits (.error fault, d₁)) (rest : List Visit) :
    Walked scope d (visits ++ rest) (.error fault, d₁) := by
  cases h with
  | stopped before v after hvisits hsound hfault hemits =>
      refine .stopped before v (after ++ rest) ?_ hsound hfault hemits
      rw [hvisits, List.append_assoc, List.cons_append]

/-- The result of a walk over one node that is at fault. -/
theorem walked_fault {v : Visit} (hfault : v.fault? scope = some fault) :
    Walked scope d [v] (.error fault, d) :=
  .stopped [] v [] rfl nofun hfault .refl

/-- The result of a walk over one node that is taken. -/
theorem walked_taken {v : Visit} (hsound : v.fault? scope = none) (hv : Takes scope d v d₁) :
    Walked scope d [v] (.ok type, d₁) :=
  .done (fun _ hu => List.mem_singleton.mp hu ▸ hsound) (Emits.refl.visit hv)

/-! ## Expressions -/

/-- The operands after the first are walked over one after another if each of them is, on top of
the value that is on the stack. -/
theorem walked_emitRest (hop : op ∈ scope.registry.operators) (harity : op.arity = 2)
    {operands : List Expr}
    (ih : ∀ e ∈ operands, ∀ d : Draft π σ, Walked scope d e.visits (emit scope d e))
    (hdepth : 1 ≤ d.depth) (type : Ty) :
    Walked scope d (Expr.visitsAll operands) (emitRest scope op type d operands) := by
  induction operands generalizing d type with
  | nil =>
      rw [emitRest, Expr.visitsAll]
      exact .done (fun _ hv => absurd hv List.not_mem_nil) .refl
  | cons operand operands ihrest =>
      have hoperand := ih operand List.mem_cons_self d
      rw [emitRest, Expr.visitsAll]
      rcases hemit : emit scope d operand with ⟨fault | right, d₁⟩ <;> rw [hemit] at hoperand
      · exact hoperand.stop _
      · obtain ⟨hdepth₁, _⟩ := depth_of_emit hemit
        cases hoperand with
        | done hsound hemits =>
            refine Walked.after (ihrest (fun e he => ih e (List.mem_cons_of_mem _ he)) ?_ _) hsound
              (hemits.operator hop (by omega))
            simp only [depth_pushOperator]
            omega

/-- The operands of a form are walked over if each of them is. The operator is applied to the only
operand, or to the value so far and each operand after the first. -/
theorem walked_operands {name : String} {first : Expr} {rest : List Expr}
    (hresolve : scope.registry.resolve name (rest.length + 1) = some op)
    (ih : ∀ e ∈ first :: rest, ∀ d : Draft π σ, Walked scope d e.visits (emit scope d e)) :
    Walked scope d (first.visits ++ Expr.visitsAll rest)
      (emit scope d (.node .parenthesis name (first :: rest))) := by
  obtain ⟨hop, _, hcount⟩ := Registry.resolve_eq_some hresolve
  have hfirst := ih first List.mem_cons_self d
  rw [emit_form_cons hresolve]
  rcases hemit : emit scope d first with ⟨fault | type, d₁⟩ <;> rw [hemit] at hfirst
  · exact hfirst.stop _
  · obtain ⟨hdepth, _⟩ := depth_of_emit hemit
    cases hfirst with
    | done hsound hemits =>
        rcases Registry.arity_eq hop with harity | harity
        · -- A unary operator is found only for one operand.
          have hnil : rest = [] := List.length_eq_zero_iff.mp (by omega)
          subst hnil
          simp only [if_pos harity, emitRest, Expr.visitsAll, List.append_nil]
          exact .done hsound (hemits.operator hop (by omega))
        · simp only [harity, if_neg (by decide : ¬(2 = 1))]
          refine Walked.after (walked_emitRest hop harity ?_ (by omega) type) hsound hemits
          exact fun e he => ih e (List.mem_cons_of_mem _ he)

/-- A form is walked over if its operands are: first comes the form itself, which is at fault if there
is no operator for so many operands. -/
theorem walked_form {name : String} {operands : List Expr}
    (ih : ∀ e ∈ operands, ∀ d : Draft π σ, Walked scope d e.visits (emit scope d e)) :
    Walked scope d (Expr.visits (.node .parenthesis name operands))
      (emit scope d (.node .parenthesis name operands)) := by
  rw [Expr.visits]
  cases hresolve : scope.registry.resolve name operands.length with
  | none =>
      rw [emit_form_of_unknown (.inl hresolve)]
      exact (walked_fault (by simp [Visit.fault?, hresolve])).stop _
  | some op =>
      have hsound : Visit.fault? scope ⟨.parenthesis, name, operands.length⟩ = none := by
        simp [Visit.fault?, hresolve]
      cases operands with
      | nil =>
          obtain ⟨hop, _, hcount⟩ := Registry.resolve_eq_some hresolve
          have harity := Registry.arity_eq hop
          rw [List.length_nil] at hcount
          omega
      | cons first rest =>
          rw [Expr.visitsAll]
          exact Walked.after (walked_operands hresolve ih)
            (fun v hv => List.mem_singleton.mp hv ▸ hsound) (Emits.refl.visit (.form _ _))

/-- An atom is one node, which is at fault or is taken. -/
theorem walked_atom {kind : Kind} (hkind : kind ≠ .parenthesis) (text : String)
    (children : List Expr) :
    Walked scope d [⟨kind, text, 0⟩] (emit scope d (.node kind text children)) := by
  cases kind with
  | parenthesis => exact absurd rfl hkind
  | bool =>
      rw [emit, emitBool]
      exact walked_taken rfl (.value (show Ty.bool ≠ .string by decide) _ _)
  | int =>
      rw [emit, emitInteger]
      rcases hint : Literal.integer text.toList with (_ | _) | bits
      · exact walked_fault (by simp [Visit.fault?, hint])
      · exact walked_fault (by simp [Visit.fault?, hint])
      · exact walked_taken (by simp [Visit.fault?, hint])
          (.value (show Ty.int ≠ .string by decide) _ _)
  | float =>
      rw [emit, emitFloat]
      cases hfloat : Literal.decimal? text.toList with
      | none => exact walked_fault (by simp [Visit.fault?, hfloat])
      | some value =>
          exact walked_taken (by simp [Visit.fault?, hfloat])
            (.value (show Ty.float ≠ .string by decide) _ _)
  | string =>
      rw [emit, emitText]
      by_cases hsize : textSizeLimit ≤ text.utf8ByteSize
      · rw [if_pos hsize]
        exact walked_fault (by simp [Visit.fault?, hsize])
      · rw [if_neg hsize]
        exact walked_taken (by simp [Visit.fault?, hsize]) (.text (Nat.lt_of_not_le hsize))
  | symbol =>
      rw [emit, emitSymbol]
      cases hname : scope.symbols.lookup text with
      | none => exact walked_fault (by simp [Visit.fault?, hname])
      | some type => exact walked_taken (by simp [Visit.fault?, hname]) (.symbol hname)

/-- **The compiler walks over an expression up to its first fault.** -/
theorem walked_emit (scope : Scope) (e : Expr) (d : Draft π σ) :
    Walked scope d e.visits (emit scope d e) := by
  induction e using Expr.induction generalizing d with
  | h kind text children ih =>
      by_cases hkind : kind = .parenthesis
      · subst hkind
        exact walked_form ih
      · rw [Expr.visits_atom hkind]
        exact walked_atom hkind text children

/-- What compiling an expression adds comes from the nodes that are taken. -/
theorem emits_taken (scope : Scope) (e : Expr) (d : Draft π σ) :
    Emits scope d (e.taken scope) (emit scope d e).2 := by
  rcases hemit : emit scope d e with ⟨outcome, d₁⟩
  have hwalked := walked_emit scope e d
  rw [hemit] at hwalked
  rw [Expr.taken]
  cases hwalked with
  | done hsound hemits =>
      rw [List.takeWhile_eq_self_iff.mpr fun v hv => decide_eq_true (hsound v hv)]
      exact hemits
  | stopped before v after hvisits hsound hfault hemits =>
      rw [hvisits, List.takeWhile_append_of_pos fun v hv => decide_eq_true (hsound v hv)]
      simpa [hfault] using hemits

end Draft

end Formula
