import Formula.Proofs.Draft
import Mathlib.Order.MinMax

/-!
# Types and stack needs of expressions

The type of an expression follows from the kinds of its atoms, the declared types of its symbols
and the result rules of its operators (`Expr.ty?`). Beside it stand the applications of operators
that the expression stands for (`Expr.applications`) and the height of the stack that it needs
(`Expr.need`). The compiler finds the same type (`ty?_of_emit`) and the same height
(`depth_of_emit`).
-/

namespace Formula

/-! ## Forms -/

namespace Operator

/-- The type of the value so far, after the operator has been applied to it and each of further
operands in turn. -/
def typeFrom (op : Operator) (type : Ty) (rest : List Ty) : Ty :=
  rest.foldl (fun type right => op.result.resultType [type, right]) type

/-- The operand types of these applications. -/
def applicationsFrom (op : Operator) (type : Ty) : List Ty → List (List Ty)
  | [] => []
  | right :: rest =>
    [type, right] :: op.applicationsFrom (op.result.resultType [type, right]) rest

/-- The type of a form with operands of given types: the operator is applied to as many operands
as it takes, and then to the value so far and each further operand. -/
def formType (op : Operator) (types : List Ty) : Ty :=
  op.typeFrom (op.result.resultType (types.take op.arity)) (types.drop op.arity)

/-- The operand types of the applications that a form stands for. -/
def applications (op : Operator) (types : List Ty) : List (List Ty) :=
  types.take op.arity ::
    op.applicationsFrom (op.result.resultType (types.take op.arity)) (types.drop op.arity)

variable {op : Operator}

/-- A unary operator is applied once. -/
theorem formType_unary (harity : op.arity = 1) (type : Ty) :
    op.formType [type] = op.result.resultType [type] ∧ op.applications [type] = [[type]] := by
  simp [formType, applications, harity, typeFrom, applicationsFrom]

/-- A binary operator is applied to the first operand and the others in turn. -/
theorem formType_binary (harity : op.arity = 2) (type : Ty) {rest : List Ty} (hrest : rest ≠ []) :
    op.formType (type :: rest) = op.typeFrom type rest ∧
      op.applications (type :: rest) = op.applicationsFrom type rest := by
  cases rest with
  | nil => exact absurd rfl hrest
  | cons right rest => simp [formType, applications, harity, typeFrom, applicationsFrom]

/-- After the first application there are two operands each time. -/
theorem length_of_mem_applicationsFrom {type : Ty} {rest operands : List Ty}
    (h : operands ∈ op.applicationsFrom type rest) : operands.length = 2 := by
  induction rest generalizing type with
  | nil => cases h
  | cons right rest ih =>
      rw [applicationsFrom, List.mem_cons] at h
      rcases h with rfl | h
      · rfl
      · exact ih h

/-- An operator is applied to as many operands as it takes, if there are that many, or more and it
takes two. -/
theorem length_of_mem_applications {types operands : List Ty}
    (hcount : op.arity = types.length ∨ op.arity = 2 ∧ 2 < types.length)
    (h : operands ∈ op.applications types) : operands.length = op.arity := by
  rw [applications, List.mem_cons] at h
  rcases h with rfl | h
  · rw [List.length_take]
    omega
  · rcases hcount with hcount | ⟨harity, _⟩
    · rw [hcount, List.drop_length] at h
      cases h
    · rw [harity]
      exact length_of_mem_applicationsFrom h

end Operator

/-! ## Expressions -/

namespace Expr

mutual

/-- The type of an expression, if its symbols are declared and its operators are there. -/
def ty? (scope : Scope) : Expr → Option Ty
  | node .bool _ _ => some .bool
  | node .int _ _ => some .int
  | node .float _ _ => some .float
  | node .string _ _ => some .string
  | node .symbol name _ => scope.symbols.lookup name
  | node .parenthesis name operands => do
    let op ← scope.registry.resolve name operands.length
    let types ← tys? scope operands
    some (op.formType types)

/-- The types of expressions, all of which must have one. -/
def tys? (scope : Scope) : List Expr → Option (List Ty)
  | [] => some []
  | e :: es => do
    let type ← ty? scope e
    let types ← tys? scope es
    some (type :: types)

end

mutual

/-- The applications of operators that an expression stands for, each with the types of its
operands. -/
def applications (scope : Scope) : Expr → List (Operator × List Ty)
  | node .parenthesis name operands =>
    match scope.registry.resolve name operands.length, tys? scope operands with
    | some op, some types =>
      applicationsAll scope operands ++ (op.applications types).map fun types => (op, types)
    | _, _ => applicationsAll scope operands
  | _ => []

/-- The applications of operators that several expressions stand for. -/
def applicationsAll (scope : Scope) : List Expr → List (Operator × List Ty)
  | [] => []
  | e :: es => applications scope e ++ applicationsAll scope es

end

mutual

/-- The height of the stack that an expression needs. Each operand but the first is computed on
top of one value. -/
def need : Expr → Nat
  | node .parenthesis _ (first :: rest) => max (need first) (needRest rest)
  | node _ _ _ => 1

/-- The height of the stack that the operands after the first need. -/
def needRest : List Expr → Nat
  | [] => 0
  | e :: es => max (1 + need e) (needRest es)

end

/-- Every expression needs room for its value. -/
theorem need_pos (e : Expr) : 1 ≤ e.need := by
  induction e using Expr.induction with
  | h kind text children ih =>
      unfold need
      split
      · rename_i first rest heq
        cases heq
        exact le_max_of_le_left (ih first List.mem_cons_self)
      · exact le_refl 1

/-- The types of an expression and others. -/
theorem tys?_cons {scope : Scope} {e : Expr} {es : List Expr} {type : Ty} {types : List Ty}
    (he : e.ty? scope = some type) (hes : tys? scope es = some types) :
    tys? scope (e :: es) = some (type :: types) := by
  rw [tys?, he, hes]
  rfl

/-- There are as many types as expressions. -/
theorem length_of_tys? {scope : Scope} {es : List Expr} {types : List Ty}
    (h : tys? scope es = some types) : types.length = es.length := by
  induction es generalizing types with
  | nil =>
      cases h
      rfl
  | cons e es ih =>
      rw [tys?] at h
      obtain ⟨type, _, h⟩ := Option.bind_eq_some_iff.mp h
      obtain ⟨rest, hrest, h⟩ := Option.bind_eq_some_iff.mp h
      cases h
      rw [List.length_cons, List.length_cons, ih hrest]

/-- If there are expressions, there are types. -/
theorem ne_nil_of_tys? {scope : Scope} {es : List Expr} {types : List Ty} (hes : es ≠ [])
    (h : tys? scope es = some types) : types ≠ [] := by
  have hlength := length_of_tys? h
  have hpos := List.length_pos_iff.mpr hes
  exact List.length_pos_iff.mp (by omega)

/-- A form has a type if it has an operator and its operands have types. -/
theorem ty?_form {scope : Scope} {name : String} {operands : List Expr} {op : Operator}
    {types : List Ty} (hresolve : scope.registry.resolve name operands.length = some op)
    (htypes : tys? scope operands = some types) :
    (node .parenthesis name operands).ty? scope = some (op.formType types) := by
  rw [ty?, hresolve, htypes]
  rfl

/-- A form stands for the applications in its operands and those of its operator. -/
theorem applications_form {scope : Scope} {name : String} {operands : List Expr} {op : Operator}
    {types : List Ty} (hresolve : scope.registry.resolve name operands.length = some op)
    (htypes : tys? scope operands = some types) :
    (node .parenthesis name operands).applications scope =
      applicationsAll scope operands ++ (op.applications types).map fun types => (op, types) := by
  rw [applications, hresolve, htypes]

/-- The applications in several expressions are those in each of them. -/
theorem mem_applicationsAll {scope : Scope} {es : List Expr} {a : Operator × List Ty} :
    a ∈ applicationsAll scope es ↔ ∃ e ∈ es, a ∈ e.applications scope := by
  induction es with
  | nil => simp [applicationsAll]
  | cons e es ih => simp [applicationsAll, ih]

/-- The operators that are applied are those of the registry, each to as many operands as it
takes. -/
theorem of_mem_applications {scope : Scope} {e : Expr} {a : Operator × List Ty}
    (h : a ∈ e.applications scope) :
    a.1 ∈ scope.registry.operators ∧ a.2.length = a.1.arity := by
  induction e using Expr.induction with
  | h kind text children ih =>
      have hall (hmem : a ∈ applicationsAll scope children) :
          a.1 ∈ scope.registry.operators ∧ a.2.length = a.1.arity := by
        obtain ⟨e, he, ha⟩ := mem_applicationsAll.mp hmem
        exact ih e he ha
      cases kind with
      | bool | int | float | string | symbol => cases h
      | parenthesis =>
          rw [applications] at h
          split at h
          · rename_i op types hresolve htypes
            rcases List.mem_append.mp h with h | h
            · exact hall h
            · obtain ⟨operands, hoperands, rfl⟩ := List.mem_map.mp h
              obtain ⟨hop, _, hcount⟩ := Registry.resolve_eq_some hresolve
              rw [← length_of_tys? htypes] at hcount
              exact ⟨hop, Operator.length_of_mem_applications hcount hoperands⟩
          · exact hall h

end Expr

/-! ## Successful compilations -/

namespace Draft

variable {π σ : Type} {scope : Scope} {d d' : Draft π σ} {op : Operator} {type type' : Ty}

/-- The operands after the first have been compiled, each followed by the operator. `P` holds of
each operand with the drafts before and after it and its type. -/
inductive Folds (P : Draft π σ → Expr → Ty → Draft π σ → Prop) (op : Operator) :
    Ty → Draft π σ → List Expr → Ty → Draft π σ → Prop
  | nil (type : Ty) (d : Draft π σ) : Folds P op type d [] type d
  | cons {type right type' : Ty} {d d₁ d' : Draft π σ} {operand : Expr} {rest : List Expr}
      (hoperand : P d operand right d₁)
      (hrest : Folds P op (op.result.resultType [type, right]) (d₁.pushOperator op) rest type' d') :
      Folds P op type d (operand :: rest) type' d'

/-- What follows for each operand may be put in place of `P`. -/
theorem Folds.imp {P Q : Draft π σ → Expr → Ty → Draft π σ → Prop} {rest : List Expr}
    (h : Folds P op type d rest type' d')
    (hPQ : ∀ {d e type d'}, P d e type d' → Q d e type d') : Folds Q op type d rest type' d' := by
  induction h with
  | nil type d => exact .nil type d
  | cons hoperand _ ih => exact .cons (hPQ hoperand) ih

/-- Operands that have been compiled have types, and the value so far has the type that follows
from them. -/
theorem Folds.exists_tys? {rest : List Expr}
    (h : Folds (fun _ e type _ => e.ty? scope = some type) op type d rest type' d') :
    ∃ types, Expr.tys? scope rest = some types ∧ type' = op.typeFrom type types := by
  induction h with
  | nil => exact ⟨[], rfl, rfl⟩
  | @cons type right _ _ _ _ _ _ hoperand _ ih =>
      obtain ⟨types, htypes, rfl⟩ := ih
      exact ⟨right :: types, Expr.tys?_cons hoperand htypes, rfl⟩

/-- Operands after the first leave the stack as high as it was with the first value on it, and
need as much room above that value as they are said to. -/
theorem Folds.depth {rest : List Expr} {below : Nat}
    (h : Folds (fun d e _ d' =>
      d'.depth = d.depth + 1 ∧ d'.maxDepth = max d.maxDepth (d.depth + e.need))
      op type d rest type' d')
    (harity : op.arity = 2) (hdepth : d.depth = below + 1) (hbelow : below ≤ d.maxDepth) :
    d'.depth = below + 1 ∧ d'.maxDepth = max d.maxDepth (below + Expr.needRest rest) := by
  induction h with
  | nil => exact ⟨hdepth, (max_eq_left hbelow).symm⟩
  | @cons type right type' d d₁ d' operand rest hoperand _ ih =>
      obtain ⟨hdepth₁, hmaxDepth₁⟩ := hoperand
      have hpop : (d₁.pushOperator op).depth = below + 1 := by
        simp only [depth_pushOperator, harity]
        omega
      have hroom : (d₁.pushOperator op).maxDepth = max d.maxDepth (below + (1 + operand.need)) := by
        simp only [maxDepth_pushOperator, hmaxDepth₁, hdepth]
        omega
      obtain ⟨hdepth', hmaxDepth'⟩ := ih hpop (by omega)
      refine ⟨hdepth', ?_⟩
      rw [hmaxDepth', hroom, Expr.needRest]
      omega

variable [SlotStore π] [TextStore σ]

/-- Operands that compile have been compiled one after another. -/
theorem folds_of_emitRest {P : Draft π σ → Expr → Ty → Draft π σ → Prop} {rest : List Expr}
    (hP : ∀ e ∈ rest, ∀ {d type d'}, emit scope d e = (.ok type, d') → P d e type d')
    (h : emitRest scope op type d rest = (.ok type', d')) : Folds P op type d rest type' d' := by
  induction rest generalizing d type with
  | nil =>
      rw [emitRest] at h
      cases h
      exact .nil _ _
  | cons operand rest ih =>
      obtain ⟨right, d₁, hemit, hrest⟩ := emitRest_cons_eq_ok_iff.mp h
      exact .cons (hP operand List.mem_cons_self hemit)
        (ih (fun e he => hP e (List.mem_cons_of_mem _ he)) hrest)

/-- What holds of atoms, and of forms if it holds of their operands, holds of every expression
that compiles. -/
theorem emit_induction {P : Draft π σ → Expr → Ty → Draft π σ → Prop}
    (value : ∀ (d : Draft π σ) {type : Ty} (text : String) (children : List Expr) (word : UInt64),
      type ≠ .string → P d (.node type.kind text children) type
        (d.pushOperand (.ofKind type.kind word)))
    (text : ∀ (d : Draft π σ) (text : String) (children : List Expr),
      P d (.node .string text children) .string
        (d.pushText text))
    (symbol : ∀ (d : Draft π σ) (name : String) (children : List Expr) {type : Ty},
      scope.symbols.lookup name = some type →
      P d (.node .symbol name children) type
        (d.pushSymbol name type))
    (unary : ∀ {d d₁ : Draft π σ} {name : String} {first : Expr} {op : Operator} {type : Ty},
      scope.registry.resolve name 1 = some op → op.arity = 1 →
      emit scope d first = (.ok type, d₁) → P d first type d₁ →
      P d (.node .parenthesis name [first]) (op.result.resultType [type]) (d₁.pushOperator op))
    (binary : ∀ {d d₁ d' : Draft π σ} {name : String} {first : Expr} {rest : List Expr}
      {op : Operator} {type type' : Ty},
      scope.registry.resolve name (rest.length + 1) = some op → op.arity = 2 → rest ≠ [] →
      emit scope d first = (.ok type, d₁) → P d first type d₁ →
      Folds (fun d e type d' => emit scope d e = (.ok type, d') ∧ P d e type d') op type d₁ rest
        type' d' →
      P d (.node .parenthesis name (first :: rest)) type' d')
    {e : Expr} (h : emit scope d e = (.ok type, d')) : P d e type d' := by
  induction e using Expr.induction generalizing d type d' with
  | h kind word children ih =>
      cases kind with
      | parenthesis =>
          obtain ⟨op, first, rest, type₁, d₁, rfl, hresolve, hemit, hcases⟩ := emit_form_eq_ok h
          have hfirst := ih first List.mem_cons_self hemit
          rcases hcases with ⟨harity, rfl, rfl, rfl⟩ | ⟨harity, hrest, hemitRest⟩
          · exact unary hresolve harity hemit hfirst
          · refine binary hresolve harity hrest hemit hfirst (folds_of_emitRest ?_ hemitRest)
            intro e he d type d' hemit
            exact ⟨hemit, ih e (List.mem_cons_of_mem _ he) hemit⟩
      | bool =>
          rw [emit, emitBool] at h
          cases h
          exact @value d .bool _ _ _ (by decide)
      | int =>
          rw [emit, emitInteger] at h
          rcases hint : Literal.integer word.toList with (_ | _) | bits <;> rw [hint] at h <;>
            cases h
          exact @value d .int _ _ _ (by decide)
      | float =>
          rw [emit, emitFloat] at h
          rcases hfloat : Literal.decimal? word.toList with _ | x <;> rw [hfloat] at h <;> cases h
          exact @value d .float _ _ _ (by decide)
      | string =>
          rw [emit, emitText] at h
          split at h <;> cases h
          exact text d word children
      | symbol =>
          rw [emit, emitSymbol] at h
          cases hname : scope.symbols.lookup word with
          | none =>
              rw [hname] at h
              cases h
          | some type₁ =>
              rw [hname] at h
              cases h
              exact symbol d word children hname

/-- The compiler finds the type of an expression. -/
theorem ty?_of_emit {e : Expr} (h : emit scope d e = (.ok type, d')) :
    e.ty? scope = some type := by
  refine emit_induction (P := fun _ e type _ => e.ty? scope = some type) ?_ ?_ ?_ ?_ ?_ h
  · intro d type text children word htype
    cases type with
    | bool | int | float => rfl
    | string => exact absurd rfl htype
  · intro d text children
    rfl
  · intro d name children type hname
    exact hname
  · intro d d₁ name first op type hresolve harity _ hfirst
    rw [Expr.ty?_form hresolve (Expr.tys?_cons hfirst rfl), (Operator.formType_unary harity type).1]
  · intro d d₁ d' name first rest op type type' hresolve harity hrest _ hfirst hfolds
    obtain ⟨types, htypes, rfl⟩ := (hfolds.imp And.right).exists_tys?
    rw [Expr.ty?_form hresolve (Expr.tys?_cons hfirst htypes),
      (Operator.formType_binary harity type (Expr.ne_nil_of_tys? hrest htypes)).1]

/-- The code of an expression leaves one value, and the stack is as high as the expression
needs. -/
theorem depth_of_emit {e : Expr} (h : emit scope d e = (.ok type, d')) :
    d'.depth = d.depth + 1 ∧ d'.maxDepth = max d.maxDepth (d.depth + e.need) := by
  refine emit_induction (P := fun d e _ d' =>
    d'.depth = d.depth + 1 ∧ d'.maxDepth = max d.maxDepth (d.depth + e.need)) ?_ ?_ ?_ ?_ ?_ h
  · intro d type text children word htype
    cases type with
    | bool | int | float => exact ⟨rfl, rfl⟩
    | string => exact absurd rfl htype
  · intro d text children
    exact ⟨rfl, rfl⟩
  · intro d name children type hname
    simp [Expr.need]
  · intro d d₁ name first op type hresolve harity _ hfirst
    simp [harity, hfirst, Expr.need, Expr.needRest]
  · intro d d₁ d' name first rest op type type' hresolve harity hrest _ hfirst hfolds
    obtain ⟨hdepth, hmaxDepth⟩ := hfirst
    have hneed := first.need_pos
    obtain ⟨hdepth', hmaxDepth'⟩ := (hfolds.imp And.right).depth harity hdepth (by omega)
    refine ⟨hdepth', ?_⟩
    rw [hmaxDepth', hmaxDepth, Expr.need]
    omega

end Draft

end Formula
