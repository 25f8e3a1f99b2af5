import Formula.Proofs.Marshalling

/-!
# Forms with many operands

A binary operator takes more than two operands by being applied from left to right. So a form with
many operands is shorthand for a nesting of forms with two: the two leave a draft with the same
code and the same result, even where an operand cannot be compiled (`Draft.emit_nestLeft`), and
have the same value (`Expr.eval_nestLeft`).
-/

namespace Formula

/-- Applies an operator to an expression and an operand, then to the outcome and the next operand,
and so on. -/
def Expr.nestLeft (name : String) (first : Expr) (rest : List Expr) : Expr :=
  rest.foldl (fun left operand => .form name [left, operand]) first

@[simp]
theorem Expr.nestLeft_cons (name : String) (first second : Expr) (rest : List Expr) :
    nestLeft name first (second :: rest) = nestLeft name (.form name [first, second]) rest :=
  rfl

/-- A binary operator is that of all forms of its name with two or more operands. -/
theorem Registry.resolve_of_binary {registry : Registry} {name : String} {op : Operator}
    (h : registry.lookup name 2 = some op) {count : Nat} (hcount : 2 ≤ count) :
    registry.resolve name count = some op := by
  rcases Nat.eq_or_lt_of_le hcount with rfl | hlt
  · rw [resolve, h, Option.some_or]
  · -- No operator takes more than two operands.
    have hnone : registry.lookup name count = none := by
      rw [Option.eq_none_iff_forall_ne_some]
      intro other hother
      obtain ⟨hmem, _, harity⟩ := lookup_eq_some_iff.mp hother
      have := arity_eq hmem
      omega
    rw [resolve, hnone, Option.none_or, if_pos hlt, h]

/-! ## Compiling -/

namespace Draft

variable {scope : Scope} {name : String} {op : Operator}

/-- Goes on with what has been compiled, unless that failed. -/
def andThen (compiled : Except CompileError Ty × Draft)
    (next : Ty → Draft → Except CompileError Ty × Draft) : Except CompileError Ty × Draft :=
  match compiled with
  | (.error fault, d) => (.error fault, d)
  | (.ok type, d) => next type d

@[simp]
theorem andThen_ok (compiled : Except CompileError Ty × Draft) :
    andThen compiled (fun type d => (.ok type, d)) = compiled := by
  obtain ⟨fault | type, d⟩ := compiled
  · rfl
  · rfl

theorem andThen_assoc (compiled : Except CompileError Ty × Draft)
    (next last : Ty → Draft → Except CompileError Ty × Draft) :
    andThen (andThen compiled next) last =
      andThen compiled fun type d => andThen (next type d) last := by
  obtain ⟨fault | type, d⟩ := compiled
  · rfl
  · rfl

/-- Operands are compiled one after another. -/
theorem emitRest_cons (scope : Scope) (op : Operator) (type : Ty) (d : Draft) (operand : Expr)
    (rest : List Expr) :
    emitRest scope op type d (operand :: rest) =
      andThen (emitRest scope op type d [operand]) fun type d => emitRest scope op type d rest := by
  rw [emitRest, emitRest]
  rcases emit scope d operand with ⟨fault | right, d⟩
  · rfl
  · dsimp only
    rw [emitRest]
    rfl

/-- A form of a binary operator compiles its first operand and then the others. -/
theorem emit_form_of_binary (hop : scope.registry.lookup name 2 = some op) (d : Draft)
    (first second : Expr) (rest : List Expr) :
    emit scope d (.form name (first :: second :: rest)) =
      andThen (emit scope d first) fun type d => emitRest scope op type d (second :: rest) := by
  obtain ⟨_, _, harity⟩ := Registry.lookup_eq_some_iff.mp hop
  have hresolve : scope.registry.resolve name ((second :: rest).length + 1) = some op :=
    Registry.resolve_of_binary hop (by rw [List.length_cons]; omega)
  rw [Expr.form, emit_form_cons hresolve]
  rcases emit scope d first with ⟨fault | type, d⟩
  · rfl
  · simp only [harity, if_neg (by decide : ¬(2 = 1))]
    rfl

/-- A nesting compiles its innermost operand and then the others from the inside out. -/
theorem emit_nestLeft (hop : scope.registry.lookup name 2 = some op) (d : Draft) (first : Expr)
    (rest : List Expr) :
    emit scope d (.nestLeft name first rest) =
      andThen (emit scope d first) fun type d => emitRest scope op type d rest := by
  induction rest generalizing first with
  | nil =>
      simp only [emitRest]
      exact (andThen_ok _).symm
  | cons second rest ih =>
      rw [Expr.nestLeft_cons, ih, emit_form_of_binary hop, andThen_assoc]
      congr 1
      funext type d
      exact (emitRest_cons scope op type d second rest).symm

/-- A form compiles as its nesting does. -/
theorem emit_form_eq_emit_nestLeft (hop : scope.registry.lookup name 2 = some op) (d : Draft)
    (first second : Expr) (rest : List Expr) :
    emit scope d (.form name (first :: second :: rest)) =
      emit scope d (.nestLeft name first (second :: rest)) := by
  rw [emit_form_of_binary hop, emit_nestLeft hop]

end Draft

/-! ## Evaluating -/

namespace Expr

variable {registry : Registry} {name : String} {op : Operator}

/-- A nesting applies the operator to the values of its operands from the inside out. -/
theorem eval_nestLeft (hop : registry.lookup name 2 = some op) (env : String → Option Cell)
    (first : Expr) (rest : List Expr) :
    (nestLeft name first rest).eval registry env =
      (first.eval registry env).bind fun x =>
        (evalAll registry env rest).bind
          (List.foldlM (fun value cell => op.apply [value, cell]) x) := by
  obtain ⟨_, _, harity⟩ := Registry.lookup_eq_some_iff.mp hop
  induction rest generalizing first with
  | nil =>
      show first.eval registry env = _
      cases first.eval registry env with
      | none => rfl
      | some x => rfl
  | cons second rest ih =>
      have hresolve : registry.resolve name ([second].length + 1) = some op :=
        Registry.resolve_of_binary hop (Nat.le_refl 2)
      rw [nestLeft_cons, ih, form, eval_form_binary hresolve harity (List.cons_ne_nil _ _),
        evalAll, evalAll, evalAll]
      cases first.eval registry env with
      | none => rfl
      | some x =>
          cases second.eval registry env with
          | none => rfl
          | some y =>
              -- The others are evaluated before the operator is applied, or after it.
              cases evalAll registry env rest with
              | none => cases op.apply [x, y] <;> simp
              | some cells => simp

/-- A form has the value of its nesting. -/
theorem eval_form_eq_eval_nestLeft (hop : registry.lookup name 2 = some op)
    (env : String → Option Cell) (first second : Expr) (rest : List Expr) :
    (form name (first :: second :: rest)).eval registry env =
      (nestLeft name first (second :: rest)).eval registry env := by
  obtain ⟨_, _, harity⟩ := Registry.lookup_eq_some_iff.mp hop
  have hresolve : registry.resolve name ((second :: rest).length + 1) = some op :=
    Registry.resolve_of_binary hop (by rw [List.length_cons]; omega)
  rw [eval_nestLeft hop, form, eval_form_binary hresolve harity (List.cons_ne_nil _ _)]

end Expr

/-! ## Building and calling -/

/-- Expressions that compile alike are appended alike. -/
theorem Builder.append_congr {b : Builder} {e e' : Expr}
    (h : b.draft.emit b.scope e = b.draft.emit b.scope e') : b.append e = b.append e' := by
  rw [append, append, h]

/-- Expressions that compile alike in every draft make the same program. -/
theorem Program.compile_congr {registry : Registry} {symbols : Declarations} {e e' : Expr}
    (h : ∀ d : Draft, Draft.emit ⟨registry, symbols.typed⟩ d e =
      Draft.emit ⟨registry, symbols.typed⟩ d e') :
    Program.compile e symbols registry = Program.compile e' symbols registry := by
  unfold Program.compile Scope.declare
  cases symbols.leastInvalid? with
  | some symbol => rfl
  | none =>
      dsimp only
      rw [Builder.append_congr (h _)]

namespace Engine

variable {engine : Engine} {symbols : Declarations} {source source' : String} {f f' : Function}
  {e e' : Expr}

/-- The sources of expressions that make the same program are built alike. -/
theorem build_congr (hparse : Expr.parse source = .ok e) (hparse' : Expr.parse source' = .ok e')
    (h : Program.compile e symbols engine.registry = Program.compile e' symbols engine.registry)
    (handle : Nat) : engine.build handle source symbols = engine.build handle source' symbols := by
  simp only [build_eq, hparse, hparse', h]

/-- The handle does not matter for what is built. -/
theorem build_handle (engine : Engine) (handle handle' : Nat) (source : String)
    (symbols : Declarations) :
    engine.build handle' source symbols =
      (engine.build handle source symbols).map fun f => { f with handle := some handle' } := by
  rw [build_eq, build_eq]
  simp only [load_eq]
  cases Expr.parse source with
  | error fault => rfl
  | ok e =>
      dsimp only
      cases Program.compile e symbols engine.registry with
      | error fault => rfl
      | ok p =>
          dsimp only
          cases engine.generator.generate p.words p.slotTags p.constants.text? with
          | none => rfl
          | some script => rfl

/-- Functions that were built of one source under different handles are called alike. -/
theorem call_of_build_eq {handle handle' : Nat}
    (hbuild : engine.build handle source symbols = .ok f)
    (hbuild' : engine.build handle' source symbols = .ok f') (args : Arguments) :
    f.call args = f'.call args := by
  rw [Function.call_of_live (isReleased_of_build hbuild),
    Function.call_of_live (isReleased_of_build hbuild')]
  rw [build_handle engine handle, hbuild] at hbuild'
  cases hbuild'
  rfl

end Engine

/-- **A form with many operands is a nesting to the left.** If there is a binary operator of a name,
then a form of the name with two or more operands and the nesting of forms with two compile alike
in every draft: to the same type or with the same error, and with the same code, parameters, texts
and heights so far. So a builder takes them alike, they make the same program, and they have the
same value in every environment. Their sources are built alike, and calls of the functions have
the same outcome on all arguments. -/
theorem Registry.form_interchangeable_nestLeft {registry : Registry} {name : String} {op : Operator}
    (hop : registry.lookup name 2 = some op) (first second : Expr) (rest : List Expr) :
    (∀ symbols (d : Draft), Draft.emit ⟨registry, symbols⟩ d (.form name (first :: second :: rest)) =
      Draft.emit ⟨registry, symbols⟩ d (.nestLeft name first (second :: rest))) ∧
    (∀ b : Builder, b.scope.registry = registry →
      b.append (.form name (first :: second :: rest)) =
        b.append (.nestLeft name first (second :: rest))) ∧
    (∀ symbols, Program.compile (.form name (first :: second :: rest)) symbols registry =
      Program.compile (.nestLeft name first (second :: rest)) symbols registry) ∧
    (∀ env, (Expr.form name (first :: second :: rest)).eval registry env =
      (Expr.nestLeft name first (second :: rest)).eval registry env) ∧
    (∀ engine : Engine, engine.registry = registry → ∀ source source' symbols,
      Expr.parse source = .ok (.form name (first :: second :: rest)) →
      Expr.parse source' = .ok (.nestLeft name first (second :: rest)) →
      (∀ handle, engine.build handle source symbols = engine.build handle source' symbols) ∧
      ∀ handle handle' f f', engine.build handle source symbols = .ok f →
        engine.build handle' source' symbols = .ok f' → ∀ args, f.call args = f'.call args) := by
  have hemit (symbols : List (String × Ty)) (d : Draft) :
      Draft.emit ⟨registry, symbols⟩ d (.form name (first :: second :: rest)) =
        Draft.emit ⟨registry, symbols⟩ d (.nestLeft name first (second :: rest)) := by
    apply Draft.emit_form_eq_emit_nestLeft
    exact hop
  have hcompile (symbols : Declarations) :=
    Program.compile_congr (hemit symbols.typed)
  refine ⟨hemit, ?_, hcompile, ?_, ?_⟩
  · rintro b rfl
    exact Builder.append_congr (hemit b.scope.symbols b.draft)
  · intro env
    exact Expr.eval_form_eq_eval_nestLeft hop env first second rest
  · rintro engine rfl source source' symbols hparse hparse'
    have hbuild := Engine.build_congr hparse hparse' (hcompile symbols)
    refine ⟨hbuild, ?_⟩
    intro handle handle' f f' hf hf'
    rw [← hbuild] at hf'
    exact Engine.call_of_build_eq hf hf'

/-- A difference of three, in two spellings; and one whose second operand is not declared, so that
only the first is compiled. -/
theorem Registry.form_interchangeable_nestLeft_difference :
    (∀ handle, Engine.standard.build handle "(- 7 x 2)" [("x", .int)] =
      Engine.standard.build handle "(- (- 7 x) 2)" [("x", .int)]) ∧
    (∀ b : Builder, b.scope.registry = .builtin →
      b.append (.form "-" [.atom .symbol "x", .atom .symbol "y", .atom .int "2"]) =
        b.append (.form "-" [.form "-" [.atom .symbol "x", .atom .symbol "y"], .atom .int "2"])) ∧
    (Draft.emit ⟨.builtin, [("x", .int)]⟩ .empty
      (.form "-" [.atom .symbol "x", .atom .symbol "y", .atom .int "2"])).1 =
        .error (.undeclaredSymbol "y") ∧
    (Draft.emit ⟨.builtin, [("x", .int)]⟩ .empty
      (.form "-" [.atom .symbol "x", .atom .symbol "y", .atom .int "2"])).2.code = #[⟨5, 0⟩] := by
  obtain ⟨op, hop⟩ : ∃ op, Registry.builtin.lookup "-" 2 = some op :=
    Option.isSome_iff_exists.mp (by decide +kernel)
  refine ⟨?_, ?_, by decide +kernel, by decide +kernel⟩
  · obtain ⟨_, _, _, _, hbuild⟩ := form_interchangeable_nestLeft hop (.atom .int "7")
      (.atom .symbol "x") [.atom .int "2"]
    exact (hbuild Engine.standard rfl "(- 7 x 2)" "(- (- 7 x) 2)" [("x", .int)]
      (by decide +kernel) (by decide +kernel)).1
  · exact (form_interchangeable_nestLeft hop (.atom .symbol "x") (.atom .symbol "y")
      [.atom .int "2"]).2.1

end Formula
