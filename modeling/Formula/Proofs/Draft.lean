import Formula.Program.Builder
import Formula.Proofs.Registry
import Mathlib.Data.List.Basic
import Mathlib.Logic.Relation

/-!
# Steps of drafts

Compiling adds one record to a draft at a time. `Draft.Step` says all that can happen then, and
compiling an expression, whether it succeeds or not, is a sequence of such steps (`emit_steps`).
What every step keeps is therefore kept by every compilation: a draft only grows (`Extends`), and
its parameters and texts stay in order (`Valid`).
-/

namespace Formula

/-- What holds of a tree when it holds of its children holds of every tree. -/
theorem Expr.induction {P : Expr → Prop}
    (h : ∀ kind text children, (∀ c ∈ children, P c) → P (.node kind text children)) :
    ∀ e, P e
  | .node kind text children => h kind text children fun c _ => Expr.induction h c

namespace Draft

section Stores

variable {π σ : Type} [SlotStore π] [TextStore σ] {scope : Scope} {d d' : Draft π σ} {op : Operator}
  {type type' : Ty} {name : String}

/-! ## One step -/

/-- All that compiling does to a draft at a time. -/
inductive Step (scope : Scope) (d : Draft π σ) : Draft π σ → Prop
  /-- A number or a truth value is put on the stack. -/
  | value {type : Ty} (htype : type ≠ .string) (word : UInt64) :
      Step scope d (d.pushOperand (.ofKind type.kind word))
  /-- A text is kept and put on the stack. -/
  | text {text : String} (hsize : text.utf8ByteSize < textSizeLimit) :
      Step scope d (d.pushText text)
  /-- A parameter is given a slot, unless it has one, and put on the stack. -/
  | symbol {name : String} {type : Ty} (hname : scope.symbols.lookup name = some type) :
      Step scope d (d.pushSymbol name type)
  /-- An operator is applied. -/
  | operator {op : Operator} (hop : op ∈ scope.registry.operators) :
      Step scope d (d.pushOperator op)

/-- Steps one after another. -/
abbrev Steps (scope : Scope) : Draft π σ → Draft π σ → Prop :=
  Relation.ReflTransGen (Step scope)

/-- Compiling a form whose operator is not found, or a form without operands, adds nothing. -/
theorem emit_form_of_unknown {operands : List Expr}
    (h : scope.registry.resolve name operands.length = none ∨ operands = []) :
    emit scope d (.node .parenthesis name operands) =
      (.error (.unknownOperator name operands.length), d) := by
  rcases h with h | rfl
  · rw [emit]
    intro op first rest hop
    rw [h] at hop
    cases hop
  · rw [emit]
    intro op first rest _ hnil
    cases hnil

/-- Compiling a form begins with its first operand. -/
theorem emit_form_cons {first : Expr} {rest : List Expr}
    (h : scope.registry.resolve name (rest.length + 1) = some op) :
    emit scope d (.node .parenthesis name (first :: rest)) =
      match emit scope d first with
      | (.error fault, d) => (.error fault, d)
      | (.ok type, d) =>
        if op.arity = 1 then
          emitRest scope op (op.result.resultType [type]) (d.pushOperator op) rest
        else emitRest scope op type d rest :=
  emit.eq_1 scope d name op first rest h

/-- Compiling the operands after the first is a sequence of steps if compiling each of them is. -/
theorem emitRest_steps (hop : op ∈ scope.registry.operators) {rest : List Expr}
    (h : ∀ e ∈ rest, ∀ d : Draft π σ, Steps scope d (emit scope d e).2) (type : Ty) (d : Draft π σ) :
    Steps scope d (emitRest scope op type d rest).2 := by
  induction rest generalizing type d with
  | nil =>
      rw [emitRest]
  | cons operand rest ih =>
      have hoperand := h operand List.mem_cons_self d
      rw [emitRest]
      rcases hemit : emit scope d operand with ⟨fault | right, d₁⟩ <;> rw [hemit] at hoperand
      · exact hoperand
      · exact (hoperand.tail (.operator hop)).trans
          (ih (fun e he => h e (List.mem_cons_of_mem _ he)) _ _)

/-- Compiling an expression is a sequence of steps, also where it fails. -/
theorem emit_steps (scope : Scope) (e : Expr) (d : Draft π σ) :
    Steps scope d (emit scope d e).2 := by
  induction e using Expr.induction generalizing d with
  | h kind text children ih =>
      cases kind with
      | parenthesis =>
          cases hresolve : scope.registry.resolve text children.length with
          | none =>
              rw [emit_form_of_unknown (.inl hresolve)]
          | some op =>
              obtain ⟨hop, _, _⟩ := Registry.resolve_eq_some hresolve
              cases children with
              | nil => rw [emit_form_of_unknown (.inr rfl)]
              | cons first rest =>
                  have hfirst := ih first List.mem_cons_self d
                  have hrest := emitRest_steps hop fun e he => ih e (List.mem_cons_of_mem _ he)
                  rw [emit_form_cons hresolve]
                  rcases hemit : emit scope d first with ⟨fault | type, d₁⟩ <;> rw [hemit] at hfirst
                  · exact hfirst
                  · by_cases harity : op.arity = 1
                    · simp only [if_pos harity]
                      exact (hfirst.tail (.operator hop)).trans (hrest _ _)
                    · simp only [if_neg harity]
                      exact hfirst.trans (hrest _ _)
      | bool =>
          rw [emit]
          exact .single (.value (show Ty.bool ≠ .string by decide) _)
      | int =>
          rw [emit, emitInteger]
          rcases Literal.integer text.toList with (_ | _) | bits
          · exact .refl
          · exact .refl
          · exact .single (.value (show Ty.int ≠ .string by decide) bits)
      | float =>
          rw [emit, emitFloat]
          rcases Literal.decimal? text.toList with _ | value
          · exact .refl
          · exact .single (.value (show Ty.float ≠ .string by decide) value.bits)
      | string =>
          rw [emit, emitText]
          by_cases hsize : textSizeLimit ≤ text.utf8ByteSize
          · rw [if_pos hsize]
          · rw [if_neg hsize]
            exact .single (.text (Nat.lt_of_not_le hsize))
      | symbol =>
          rw [emit, emitSymbol]
          cases hname : scope.symbols.lookup text with
          | none => exact .refl
          | some type => exact .single (.symbol hname)

/-! ## Successful compilations -/

/-- A form that compiles has an operator and operands. A unary operator is applied to the only
operand, and a binary one to the first operand and then to the others in turn. -/
theorem emit_form_eq_ok {operands : List Expr}
    (h : emit scope d (.node .parenthesis name operands) = (.ok type, d')) :
    ∃ op first rest type₁ d₁, operands = first :: rest ∧
      scope.registry.resolve name operands.length = some op ∧
      emit scope d first = (.ok type₁, d₁) ∧
      (op.arity = 1 ∧ rest = [] ∧ type = op.result.resultType [type₁] ∧ d' = d₁.pushOperator op ∨
        op.arity = 2 ∧ rest ≠ [] ∧ emitRest scope op type₁ d₁ rest = (.ok type, d')) := by
  cases hresolve : scope.registry.resolve name operands.length with
  | none =>
      rw [emit_form_of_unknown (.inl hresolve)] at h
      cases h
  | some op =>
      cases operands with
      | nil =>
          rw [emit_form_of_unknown (.inr rfl)] at h
          cases h
      | cons first rest =>
          rw [emit_form_cons hresolve] at h
          rcases hemit : emit scope d first with ⟨fault | type₁, d₁⟩ <;> rw [hemit] at h
          · cases h
          · refine ⟨op, first, rest, type₁, d₁, rfl, rfl, hemit, ?_⟩
            obtain ⟨hop, _, hcount⟩ := Registry.resolve_eq_some hresolve
            rw [List.length_cons] at hcount
            -- A unary operator is found only for one operand, a binary one for two or more.
            rcases Registry.arity_eq hop with harity | harity
            · have hnil : rest = [] := List.length_eq_zero_iff.mp (by omega)
              subst hnil
              simp only [if_pos harity, emitRest] at h
              cases h
              exact .inl ⟨harity, rfl, rfl, rfl⟩
            · have hrest : rest ≠ [] := List.length_pos_iff.mp (by omega)
              simp only [harity, if_neg (by decide : ¬(2 = 1))] at h
              exact .inr ⟨harity, hrest, h⟩

/-- Operands compile one after another, each followed by the operator. -/
theorem emitRest_cons_eq_ok_iff {operand : Expr} {rest : List Expr} :
    emitRest scope op type d (operand :: rest) = (.ok type', d') ↔
      ∃ right d₁, emit scope d operand = (.ok right, d₁) ∧
        emitRest scope op (op.result.resultType [type, right]) (d₁.pushOperator op) rest =
          (.ok type', d') := by
  rw [emitRest]
  rcases emit scope d operand with ⟨fault | right, d₁⟩
  · simp
  · constructor
    · intro h
      exact ⟨right, d₁, rfl, h⟩
    · rintro ⟨_, _, ⟨⟩, h⟩
      exact h

end Stores

variable {scope : Scope} {d d' : Draft} {op : Operator} {type type' : Ty} {name : String}

/-! ## What every step keeps -/

/-- What a later draft keeps of an earlier one. -/
structure Extends (d d' : Draft) : Prop where
  code : d.code.toList <+: d'.code.toList
  params : d.params.toList <+: d'.params.toList
  texts : d.constants.texts.toList <+: d'.constants.texts.toList

theorem Extends.refl (d : Draft) : Extends d d :=
  ⟨List.prefix_refl _, List.prefix_refl _, List.prefix_refl _⟩

theorem Extends.trans {d'' : Draft} (h : Extends d d') (h' : Extends d' d'') : Extends d d'' :=
  ⟨h.code.trans h'.code, h.params.trans h'.params, h.texts.trans h'.texts⟩

/-- A parameter that is new comes after those that have slots. -/
theorem params_slotOf (d : Draft) (name : String) (type : Ty) :
    (d.slotOf name type).2.params = d.params ∨
      (d.slotOf name type).2.params = d.params.push (name, type) := by
  unfold slotOf
  split
  · exact .inl rfl
  · exact .inr rfl

/-- A step keeps the code, the parameters and the texts. -/
theorem Step.extends (h : Step scope d d') : Extends d d' := by
  cases h with
  | value htype word => exact ⟨by simp, List.prefix_refl _, List.prefix_refl _⟩
  | text hsize => exact ⟨by simp, List.prefix_refl _, by simp⟩
  | @symbol name type hname =>
      refine ⟨by simp, ?_, by simp⟩
      rcases params_slotOf d name type with hparams | hparams <;> simp [hparams]
  | operator hop => exact ⟨by simp, List.prefix_refl _, List.prefix_refl _⟩

theorem extends_of_steps (h : Steps scope d d') : Extends d d' := by
  induction h with
  | refl => exact .refl d
  | tail _ hstep ih => exact ih.trans hstep.extends

/-- Drafts in which parameters have the types that they are declared with and every text has a
record that refers to it. -/
structure Valid (scope : Scope) (d : Draft) : Prop where
  declared : ∀ param ∈ d.params.toList, scope.symbols.lookup param.1 = some param.2
  referred : ∀ k < d.constants.size, Record.ofKind .string (addressOf k) ∈ d.code.toList

theorem valid_empty (scope : Scope) : Valid scope .empty :=
  ⟨fun _ h => absurd h List.not_mem_nil, fun _ h => absurd h (Nat.not_lt_zero _)⟩

/-- A step leads from valid drafts to valid drafts. -/
theorem Step.valid (h : Step scope d d') (hd : Valid scope d) : Valid scope d' := by
  have hreferred : ∀ k < d.constants.size, Record.ofKind .string (addressOf k) ∈ d'.code.toList :=
    fun k hk => h.extends.code.subset (hd.referred k hk)
  cases h with
  | value htype word => exact ⟨hd.declared, hreferred⟩
  | text hsize =>
      refine ⟨hd.declared, ?_⟩
      intro k hk
      rcases Nat.lt_succ_iff_lt_or_eq.mp (by simpa using hk) with hk | rfl
      · exact hreferred k hk
      · simp [TextPool.nextAddress]
  | @symbol name type hname =>
      refine ⟨?_, fun k hk => hreferred k (by simpa using hk)⟩
      intro param hparam
      rcases params_slotOf d name type with hparams | hparams
      · exact hd.declared param (by simpa [hparams] using hparam)
      · have hmem : param ∈ d.params.toList ++ [(name, type)] := by
          simpa [hparams] using hparam
        rcases List.mem_append.mp hmem with hmem | hmem
        · exact hd.declared param hmem
        · obtain rfl := List.mem_singleton.mp hmem
          exact hname
  | operator hop => exact ⟨hd.declared, hreferred⟩

theorem valid_of_steps (h : Steps scope d d') (hd : Valid scope d) : Valid scope d' := by
  induction h with
  | refl => exact hd
  | tail _ hstep ih => exact hstep.valid ih

/-! ## Slots -/

theorem slotTypes_eq (d : Draft) : d.slotTypes = d.params.toList.map Prod.snd := rfl

theorem slots_eq (d : Draft) :
    d.slots = d.params.toList.zipIdx.map fun (param, slot) => (param.1, slot) := rfl

/-- The slot of a name is the place of the first parameter that has it. -/
theorem lookup_slots (d : Draft) (name : String) :
    d.slots.lookup name = d.params.toList.findIdx? (·.1 == name) := by
  have hfrom (params : List (String × Ty)) (n : Nat) :
      ((params.zipIdx n).map fun param => (param.1.1, param.2)).lookup name =
        (params.findIdx? (·.1 == name)).map (· + n) := by
    induction params generalizing n with
    | nil => rfl
    | cons param params ih =>
        rw [List.zipIdx_cons, List.map_cons, List.lookup_cons, List.findIdx?_cons, ih]
        by_cases h : param.1 = name
        · simp [h]
        · have h' : (name == param.1) = false := by simpa using Ne.symm h
          simp [h, h', Function.comp_def, Nat.add_comm, Nat.add_left_comm]
  have hslots : d.slots = (d.params.toList.zipIdx 0).map fun param => (param.1.1, param.2) := rfl
  rw [hslots, hfrom]
  simp

/-- A name takes the slot of the first parameter that has it, or else the next one. -/
theorem slotOf_eq (d : Draft) (name : String) (type : Ty) :
    d.slotOf name type =
      match d.params.toList.findIdx? (·.1 == name) with
      | some slot => (slot, d)
      | none =>
        (d.params.size,
          { d with
            params := d.params.push (name, type)
            textSlotCount := if type = .string then d.textSlotCount + 1 else d.textSlotCount }) := by
  have hlist : d.params.findIdx? (·.1 == name) = d.params.toList.findIdx? (·.1 == name) := by
    rw [← List.findIdx?_toArray, Array.toArray_toList]
  rw [← hlist]
  rfl

/-- A name has a slot from then on. -/
theorem findIdx?_slotOf {slot : Nat} (h : d.slotOf name type = (slot, d')) :
    d'.params.toList.findIdx? (·.1 == name) = some slot := by
  rw [slotOf_eq] at h
  split at h
  · rename_i hfound
    cases h
    exact hfound
  · rename_i hnew
    cases h
    simp [List.findIdx?_append, hnew]

/-- If parameters have the types that they are declared with, then a name that has a slot is
declared, and the slot has the declared type. -/
theorem exists_declared_of_lookup {slot : Nat}
    (hdeclared : ∀ param ∈ d.params.toList, scope.symbols.lookup param.1 = some param.2)
    (h : d.slots.lookup name = some slot) :
    ∃ type, scope.symbols.lookup name = some type ∧ d.slotTypes[slot]? = some type := by
  rw [lookup_slots] at h
  obtain ⟨hlt, hsame, _⟩ := List.findIdx?_eq_some_iff_getElem.mp h
  have hname := hdeclared _ (List.getElem_mem hlt)
  rw [beq_iff_eq.mp hsame] at hname
  refine ⟨_, hname, ?_⟩
  rw [slotTypes_eq, List.getElem?_map, List.getElem?_eq_getElem hlt, Option.map_some]

/-- In a valid draft a name that has a slot is declared, and the slot has the declared type. -/
theorem Valid.exists_declared (hd : Valid scope d) {slot : Nat}
    (h : d.slots.lookup name = some slot) :
    ∃ type, scope.symbols.lookup name = some type ∧ d.slotTypes[slot]? = some type :=
  exists_declared_of_lookup hd.declared h

/-! ## Programs -/

/-- The program of a draft whose last value has a type. Its first record is marked if that type
is float. -/
def toProgram (d : Draft) (type : Ty) : Program where
  code := if type = .float then d.code.modify 0 Record.markFloat else d.code
  slots := d.slots
  slotTypes := d.slotTypes
  maxStackBytes := d.maxStackBytes
  returnsFloat := type == .float
  constants := d.constants

end Draft

deriving instance DecidableEq for Program

/-- The program of a builder whose only expression has been compiled. -/
@[simp]
theorem Builder.toProgram_eq (scope : Scope) (d : Draft) (type : Ty) :
    Builder.toProgram ⟨scope, d, some type, false⟩ = d.toProgram type := by
  cases type <;> rfl

/-- An expression compiles if the symbols have types and it can be added to the draft without
code. -/
theorem Program.compile_eq_ok_iff {e : Expr} {symbols : Declarations} {registry : Registry}
    {p : Program} :
    Program.compile e symbols registry = .ok p ↔
      symbols.leastInvalid? = none ∧ ∃ type d,
        Draft.emit ⟨registry, symbols.typed⟩ .empty e = (.ok type, d) ∧ p = d.toProgram type := by
  unfold Program.compile Scope.declare
  cases symbols.leastInvalid? with
  | some symbol => simp
  | none =>
      simp only [Builder.append, Builder.ofScope]
      rcases Draft.emit ⟨registry, symbols.typed⟩ .empty e with ⟨fault | type, d⟩
      · simp
      · simp [Builder.toProgram_eq, eq_comm]

end Formula
