import Formula.Proofs.Primitive
import Formula.Proofs.Registry
import Formula.Script
import Mathlib.Data.List.Basic
import Mathlib.Data.List.Induction
import Mathlib.Order.MinMax

/-!
# Steps and runs of the checker

`Checks` says all that the check of one record can do (`step_eq_ok_iff`). What holds at the
start and is kept by every such step holds after every run (`steps_induction`).
-/

namespace Formula

/-! ## Operands -/

/-- The operand types that an operator takes: its hints, or, without hints, all that its
primitive accepts. -/
def Operator.Takes (op : Operator) (primitive : Primitive) (operands : List Ty) : Prop :=
  op.hints = some operands ∨
    op.hints = none ∧ (primitive.acceptsText = true ∨ Ty.string ∉ operands)

/-- The types of a list are all numeric if there is no text among them. -/
theorem Ty.all_isNumeric_iff (types : List Ty) :
    types.all Ty.isNumeric = true ↔ Ty.string ∉ types := by
  rw [List.all_eq_true]
  constructor
  · intro h hmem
    exact Bool.false_ne_true (h .string hmem)
  · intro h t ht
    cases t with
    | string => exact absurd ht h
    | bool | int | float => rfl

/-- The checker passes the operand types that the operator takes. -/
theorem Checker.checkOperands_eq_ok_iff {op : Operator} {primitive : Primitive}
    {operands : List Ty} :
    Checker.checkOperands op primitive operands = .ok () ↔ op.Takes primitive operands := by
  unfold Checker.checkOperands Operator.Takes
  cases op.hints with
  | some hints => by_cases h : hints = operands <;> simp [h]
  | none =>
      rw [← Ty.all_isNumeric_iff, ← Bool.or_eq_true]
      by_cases h : (primitive.acceptsText || operands.all Ty.isNumeric) = true <;> simp [h]

/-- A built-in operator computes on all operands of the types that it takes, and the result has
the type that its table says. -/
theorem exists_apply_of_mem_builtin {op : Operator} {p : Primitive} {operands : List Cell}
    (hop : op ∈ builtinOperators) (hp : Primitive.ofName? op.primitive = some p)
    (hlength : operands.length = p.arity) (htakes : op.Takes p (operands.map Cell.ty)) :
    ∃ c, p.apply operands = some c ∧ c.ty = op.result.resultType (operands.map Cell.ty) := by
  have hagree := builtinOperators_agree op hop
  simp only [hp, Option.any_some, Operator.agreesWith, Bool.and_eq_true, beq_iff_eq] at hagree
  obtain ⟨⟨_, hrule⟩, hhints⟩ := hagree
  have hshape : p.takes (operands.map Cell.isText) = true := by
    have hmap : operands.map Cell.isText = (operands.map Cell.ty).map Ty.isText := by
      rw [List.map_map]
      rfl
    rw [hmap]
    rcases htakes with h | ⟨h, haccepts⟩
    · simpa only [h] using hhints
    · simp only [h, Bool.and_eq_true, bne_iff_ne] at hhints
      exact Primitive.takes_of_acceptsText (by simpa using hlength) hhints.1 hhints.2 haccepts
  obtain ⟨c, hc⟩ := Primitive.exists_apply_of_takes hshape
  exact ⟨c, hc, by rw [Primitive.ty_of_apply hc, hrule]⟩

/-! ## One step -/

namespace Checker

variable {registry : Registry} {read : UInt64 → Option String} {params : Array Ty}
  {s s' : Checker} {r : Record} {i : Instruction}

@[simp]
theorem types_push (s : Checker) (i : Instruction) (type : Ty) :
    (s.push i type).types = type :: s.types := rfl

@[simp]
theorem depth_push (s : Checker) (i : Instruction) (type : Ty) :
    (s.push i type).depth = s.depth + 1 := rfl

@[simp]
theorem maxDepth_push (s : Checker) (i : Instruction) (type : Ty) :
    (s.push i type).maxDepth = max s.maxDepth (s.depth + 1) := rfl

@[simp]
theorem strings_push (s : Checker) (i : Instruction) (type : Ty) :
    (s.push i type).strings = s.strings := rfl

/-- All that the check of a record can do: the record, the instruction that it becomes and the
state after it. -/
inductive Checks (registry : Registry) (read : UInt64 → Option String) (params : Array Ty)
    (s : Checker) : Record → Instruction → Checker → Prop
  /-- A number or a truth value is put on the stack. -/
  | const (type : Ty) {word : UInt64} {cell : Cell} (htype : type ≠ .string)
      (hcell : Script.argumentCell? read word type = some cell) :
      Checks registry read params s (.ofKind type.kind word) (.const cell)
        (s.push (.const cell) type)
  /-- A text is kept and put on the stack. -/
  | text {address : UInt64} {text : String} (hread : read address = some text) :
      Checks registry read params s (.ofKind .string address) (.text s.strings.size)
        ({ s with strings := s.strings.push text }.push (.text s.strings.size) .string)
  /-- An argument is put on the stack. -/
  | argument {index : UInt64} {type : Ty} (hparam : params[index.toNat]? = some type) :
      Checks registry read params s (.ofKind .symbol index) (.argument index.toNat type)
        (s.push (.argument index.toNat type) type)
  /-- The operands on top of the stack are replaced by a result. -/
  | apply {op : Operator} {primitive : Primitive} {operands rest : List Ty}
      (hop : op ∈ registry.operators)
      (hprimitive : Primitive.ofName? op.primitive = some primitive)
      (harity : primitive.arity = op.arity) (hlength : operands.length = op.arity)
      (htypes : s.types = operands.reverse ++ rest) (htakes : op.Takes primitive operands) :
      Checks registry read params s (.apply op.opcode) (.apply primitive)
        ({ s with types := rest, depth := rest.length }.push (.apply primitive)
          (op.result.resultType operands))

@[simp]
theorem exactKind?_ofKind (kind : Kind) (word : UInt64) :
    exactKind? (Record.ofKind kind word).tag = some kind := by
  cases kind <;> rfl

/-- A tag that is a kind makes the record one of that kind. -/
theorem eq_ofKind_of_exactKind? {kind : Kind} (h : exactKind? r.tag = some kind) :
    r = .ofKind kind r.payload := by
  have htag : r.tag.toNat = kind.tag := by
    unfold exactKind? Kind.ofTag? at h
    split at h <;> cases h <;> assumption
  have : r.tag = UInt64.ofNat kind.tag := by
    rw [← htag, UInt64.ofNat_toNat]
  cases r
  simp_all [Record.ofKind]

/-- An operator passes the check if it is in the registry, its primitive exists and has as many
operands, and operands of types that it takes are on the stack. -/
theorem applyOperator_eq_ok_iff (hs : s.depth = s.types.length) {opcode : UInt64} :
    applyOperator registry s opcode = .ok s' ↔
      ∃ op ∈ registry.operators, op.opcode = opcode ∧
      ∃ primitive, Primitive.ofName? op.primitive = some primitive ∧ primitive.arity = op.arity ∧
      ∃ operands rest, operands.length = op.arity ∧ s.types = operands.reverse ++ rest ∧
        op.Takes primitive operands ∧
        s' = { s with types := rest, depth := rest.length }.push (.apply primitive)
          (op.result.resultType operands) := by
  constructor
  -- Each check that was passed gives one of the facts, in the order in which they are made.
  · intro h
    unfold applyOperator at h
    cases hop : registry.byOpcode opcode with
    | none => simp [hop] at h
    | some op =>
        obtain ⟨hmem, hopcode⟩ := Registry.byOpcode_eq_some_iff.mp hop
        cases hprimitive : Primitive.ofName? op.primitive with
        | none => simp [hop, hprimitive] at h
        | some primitive =>
            simp only [hop, hprimitive] at h
            split at h
            · cases h
            · rename_i harity
              split at h
              · cases h
              · rename_i hdepth
                split at h
                · cases h
                · rename_i htakes
                  rw [checkOperands_eq_ok_iff] at htakes
                  refine ⟨op, hmem, hopcode, primitive, hprimitive, not_not.mp harity,
                    (s.types.take op.arity).reverse, s.types.drop op.arity, ?_, ?_, htakes, ?_⟩
                  · rw [List.length_reverse, List.length_take]
                    omega
                  · rw [List.reverse_reverse, List.take_append_drop]
                  · cases h
                    simp [drop, hs]
  · rintro ⟨op, hmem, hopcode, primitive, hprimitive, harity, operands, rest, hlength, htypes,
      htakes, rfl⟩
    have hop : registry.byOpcode opcode = some op :=
      Registry.byOpcode_eq_some_iff.mpr ⟨hmem, hopcode⟩
    have hdepth : ¬s.depth < op.arity := by
      rw [hs, htypes, List.length_append, List.length_reverse]
      omega
    have htake : (s.types.take op.arity).reverse = operands := by
      rw [htypes, List.take_append_of_le_length (by simp [hlength]),
        List.take_of_length_le (by simp [hlength]), List.reverse_reverse]
    have hdrop : s.types.drop op.arity = rest := by
      rw [htypes, List.drop_append_of_le_length (by simp [hlength]),
        List.drop_of_length_le (by simp [hlength]), List.nil_append]
    have hheight : s.depth - op.arity = rest.length := by
      rw [hs, ← hdrop, List.length_drop]
    simp only [applyOperator, hop, hprimitive, harity, ne_eq, not_true_eq_false, if_false, hdepth,
      htake, checkOperands_eq_ok_iff.mpr htakes, drop, hdrop, hheight]

/-- The check of a record does exactly what `Checks` allows. -/
theorem step_eq_ok_iff (hs : s.depth = s.types.length) :
    step registry read params s r = .ok s' ↔ ∃ i, Checks registry read params s r i s' := by
  constructor
  · intro h
    unfold step at h
    cases hkind : exactKind? r.tag with
    | none => simp [hkind] at h
    | some kind =>
        rw [eq_ofKind_of_exactKind? hkind]
        simp only [hkind] at h
        cases kind with
        | parenthesis =>
            obtain ⟨op, hmem, hopcode, primitive, hprimitive, harity, operands, rest, hlength,
              htypes, htakes, rfl⟩ := (applyOperator_eq_ok_iff hs).mp h
            rw [← hopcode]
            exact ⟨_, .apply hmem hprimitive harity hlength htypes htakes⟩
        | bool =>
            cases h
            exact ⟨_, .const .bool (by decide) rfl⟩
        | int =>
            cases h
            exact ⟨_, .const .int (by decide) rfl⟩
        | float =>
            cases h
            exact ⟨_, .const .float (by decide) rfl⟩
        | string =>
            cases hread : read r.payload with
            | none => simp [hread] at h
            | some text =>
                simp only [hread] at h
                cases h
                exact ⟨_, .text hread⟩
        | symbol =>
            cases hparam : params[r.payload.toNat]? with
            | none => simp [hparam] at h
            | some type =>
                simp only [hparam] at h
                cases h
                exact ⟨_, .argument hparam⟩
  · rintro ⟨i, h⟩
    cases h with
    | const type htype hcell =>
        unfold step
        rw [exactKind?_ofKind]
        cases type with
        | bool | int | float => cases hcell; rfl
        | string => exact absurd rfl htype
    | text hread =>
        unfold step
        rw [exactKind?_ofKind]
        simp only [Record.ofKind, hread]
    | argument hparam =>
        unfold step
        rw [exactKind?_ofKind]
        simp only [Record.ofKind, hparam]
    | apply hmem hprimitive harity hlength htypes htakes =>
        unfold step Record.apply
        rw [exactKind?_ofKind]
        exact (applyOperator_eq_ok_iff hs).mpr
          ⟨_, hmem, rfl, _, hprimitive, harity, _, _, hlength, htypes, htakes, rfl⟩

/-! ## Facts that every step keeps -/

theorem Checks.code_eq (h : Checks registry read params s r i s') : s'.code = s.code.push i := by
  cases h <;> rfl

theorem Checks.depth_eq (h : Checks registry read params s r i s')
    (hs : s.depth = s.types.length) : s'.depth = s'.types.length := by
  cases h <;> simp [hs]

/-- A step keeps the texts and adds at most one. -/
theorem Checks.strings_prefix (h : Checks registry read params s r i s') :
    s.strings.toList <+: s'.strings.toList := by
  cases h with
  | const | argument | apply => exact List.prefix_refl _
  | @text _ text => exact ⟨[text], by simp⟩

/-- The stack is never higher than the greatest height. -/
theorem Checks.length_le_maxDepth (h : Checks registry read params s r i s')
    (hs : s.depth = s.types.length) : s'.types.length ≤ s'.maxDepth := by
  cases h <;> simp [hs]

theorem Checks.maxDepth_le (h : Checks registry read params s r i s') :
    s.maxDepth ≤ s'.maxDepth := by
  cases h <;> simp

/-! ## Runs -/

/-- Checking a record and then others. -/
theorem steps_cons_eq_ok_iff {rs : List Record} {s'' : Checker} :
    steps registry read params s (r :: rs) = .ok s'' ↔
      ∃ s', step registry read params s r = .ok s' ∧ steps registry read params s' rs = .ok s'' := by
  rw [steps]
  cases step registry read params s r with
  | error fault => simp
  | ok s' => simp

/-- Checking records one after another is checking some of them and then the others. -/
theorem steps_append_eq_ok_iff {rs rs' : List Record} {s'' : Checker} :
    steps registry read params s (rs ++ rs') = .ok s'' ↔
      ∃ s', steps registry read params s rs = .ok s' ∧ steps registry read params s' rs' = .ok s'' := by
  induction rs generalizing s with
  | nil => simp [steps]
  | cons r rs ih =>
      rw [List.cons_append, steps_cons_eq_ok_iff]
      constructor
      · rintro ⟨t, hstep, hrest⟩
        obtain ⟨s', hs', hs''⟩ := ih.mp hrest
        exact ⟨s', steps_cons_eq_ok_iff.mpr ⟨t, hstep, hs'⟩, hs''⟩
      · rintro ⟨s', hs', hs''⟩
        obtain ⟨t, hstep, hrest⟩ := steps_cons_eq_ok_iff.mp hs'
        exact ⟨t, hstep, ih.mpr ⟨s', hrest, hs''⟩⟩

/-- What holds at the start and is kept by every step holds after every run. -/
theorem steps_induction {P : List Record → Checker → Prop} {s₀ : Checker}
    (hs : s₀.depth = s₀.types.length) (hstart : P [] s₀)
    (hstep : ∀ {done s r i s'}, s.depth = s.types.length → P done s →
      Checks registry read params s r i s' → P (done ++ [r]) s')
    {rs : List Record} (h : steps registry read params s₀ rs = .ok s) :
    P rs s ∧ s.depth = s.types.length := by
  -- The last record is taken off, so that the step before it starts in a state that was reached.
  induction rs using List.reverseRecOn generalizing s with
  | nil =>
      cases h
      exact ⟨hstart, hs⟩
  | append_singleton rs r ih =>
      obtain ⟨t, ht, hlast⟩ := steps_append_eq_ok_iff.mp h
      obtain ⟨hinv, hdepth⟩ := ih ht
      obtain ⟨u, hu, hnil⟩ := steps_cons_eq_ok_iff.mp hlast
      cases hnil
      obtain ⟨i, hchecks⟩ := (step_eq_ok_iff hdepth).mp hu
      exact ⟨hstep hdepth hinv hchecks, hchecks.depth_eq hdepth⟩

theorem steps_singleton_of_checks (hs : s.depth = s.types.length)
    (h : Checks registry read params s r i s') : steps registry read params s [r] = .ok s' :=
  steps_cons_eq_ok_iff.mpr ⟨s', (step_eq_ok_iff hs).mpr ⟨i, h⟩, rfl⟩

/-- A run keeps count of the values on the stack. -/
theorem depth_of_steps {rs : List Record} (hs : s.depth = s.types.length)
    (h : steps registry read params s rs = .ok s') : s'.depth = s'.types.length :=
  (steps_induction (P := fun _ _ => True) hs trivial (fun _ _ _ => trivial) h).2

/-- What a later state of the checker keeps of an earlier one. -/
structure Extends (s s' : Checker) : Prop where
  code : s.code.toList <+: s'.code.toList
  strings : s.strings.toList <+: s'.strings.toList
  maxDepth : s.maxDepth ≤ s'.maxDepth

/-- A step keeps the code, the texts and the greatest height. -/
theorem Checks.extends (h : Checks registry read params s r i s') : Extends s s' where
  code := ⟨[i], by rw [h.code_eq, Array.toList_push]⟩
  strings := h.strings_prefix
  maxDepth := h.maxDepth_le

/-- A run keeps the code, the texts and the greatest height. -/
theorem extends_of_steps {rs : List Record} (hs : s.depth = s.types.length)
    (h : steps registry read params s rs = .ok s') : Extends s s' := by
  refine (steps_induction (P := fun _ t => Extends s t) hs ?_ ?_ h).1
  · exact ⟨List.prefix_refl _, List.prefix_refl _, le_refl _⟩
  · intro done t r i t' _ hbefore hchecks
    have hlast := hchecks.extends
    exact ⟨hbefore.code.trans hlast.code, hbefore.strings.trans hlast.strings,
      hbefore.maxDepth.trans hlast.maxDepth⟩

/-- A run counts the values on the stack, remembers the greatest height and makes one
instruction of each record. -/
theorem counts_of_steps {rs : List Record} (h : steps registry read params .start rs = .ok s) :
    s.depth = s.types.length ∧ s.types.length ≤ s.maxDepth ∧ s.code.size = rs.length := by
  have hinv := steps_induction
    (P := fun done s => s.types.length ≤ s.maxDepth ∧ s.code.size = done.length)
    rfl ⟨le_refl _, rfl⟩ (fun hs hinv hchecks => ⟨hchecks.length_le_maxDepth hs, by
      rw [hchecks.code_eq, Array.size_push, hinv.2, List.length_append, List.length_singleton]⟩) h
  exact ⟨hinv.2, hinv.1⟩

end Checker

end Formula
