import Formula.Engine
import Formula.Proofs.Evaluation
import Formula.Proofs.Typing

/-!
# Agreement of compiler and checker

The checker goes through the records of a compiled expression one by one and knows nothing of the
tree. It still finds the type and the height of the stack that the tree has, unless it refuses one
of the applications that the expression stands for (`judgedAs_of_emit`). So what a program says of
itself is what the checker finds (`check_agrees_with_compile`), and with the built-in operators a
program is refused only where texts stand in the wrong places (`load_standard_eq_backend_iff`).
-/

namespace Formula

/-- Why the checker refuses to apply an operator to operands of given types, if it does. -/
def Operator.refusal? (op : Operator) (operands : List Ty) : Option Rejection :=
  match Primitive.ofName? op.primitive with
  | none => some .unsupportedPrimitive
  | some primitive =>
    if primitive.arity ≠ op.arity then some .arityMismatch
    else
      match Checker.checkOperands op primitive operands with
      | .error fault => some fault
      | .ok () => none

/-! ## Judged records -/

namespace Checker

variable {registry : Registry} {read : UInt64 → Option String} {params : Array Ty}
  {s s' : Checker} {op : Operator} {records records' : List Record}
  {applications applications' : List (Operator × List Ty)} {operands : List Ty} {type type' : Ty}
  {height height' : Nat}

/-- Checking records one after another is checking some of them and then the others. -/
theorem steps_append (records records' : List Record) :
    steps registry read params s (records ++ records') =
      (steps registry read params s records).bind fun s =>
        steps registry read params s records' := by
  induction records generalizing s with
  | nil => rfl
  | cons r records ih =>
      rw [List.cons_append, steps, steps]
      cases step registry read params s r with
      | error fault => rfl
      | ok s₁ => exact ih

/-- An operator of the registry that finds its operands on the stack is applied, unless it is
refused. -/
theorem steps_apply (read : UInt64 → Option String) (params : Array Ty)
    (hs : s.depth = s.types.length) (hop : op ∈ registry.operators)
    (hlength : operands.length = op.arity) {rest : List Ty}
    (htypes : s.types = operands.reverse ++ rest) :
    ∃ i, steps registry read params s [.apply op.opcode] =
      match op.refusal? operands with
      | some fault => .error fault
      | none => .ok ({ s with types := rest, depth := rest.length }.push i
          (op.result.resultType operands)) := by
  have hfound : registry.byOpcode op.opcode = some op :=
    Registry.byOpcode_eq_some_iff.mpr ⟨hop, rfl⟩
  have hdepth : ¬s.depth < op.arity := by
    rw [hs, htypes, List.length_append, List.length_reverse]
    omega
  have htake : (s.types.take op.arity).reverse = operands := by
    rw [htypes, List.take_append_of_le_length (by simp [hlength]),
      List.take_of_length_le (by simp [hlength]), List.reverse_reverse]
  have hstep : steps registry read params s [.apply op.opcode] =
      applyOperator registry s op.opcode := by
    rw [steps, step, Record.apply, exactKind?_ofKind]
    dsimp only [Record.ofKind]
    cases applyOperator registry s op.opcode <;> rfl
  rw [hstep]
  cases hprimitive : Primitive.ofName? op.primitive with
  | none =>
      refine ⟨.const (.bool false), ?_⟩
      simp only [applyOperator, hfound, Operator.refusal?, hprimitive]
  | some primitive =>
      refine ⟨.apply primitive, ?_⟩
      by_cases harity : primitive.arity = op.arity
      · cases hcheck : checkOperands op primitive operands with
        | error fault =>
            simp only [applyOperator, hfound, Operator.refusal?, hprimitive, harity, ne_eq,
              not_true_eq_false, if_false, hdepth, htake, hcheck]
        | ok =>
            have hchecks : applyOperator registry s op.opcode = .ok _ :=
              (applyOperator_eq_ok_iff hs).mpr ⟨op, hop, rfl, primitive, hprimitive, harity,
                operands, rest, hlength, htypes, checkOperands_eq_ok_iff.mp hcheck, rfl⟩
            rw [hchecks]
            simp only [Operator.refusal?, hprimitive, harity, ne_eq, not_true_eq_false, if_false,
              hcheck]
      · simp only [applyOperator, hfound, Operator.refusal?, hprimitive, harity, ne_eq,
          not_false_eq_true, if_true]

/-- What checking from a state comes to: values of the operand types are put on the stack, with
some room above it, or one of the applications is refused. -/
def Outcome (applications : List (Operator × List Ty)) (s : Checker) (operands : List Ty)
    (height : Nat) : Except Rejection Checker → Prop
  | .ok s' =>
    (∀ a ∈ applications, a.1.refusal? a.2 = none) ∧ s'.types = operands.reverse ++ s.types ∧
      s'.depth = s'.types.length ∧ s'.maxDepth = max s.maxDepth (s.types.length + height)
  | .error fault => ∃ a ∈ applications, a.1.refusal? a.2 = some fault

/-- Records that leave a value of a type wherever they are checked, if the applications among them
are not refused. -/
def Judges (registry : Registry) (read : UInt64 → Option String) (params : Array Ty)
    (records : List Record) (applications : List (Operator × List Ty)) (type : Ty)
    (height : Nat) : Prop :=
  ∀ s : Checker, s.depth = s.types.length →
    Outcome applications s [type] height (steps registry read params s records)

/-- Applying an operator to the values that were left last. -/
theorem Outcome.apply (h : Outcome applications s operands height
      (steps registry read params s records))
    (hop : op ∈ registry.operators) (hlength : operands.length = op.arity)
    (hheight : 1 ≤ height) :
    Outcome (applications ++ [(op, operands)]) s [op.result.resultType operands] height
      (steps registry read params s (records ++ [.apply op.opcode])) := by
  rw [steps_append]
  cases hsteps : steps registry read params s records with
  | error fault =>
      rw [hsteps] at h
      obtain ⟨a, ha, hfault⟩ := h
      exact ⟨a, List.mem_append_left _ ha, hfault⟩
  | ok s₁ =>
      rw [hsteps] at h
      obtain ⟨haccepted, htypes, hdepth, hmaxDepth⟩ := h
      obtain ⟨i, happly⟩ := steps_apply read params hdepth hop hlength htypes
      show Outcome _ _ _ _ (steps registry read params s₁ [.apply op.opcode])
      rw [happly]
      cases hrefusal : op.refusal? operands with
      | some fault => exact ⟨(op, operands), by simp, hrefusal⟩
      | none =>
          refine ⟨?_, rfl, rfl, ?_⟩
          · intro a ha
            rcases List.mem_append.mp ha with ha | ha
            · exact haccepted a ha
            · obtain rfl := List.mem_singleton.mp ha
              exact hrefusal
          · -- The result takes no more room than the first operand did.
            simp only [maxDepth_push, hmaxDepth]
            omega

/-- A value on top of another. -/
theorem Outcome.append (hs : s.depth = s.types.length)
    (h : Judges registry read params records applications type height)
    (h' : Judges registry read params records' applications' type' height') :
    Outcome (applications ++ applications') s [type, type'] (max height (1 + height'))
      (steps registry read params s (records ++ records')) := by
  have hfirst := h s hs
  rw [steps_append]
  cases hsteps : steps registry read params s records with
  | error fault =>
      rw [hsteps] at hfirst
      obtain ⟨a, ha, hfault⟩ := hfirst
      exact ⟨a, List.mem_append_left _ ha, hfault⟩
  | ok s₁ =>
      rw [hsteps] at hfirst
      obtain ⟨haccepted, htypes, hdepth, hmaxDepth⟩ := hfirst
      have hsecond := h' s₁ hdepth
      show Outcome _ _ _ _ (steps registry read params s₁ records')
      cases hsteps' : steps registry read params s₁ records' with
      | error fault =>
          rw [hsteps'] at hsecond
          obtain ⟨a, ha, hfault⟩ := hsecond
          exact ⟨a, List.mem_append_right _ ha, hfault⟩
      | ok s₂ =>
          rw [hsteps'] at hsecond
          obtain ⟨haccepted', htypes', hdepth', hmaxDepth'⟩ := hsecond
          refine ⟨?_, ?_, hdepth', ?_⟩
          · intro a ha
            rcases List.mem_append.mp ha with ha | ha
            · exact haccepted a ha
            · exact haccepted' a ha
          · rw [htypes', htypes]
            rfl
          · have hlength : s₁.types.length = s.types.length + 1 := by simp [htypes]
            rw [hmaxDepth', hmaxDepth, hlength]
            omega

/-- Only the members of the list of applications matter. -/
theorem Judges.congr (h : Judges registry read params records applications type height)
    (hmem : ∀ a, a ∈ applications ↔ a ∈ applications') :
    Judges registry read params records applications' type height := by
  intro s hs
  have houtcome := h s hs
  cases hsteps : steps registry read params s records with
  | error fault =>
      rw [hsteps] at houtcome
      obtain ⟨a, ha, hfault⟩ := houtcome
      exact ⟨a, (hmem a).mp ha, hfault⟩
  | ok s₁ =>
      rw [hsteps] at houtcome
      obtain ⟨haccepted, hrest⟩ := houtcome
      exact ⟨fun a ha => haccepted a ((hmem a).mpr ha), hrest⟩

/-- A record that passes the check and puts a value on the stack. -/
theorem judges_operand {r : Record}
    (h : ∀ s : Checker, ∃ i strings, s.depth = s.types.length →
      steps registry read params s [r] = .ok ({ s with strings := strings }.push i type)) :
    Judges registry read params [r] [] type 1 := by
  intro s hs
  obtain ⟨i, strings, hsteps⟩ := h s
  rw [hsteps hs]
  refine ⟨fun a ha => absurd ha List.not_mem_nil, rfl, ?_, ?_⟩
  · simp [hs]
  · simp [hs]

end Checker

/-! ## Judged expressions -/

namespace Draft

variable {scope : Scope} {d d' : Draft} {op : Operator} {type type' : Ty}
  {before : List Record} {applications applications' : List (Operator × List Ty)}
  {height height' : Nat}

/-- Drafts whose slots have words for numbers and whose texts have words for addresses. -/
structure Loadable (scope : Scope) (d : Draft) : Prop where
  valid : d.Valid scope
  slots : d.slotTypes.length ≤ UInt64.size
  texts : firstAddress + d.constants.size ≤ UInt64.size

/-- The code ends with records that leave a value of a type when they are checked, in every draft
that this one becomes; before them stand other records. -/
def JudgedAs (scope : Scope) (before : List Record) (d : Draft)
    (applications : List (Operator × List Ty)) (type : Ty) (height : Nat) : Prop :=
  ∃ records, d.code.toList = before ++ records ∧
    ∀ later, Extends d later → Loadable scope later →
      Checker.Judges scope.registry later.constants.text? later.slotTypes.toArray records
        applications type height

/-- An operator applied to a value that was left last. -/
theorem JudgedAs.unary (h : JudgedAs scope before d applications type height)
    (hheight : 1 ≤ height) (hop : op ∈ scope.registry.operators) (harity : op.arity = 1) :
    JudgedAs scope before (d.pushOperator op) (applications ++ [(op, [type])])
      (op.result.resultType [type]) height := by
  obtain ⟨records, hcode, hjudges⟩ := h
  refine ⟨records ++ [.apply op.opcode], by simp [hcode], ?_⟩
  intro later hextends hloadable s hs
  have hfirst := hjudges later ((Step.operator hop).extends.trans hextends) hloadable s hs
  exact hfirst.apply hop harity.symm hheight

/-- An operator applied to two values that were left last. -/
theorem JudgedAs.binary (h : JudgedAs scope before d applications type height)
    (h' : JudgedAs scope d.code.toList d' applications' type' height') (hextends : Extends d d')
    (hop : op ∈ scope.registry.operators) (harity : op.arity = 2) :
    JudgedAs scope before (d'.pushOperator op)
      (applications ++ applications' ++ [(op, [type, type'])])
      (op.result.resultType [type, type']) (max height (1 + height')) := by
  obtain ⟨records, hcode, hjudges⟩ := h
  obtain ⟨records', hcode', hjudges'⟩ := h'
  refine ⟨records ++ records' ++ [.apply op.opcode], by simp [hcode', hcode], ?_⟩
  intro later hlater hloadable s hs
  have hlater' := (Step.operator hop).extends.trans hlater
  have hfirst := hjudges later (hextends.trans hlater') hloadable
  have hsecond := hjudges' later hlater' hloadable
  exact (Checker.Outcome.append hs hfirst hsecond).apply hop harity.symm (by omega)

/-- A number or a truth value. -/
theorem judgedAs_value (htype : type ≠ .string) (word : UInt64) :
    JudgedAs scope d.code.toList (d.pushOperand (.ofKind type.kind word)) [] type 1 := by
  refine ⟨[.ofKind type.kind word], by simp, ?_⟩
  intro later _ _
  refine Checker.judges_operand fun s => ?_
  cases type with
  | bool | int | float => exact ⟨_, s.strings, fun _ => rfl⟩
  | string => exact absurd rfl htype

/-- A text. -/
theorem judgedAs_text (text : String) :
    JudgedAs scope d.code.toList
      ({ d with constants := d.constants.add text }.pushOperand
        (.ofKind .string d.constants.nextAddress)) [] .string 1 := by
  refine ⟨[.ofKind .string d.constants.nextAddress], by simp, ?_⟩
  intro later hextends hloadable
  have hread := TextPool.text?_nextAddress hextends.texts hloadable.texts
  exact Checker.judges_operand fun s =>
    ⟨_, _, fun hs => Checker.steps_singleton_of_checks hs (.text hread)⟩

/-- A parameter. -/
theorem judgedAs_symbol {name : String} (hname : scope.symbols.lookup name = some type) :
    JudgedAs scope d.code.toList
      ((d.slotOf name type).2.pushOperand (.ofKind .symbol (UInt64.ofNat (d.slotOf name type).1)))
      [] type 1 := by
  obtain ⟨slot, d₁, hslot⟩ : ∃ slot d₁, d.slotOf name type = (slot, d₁) := ⟨_, _, rfl⟩
  have hcode : d₁.code = d.code := by simpa [hslot] using d.code_slotOf name type
  rw [hslot]
  refine ⟨[.ofKind .symbol (UInt64.ofNat slot)], by simp [hcode], ?_⟩
  intro later hextends hloadable
  have hparams : d₁.params.toList <+: later.params.toList := hextends.params
  have hfound : later.slots.lookup name = some slot := by
    rw [lookup_slots]
    exact hparams.findIdx?_eq_some (findIdx?_slotOf hslot)
  obtain ⟨type₁, hdeclared, htype₁⟩ := hloadable.valid.exists_declared hfound
  obtain rfl : type₁ = type := by simpa [hname] using hdeclared.symm
  -- The slot is found under its number, since the number is a word.
  have hindex : (UInt64.ofNat slot).toNat = slot := by
    obtain ⟨hlt, _⟩ := List.getElem?_eq_some_iff.mp htype₁
    exact UInt64.toNat_ofNat_of_lt' (lt_of_lt_of_le hlt hloadable.slots)
  have hparam : later.slotTypes.toArray[(UInt64.ofNat slot).toNat]? = some type₁ := by
    rw [hindex, List.getElem?_toArray, htype₁]
  exact Checker.judges_operand fun s =>
    ⟨_, s.strings, fun hs => Checker.steps_singleton_of_checks hs (.argument hparam)⟩

/-- Compiling the operands after the first adds their applications and those of the operator. -/
theorem Folds.judgedAs {rest : List Expr}
    (h : Folds (fun d e type d' => emit scope d e = (.ok type, d') ∧
      JudgedAs scope d.code.toList d' (e.applications scope) type e.need) op type d rest type' d')
    (hop : op ∈ scope.registry.operators) (harity : op.arity = 2)
    (hvalue : JudgedAs scope before d applications type height) :
    ∃ types, Expr.tys? scope rest = some types ∧
      JudgedAs scope before d' (applications ++ (Expr.applicationsAll scope rest ++
        (op.applicationsFrom type types).map fun types => (op, types))) type'
        (max height (Expr.needRest rest)) := by
  induction h generalizing applications height with
  | nil type d =>
      refine ⟨[], rfl, ?_⟩
      simpa [Expr.applicationsAll, Operator.applicationsFrom, Expr.needRest] using hvalue
  | @cons type right type' d d₁ d' operand rest hoperand _ ih =>
      obtain ⟨hemit, hjudged⟩ := hoperand
      have hsteps : Steps scope d d₁ := by
        simpa [hemit] using emit_steps scope operand d
      -- The value so far and the operand are now one value, with which the rest goes on.
      have hpair := hvalue.binary hjudged (extends_of_steps hsteps) hop harity
      obtain ⟨types, htypes, records, hcode, hjudges⟩ := ih hpair
      refine ⟨right :: types, Expr.tys?_cons (ty?_of_emit hemit) htypes, records, hcode, ?_⟩
      intro later hlater hloadable
      have hneed : max height (Expr.needRest (operand :: rest)) =
          max (max height (1 + operand.need)) (Expr.needRest rest) := by
        rw [Expr.needRest]
        omega
      rw [hneed]
      refine (hjudges later hlater hloadable).congr ?_
      intro a
      simp only [Expr.applicationsAll, Operator.applicationsFrom, List.map_cons, List.mem_append,
        List.mem_cons, List.not_mem_nil, or_false]
      tauto

/-- The checker judges the code of an expression as the expression says. -/
theorem judgedAs_of_emit {e : Expr} (h : emit scope d e = (.ok type, d')) :
    JudgedAs scope d.code.toList d' (e.applications scope) type e.need := by
  refine emit_induction (P := fun d e type d' =>
    JudgedAs scope d.code.toList d' (e.applications scope) type e.need) ?_ ?_ ?_ ?_ ?_ h
  · intro d type text children word htype
    cases type with
    | bool | int | float => exact judgedAs_value htype word
    | string => exact absurd rfl htype
  · intro d text children
    exact judgedAs_text text
  · intro d name children type hname
    exact judgedAs_symbol hname
  · intro d d₁ name first op type hresolve harity hemit hfirst
    obtain ⟨hop, _, _⟩ := Registry.resolve_eq_some hresolve
    have htypes : Expr.tys? scope [first] = some [type] := Expr.tys?_cons (ty?_of_emit hemit) rfl
    have hvalue := hfirst.unary first.need_pos hop harity
    rw [Expr.applications_form hresolve htypes, (Operator.formType_unary harity type).2]
    simpa [Expr.applicationsAll, Expr.need, Expr.needRest] using hvalue
  · intro d d₁ d' name first rest op type type' hresolve harity hrest hemit hfirst hfolds
    obtain ⟨hop, _, _⟩ := Registry.resolve_eq_some hresolve
    obtain ⟨types, htypes, hvalue⟩ := hfolds.judgedAs hop harity hfirst
    rw [Expr.applications_form hresolve (Expr.tys?_cons (ty?_of_emit hemit) htypes),
      (Operator.formType_binary harity type (Expr.ne_nil_of_tys? hrest htypes)).2]
    simpa [Expr.applicationsAll, Expr.need] using hvalue

end Draft

/-! ## Compiled programs -/

/-- A check that has left one value comes to an end, unless the value is a text. -/
theorem Checker.finish_of_types {s : Checker} {type : Ty} (h : s.types = [type])
    (returnsFloat : Bool) :
    s.finish returnsFloat =
      if type = .string then .error .stringResult
      else .ok ⟨s.code, s.strings, s.maxDepth, returnsFloat⟩ := by
  rw [Checker.finish, h]
  cases type <;> rfl

/-- Checking a program is checking the records of its draft. The mark of the first record says
whether the value is a float. -/
theorem Draft.check_toProgram {d : Draft} {t : Term} (hcode : d.code.toList = t.listing)
    (registry : Registry) (read : UInt64 → Option String) (type : Ty) :
    Script.check registry read (d.toProgram type).words (d.toProgram type).slotTags =
      (Checker.steps registry read d.slotTypes.toArray .start d.code.toList).bind
        (Checker.finish · (type == .float)) := by
  obtain ⟨hunmarked, hmarked⟩ := unmarked_toProgram hcode type
  have hread : Record.ofWords? (d.toProgram type).words =
      some (Record.pairWords (d.toProgram type).words) := by
    rw [Program.words, Record.ofWords?_toWords, Record.pairWords_toWords]
  have hparams : (d.toProgram type).slotTags.mapM Ty.ofTag? = some d.slotTypes :=
    Ty.mapM_ofTag?_eq_some_iff.mpr rfl
  rw [Script.check, hread]
  cases hrecords : Record.pairWords (d.toProgram type).words with
  | nil =>
      rw [hrecords] at hunmarked
      exact absurd hunmarked.symm t.listing_ne_nil
  | cons first rest =>
      rw [hrecords, ← hcode] at hunmarked
      rw [hrecords] at hmarked
      have hfloat : first.returnsFloat = (type == .float) := hmarked
      have hcleared : first.clearMark :: rest = d.code.toList := hunmarked
      simp only [hparams, hcleared, hfloat]
      cases Checker.steps registry read d.slotTypes.toArray .start d.code.toList <;> rfl

/-- The state of the checker after all records of a program. -/
theorem Draft.checkedAfter_toProgram {d : Draft} {t : Term} (hcode : d.code.toList = t.listing)
    {registry : Registry} {read : UInt64 → Option String} {s : Checker}
    (hsteps : Checker.steps registry read d.slotTypes.toArray .start d.code.toList = .ok s)
    (type : Ty) :
    Script.checkedAfter registry read (d.toProgram type).words (d.toProgram type).slotTags
      (d.toProgram type).code.size = some s := by
  obtain ⟨hunmarked, _⟩ := unmarked_toProgram hcode type
  have hsize : (d.toProgram type).code.size = d.code.toList.length := by
    unfold toProgram
    split <;> simp
  have htags : (d.toProgram type).slotTags = d.slotTypes.map Ty.tag := rfl
  refine Script.checkedAfter_eq_some (Record.ofWords?_toWords _) htags ?_
  rw [Program.words, Record.pairWords_toWords] at hunmarked
  rw [hunmarked, ← hcode, hsize, List.take_length, hsteps]

/-- The draft of a compiled expression holds the listing of a term and is valid. -/
theorem Draft.exists_listing_of_emit {scope : Scope} {e : Expr} {type : Ty} {d : Draft}
    (h : emit scope .empty e = (.ok type, d)) :
    (∃ t : Term, d.code.toList = t.listing) ∧ d.Valid scope := by
  obtain ⟨t, hcode, _⟩ := emit_endsWith h
  have hsteps : Steps scope .empty d := by
    simpa [h] using emit_steps scope e .empty
  exact ⟨⟨t, hcode⟩, valid_of_steps hsteps (valid_empty scope)⟩

/-- Checking the draft of a compiled expression comes to what the expression says. -/
theorem Draft.outcome_of_emit {scope : Scope} {e : Expr} {type : Ty} {d : Draft}
    (h : emit scope .empty e = (.ok type, d)) (hd : d.Loadable scope) :
    Checker.Outcome (e.applications scope) .start [type] e.need
      (Checker.steps scope.registry d.constants.text? d.slotTypes.toArray .start
        d.code.toList) := by
  obtain ⟨records, hcode, hjudges⟩ := judgedAs_of_emit h
  have hcode : d.code.toList = records := hcode
  rw [hcode]
  exact hjudges d (.refl d) hd .start rfl

/-- What a program says of itself is what the checker finds: the checker is left with one value,
of the type that the compiler has found; the program and the script both say whether this is a
float; and both give the stack the height that the expression needs. The number of a slot is a
word, so that no program in memory has more slots than there are words. -/
theorem Script.check_agrees_with_compile {e : Expr} {symbols : Declarations} {registry : Registry}
    {p : Program} {script : Script} (hcompile : Program.compile e symbols registry = .ok p)
    (hslots : p.slotTypes.length ≤ UInt64.size)
    (hcheck : check registry p.constants.text? p.words p.slotTags = .ok script) :
    ∃ scope type b s, Scope.declare registry symbols = .ok scope ∧
      (Builder.ofScope scope).append e = (.ok type, b) ∧ b.toProgram = p ∧
      checkedAfter registry p.constants.text? p.words p.slotTags p.code.size = some s ∧
      s.types = [type] ∧
      script.returnsFloat = p.returnsFloat ∧ (p.returnsFloat = true ↔ type = .float) ∧
      p.maxStackBytes = 8 * script.maxDepth ∧ script.maxDepth = e.need := by
  obtain ⟨hvalues, type, d, hemit, rfl⟩ := Program.compile_eq_ok_iff.mp hcompile
  obtain ⟨⟨t, hcode⟩, hvalid⟩ := Draft.exists_listing_of_emit hemit
  obtain ⟨hunmarked, _⟩ := Draft.unmarked_toProgram hcode type
  -- Since the check has read all texts, their addresses are words.
  obtain ⟨hread, _⟩ := exists_describes_of_check hcheck
  rw [hunmarked, ← hcode] at hread
  have houtcome := Draft.outcome_of_emit hemit ⟨hvalid, hslots, hvalid.texts_le hread⟩
  obtain ⟨_, hmaxDepth⟩ := Draft.depth_of_emit hemit
  have hneed : d.maxDepth = e.need := by simpa [Draft.empty, Draft.ofStores] using hmaxDepth
  have hdeclare : Scope.declare registry symbols = .ok ⟨registry, symbols.typed⟩ := by
    rw [Scope.declare, hvalues]
  have happend : (Builder.ofScope ⟨registry, symbols.typed⟩).append e =
      (.ok type, ⟨⟨registry, symbols.typed⟩, d, some type, false⟩) := by
    simp [Builder.append, Builder.ofScope, hemit]
  have hfinish : (Checker.steps registry d.constants.text? d.slotTypes.toArray .start
      d.code.toList).bind (Checker.finish · (type == .float)) = .ok script := by
    rw [← Draft.check_toProgram hcode]
    exact hcheck
  cases hsteps : Checker.steps registry d.constants.text? d.slotTypes.toArray .start
      d.code.toList with
  | error fault =>
      rw [hsteps] at hfinish
      cases hfinish
  | ok s =>
      rw [hsteps] at houtcome hfinish
      obtain ⟨_, htypes, _, hheight⟩ := houtcome
      obtain ⟨_, _, _, rfl⟩ := Checker.finish_eq_ok_iff.mp hfinish
      have hheight : s.maxDepth = e.need := by simpa [Checker.start] using hheight
      refine ⟨_, type, _, s, hdeclare, happend, Builder.toProgram_eq _ d type,
        Draft.checkedAfter_toProgram hcode hsteps type, htypes, rfl, ?_, ?_, hheight⟩
      · simp [Draft.toProgram]
      · show d.maxDepth * 8 = 8 * s.maxDepth
        rw [hneed, hheight, Nat.mul_comm]

/-- The product of a parameter and a sum of integers is a float and needs three values on the
stack. -/
theorem Script.check_agrees_with_compile_product :
    ∃ p script s,
      Program.compile
        (.form "*" [.atom .symbol "x", .form "+" [.atom .int "1", .atom .int "2"]])
        [("x", .float)] .builtin = .ok p ∧
      p.slotTypes.length ≤ UInt64.size ∧
      check .builtin p.constants.text? p.words p.slotTags = .ok script ∧
      checkedAfter .builtin p.constants.text? p.words p.slotTags p.code.size = some s ∧
      s.types = [.float] ∧ script.returnsFloat = p.returnsFloat ∧
      p.maxStackBytes = 8 * script.maxDepth ∧ script.maxDepth = 3 := by
  let p : Program := ⟨#[⟨0xff05, 0⟩, ⟨2, 1⟩, ⟨2, 2⟩, ⟨0, 1⟩, ⟨0, 4⟩], [("x", 0)], [.float], 24,
    true, .empty⟩
  let script : Script := ⟨#[.argument 0 .float, .const (.int 1), .const (.int 2),
    .apply (.binary .add), .apply (.binary .mul)], #[], 3, true⟩
  have hcompile : Program.compile
      (.form "*" [.atom .symbol "x", .form "+" [.atom .int "1", .atom .int "2"]])
      [("x", .float)] .builtin = .ok p := by decide +kernel
  have hslots : p.slotTypes.length ≤ UInt64.size := by decide
  have hcheck : check .builtin p.constants.text? p.words p.slotTags = .ok script := by
    decide +kernel
  obtain ⟨_, type, _, s, _, _, _, hs, htypes, hfloat, hmarked, hbytes, hneed⟩ :=
    check_agrees_with_compile hcompile hslots hcheck
  obtain rfl : type = .float := hmarked.mp rfl
  exact ⟨p, script, s, hcompile, hslots, hcheck, hs, htypes, hfloat, hbytes, hneed⟩

/-! ## The built-in operators -/

/-- Whether texts stand in the wrong places among the operands of a built-in operator: the length
of a text and the place of one text in another are for texts only, all other operators but tests
for equality for no texts at all. -/
def Operator.MisusesText (op : Operator) (operands : List Ty) : Prop :=
  op.name ∉ ["=", "==", "!=", "len", "index"] ∧ .string ∈ operands ∨
    op.name ∈ ["len", "index"] ∧ ∃ type ∈ operands, type ≠ .string

instance (op : Operator) (operands : List Ty) : Decidable (op.MisusesText operands) :=
  inferInstanceAs (Decidable (_ ∨ _))

/-- What the table of built-in operators says about texts. -/
theorem builtinOperators_text :
    ∀ op ∈ builtinOperators,
      if op.name ∈ ["len", "index"] then op.hints = some (List.replicate op.arity .string)
      else op.hints = none ∧ (Primitive.ofName? op.primitive).any
        (fun primitive => primitive.acceptsText == decide (op.name ∈ ["=", "==", "!="])) := by
  decide +kernel

/-- A built-in operator is refused if and only if texts stand in the wrong places among its
operands. -/
theorem Operator.refusal?_builtin {op : Operator} (hop : op ∈ builtinOperators)
    {operands : List Ty} (hlength : operands.length = op.arity) :
    (op.refusal? operands = none ↔ ¬op.MisusesText operands) ∧
      ∀ fault, op.refusal? operands = some fault →
        fault = .argumentTypeMismatch ∨ fault = .stringOperand := by
  have hagree := builtinOperators_agree op hop
  have htext := builtinOperators_text op hop
  cases hprimitive : Primitive.ofName? op.primitive with
  | none => simp [hprimitive] at hagree
  | some primitive =>
      simp only [hprimitive, Option.any_some, agreesWith, Bool.and_eq_true, beq_iff_eq]
        at hagree htext
      have hrefusal : op.refusal? operands =
          match Checker.checkOperands op primitive operands with
          | .error fault => some fault
          | .ok () => none := by
        simp only [refusal?, hprimitive, hagree.1.1, ne_eq, not_true_eq_false, if_false]
      rw [hrefusal, Checker.checkOperands]
      by_cases hname : op.name ∈ ["len", "index"]
      · rw [if_pos hname] at htext
        have hmisuses :
            op.MisusesText operands ↔ ¬List.replicate op.arity Ty.string = operands := by
          have hlisted : op.name ∈ ["=", "==", "!=", "len", "index"] := by
            simp only [List.mem_cons, List.not_mem_nil, or_false] at hname ⊢
            tauto
          rw [eq_comm, List.eq_replicate_iff]
          simp [MisusesText, hlisted, hname, hlength]
        rw [hmisuses, htext]
        by_cases hhints : List.replicate op.arity Ty.string = operands <;> simp [hhints]
      · rw [if_neg hname] at htext
        have hmisuses : op.MisusesText operands ↔
            ¬(primitive.acceptsText || operands.all Ty.isNumeric) = true := by
          have hlisted : op.name ∈ ["=", "==", "!=", "len", "index"] ↔
              op.name ∈ ["=", "==", "!="] := by
            simp only [List.mem_cons, List.not_mem_nil, or_false] at hname ⊢
            tauto
          rw [MisusesText, hlisted, htext.2, Bool.or_eq_true, Ty.all_isNumeric_iff]
          simp [hname]
        rw [hmisuses, htext.1]
        cases primitive.acceptsText || operands.all Ty.isNumeric <;> simp

/-- A program whose slots have words for numbers and whose texts have words for addresses, as all
programs in memory have. -/
structure Program.FitsWords (p : Program) : Prop where
  slots : p.slotTypes.length ≤ UInt64.size
  texts : firstAddress + p.constants.size ≤ UInt64.size

/-- The engine with the built-in operators refuses a program if the checker does. -/
theorem Engine.load_standard_eq_backend {handle : Nat} {p : Program} :
    Engine.standard.load handle p = .error .backend ↔
      ∃ fault, Script.check .builtin p.constants.text? p.words p.slotTags = .error fault := by
  have hgenerate : Engine.standard.generator.generate p.words p.slotTags p.constants.text? =
      (Script.check .builtin p.constants.text? p.words p.slotTags).toOption := rfl
  rw [load_eq, hgenerate]
  cases Script.check .builtin p.constants.text? p.words p.slotTags <;> simp [Except.toOption]

/-- The engine with the built-in operators refuses the program of an expression if and only if the
expression is a text or stands for an application with texts in the wrong places. Whatever the
expression, the checker has no other reason. -/
theorem Engine.load_standard_eq_backend_iff {e : Expr} {symbols : Declarations} {p : Program}
    (hcompile : Program.compile e symbols .builtin = .ok p) (hp : p.FitsWords) (handle : Nat) :
    (Engine.standard.load handle p = .error .backend ↔
      e.ty? ⟨.builtin, symbols.typed⟩ = some .string ∨
        ∃ a ∈ e.applications ⟨.builtin, symbols.typed⟩, a.1.MisusesText a.2) ∧
    ∀ fault, Script.check .builtin p.constants.text? p.words p.slotTags = .error fault →
      fault = .stringResult ∨ fault = .argumentTypeMismatch ∨ fault = .stringOperand := by
  obtain ⟨_, type, d, hemit, rfl⟩ := Program.compile_eq_ok_iff.mp hcompile
  obtain ⟨⟨t, hcode⟩, hvalid⟩ := Draft.exists_listing_of_emit hemit
  have houtcome : Checker.Outcome _ _ _ _ (Checker.steps .builtin
      (d.toProgram type).constants.text? _ _ _) :=
    Draft.outcome_of_emit hemit ⟨hvalid, hp.slots, hp.texts⟩
  have htype := Draft.ty?_of_emit hemit
  have hrefusal (a) (ha : a ∈ e.applications ⟨.builtin, symbols.typed⟩) :=
    Operator.refusal?_builtin (Expr.of_mem_applications ha).1 (Expr.of_mem_applications ha).2
  have hcheck := Draft.check_toProgram hcode .builtin (d.toProgram type).constants.text? type
  rw [load_standard_eq_backend, htype, hcheck]
  cases hsteps : Checker.steps .builtin (d.toProgram type).constants.text? d.slotTypes.toArray
      .start d.code.toList with
  | error fault =>
      rw [hsteps] at houtcome
      obtain ⟨a, ha, hfault⟩ := houtcome
      obtain ⟨hmisuses, hreason⟩ := hrefusal a ha
      refine ⟨⟨fun _ => .inr ⟨a, ha, ?_⟩, fun _ => ⟨fault, rfl⟩⟩, ?_⟩
      · by_contra hno
        rw [hmisuses.mpr hno] at hfault
        cases hfault
      · rintro _ ⟨⟩
        exact .inr (hreason fault hfault)
  | ok s =>
      rw [hsteps] at houtcome
      obtain ⟨haccepted, htypes, _⟩ := houtcome
      have hnone : ¬∃ a ∈ e.applications ⟨.builtin, symbols.typed⟩, a.1.MisusesText a.2 := by
        rintro ⟨a, ha, hmisuses⟩
        exact (hrefusal a ha).1.mp (haccepted a ha) hmisuses
      have hfinish : s.finish (type == .float) = _ := Checker.finish_of_types htypes _
      show ((∃ fault, s.finish (type == .float) = .error fault) ↔ _) ∧
        ∀ fault, s.finish (type == .float) = .error fault → _
      rw [hfinish]
      by_cases hstring : type = .string
      · simp [hstring]
      · simp [hstring, hnone]

/-- The place of a text in another is no text, in which a third one could be looked for. -/
theorem Engine.load_standard_eq_backend_index :
    ∃ p, Program.compile
        (.form "index" [.atom .string "ab", .atom .string "b", .atom .string "c"]) [] .builtin =
          .ok p ∧
      p.FitsWords ∧ Engine.standard.load 1 p = .error .backend := by
  let p : Program := ⟨#[⟨4, addressOf 0⟩, ⟨4, addressOf 1⟩, ⟨0, 0x81⟩, ⟨4, addressOf 2⟩, ⟨0, 0x81⟩],
    [], [], 16, false, ⟨#["ab", "b", "c"]⟩⟩
  have hcompile : Program.compile
      (.form "index" [.atom .string "ab", .atom .string "b", .atom .string "c"]) [] .builtin =
        .ok p := by decide +kernel
  have hp : p.FitsWords := ⟨by decide, by decide⟩
  refine ⟨p, hcompile, hp, (load_standard_eq_backend_iff hcompile hp 1).1.mpr (.inr ?_)⟩
  exact ⟨(.intrinsic "index" 0x81 "str_index" [.string, .string] .int, [.int, .string]),
    by decide +kernel, by decide⟩

end Formula
