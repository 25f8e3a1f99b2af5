import Formula.Operator.Builtin
import Formula.Proofs.Building
import Mathlib.Order.Bounds.Basic

/-!
# Stack depth along code

Code can be read for its effect on the height of the stack alone: a record that puts a value on the
stack adds one, and a record that applies an operator takes as many values as the operator has
operands and adds one (`Registry.height?`). What a draft says of its depth and of its greatest depth
is what such a reading finds (`Draft.Balanced`). Operators are applied only where their operands are
on the stack (`Draft.SafeStep`), so that this holds after every run of a builder, whether or not the
expressions compile.
-/

namespace Formula

/-! ## Heights -/

namespace Registry

variable {registry : Registry} {records : List Record} {r : Record} {h : Nat}

/-- The height of the stack after a record, unless it applies an operator that is not there or that
takes more values than there are. -/
def heightAfter? (registry : Registry) (height : Nat) (r : Record) : Option Nat :=
  if r.isOperator then
    match registry.byOpcode r.payload with
    | none => none
    | some op => if op.arity ≤ height then some (height - op.arity + 1) else none
  else some (height + 1)

/-- The height of the stack after records that are read from left to right. -/
def height? (registry : Registry) (records : List Record) : Option Nat :=
  records.foldlM registry.heightAfter? 0

/-- The heights that are reached while records are read. -/
def heights (registry : Registry) (records : List Record) : Set Nat :=
  {h | ∃ n, registry.height? (records.take n) = some h}

/-- The last record is read after the others. -/
theorem height?_concat (registry : Registry) (records : List Record) (r : Record) :
    registry.height? (records ++ [r]) =
      (registry.height? records).bind (registry.heightAfter? · r) := by
  rw [height?, List.foldlM_append]
  simp [height?]

/-- A record of a value adds one value. -/
theorem heightAfter?_ofKind {kind : Kind} (hkind : kind ≠ .parenthesis) (word : UInt64)
    (height : Nat) : registry.heightAfter? height (.ofKind kind word) = some (height + 1) := by
  have hoperand : (Record.ofKind kind word).isOperator = false := by
    rw [Record.isOperator_ofKind]
    simpa using hkind
  simp [heightAfter?, hoperand]

/-- An operator takes its operands and adds one value. -/
theorem heightAfter?_apply {op : Operator} (hop : op ∈ registry.operators) {height : Nat}
    (hheight : op.arity ≤ height) :
    registry.heightAfter? height (.apply op.opcode) = some (height + 1 - op.arity) := by
  have hoperator : (Record.apply op.opcode).isOperator = true :=
    Record.isOperator_ofKind .parenthesis op.opcode
  have hpayload : (Record.apply op.opcode).payload = op.opcode := rfl
  have hfound : registry.byOpcode op.opcode = some op := byOpcode_eq_some_iff.mpr ⟨hop, rfl⟩
  rw [heightAfter?, if_pos hoperator, hpayload, hfound]
  simp only [if_pos hheight]
  congr 1
  omega

/-- Where all records can be read, so can the first of them. -/
theorem exists_height?_take (hall : registry.height? records = some h) (n : Nat) :
    ∃ h', registry.height? (records.take n) = some h' := by
  rw [height?, ← List.take_append_drop n records, List.foldlM_append] at hall
  obtain ⟨h', htake, _⟩ := Option.bind_eq_some_iff.mp hall
  exact ⟨h', htake⟩

/-- One more record adds the height after it to those that are reached. -/
theorem heights_concat (hlast : registry.height? (records ++ [r]) = some h) :
    registry.heights (records ++ [r]) = insert h (registry.heights records) := by
  ext height
  rw [Set.mem_insert_iff]
  constructor
  · rintro ⟨n, hn⟩
    by_cases hle : n ≤ records.length
    · right
      rw [List.take_append_of_le_length hle] at hn
      exact ⟨n, hn⟩
    · left
      have hall : (records ++ [r]).take n = records ++ [r] :=
        List.take_of_length_le (by rw [List.length_append, List.length_singleton]; omega)
      rw [hall, hlast] at hn
      exact (Option.some.inj hn).symm
  · rintro (rfl | ⟨n, hn⟩)
    · refine ⟨(records ++ [r]).length, ?_⟩
      rw [List.take_length, hlast]
    · refine ⟨min n records.length, ?_⟩
      rw [List.take_append_of_le_length (Nat.min_le_right n records.length), ← List.take_take,
        List.take_length, hn]

/-- Of the first record it matters only whether it applies an operator, and which. -/
theorem height?_cons_congr {first first' : Record} (hop : first.isOperator = first'.isOperator)
    (hpayload : first.payload = first'.payload) (rest : List Record) :
    registry.height? (first :: rest) = registry.height? (first' :: rest) := by
  have hfirst : registry.heightAfter? 0 first = registry.heightAfter? 0 first' := by
    rw [heightAfter?, heightAfter?, hop, hpayload]
  rw [height?, height?, List.foldlM_cons, List.foldlM_cons, hfirst]

/-- The mark on the first record does not change how records are read. -/
@[simp]
theorem height?_modify (registry : Registry) (records : List Record) :
    registry.height? (records.modify 0 Record.markFloat) = registry.height? records := by
  cases records with
  | nil => rfl
  | cons first rest =>
      rw [List.modify_zero_cons]
      exact height?_cons_congr (Record.isOperator_markFloat first) rfl rest

/-- The mark on the first record does not change the heights that are reached. -/
@[simp]
theorem heights_modify (registry : Registry) (records : List Record) :
    registry.heights (records.modify 0 Record.markFloat) = registry.heights records := by
  have htake (n : Nat) : (records.modify 0 Record.markFloat).take n =
      (records.take n).modify 0 Record.markFloat := by
    cases records with
    | nil => simp
    | cons first rest => cases n <;> simp
  ext h
  constructor
  · rintro ⟨n, hn⟩
    refine ⟨n, ?_⟩
    rwa [htake, height?_modify] at hn
  · rintro ⟨n, hn⟩
    refine ⟨n, ?_⟩
    rwa [htake, height?_modify]

end Registry

namespace Draft

variable {scope : Scope} {d d' : Draft} {op : Operator}

/-! ## Safe steps -/

/-- A step of the compiler. If it applies an operator, the operands are on the stack. -/
def SafeStep (scope : Scope) (d d' : Draft) : Prop :=
  Step scope d d' ∧
    ∀ op ∈ scope.registry.operators, d' = d.pushOperator op → op.arity ≤ d.depth

/-- Putting a value on the stack is not applying an operator. -/
theorem pushOperand_ne_pushOperator {d₁ : Draft} (hcode : d₁.code = d.code) {kind : Kind}
    (hkind : kind ≠ .parenthesis) (word : UInt64) (op : Operator) :
    d₁.pushOperand (.ofKind kind word) ≠ d.pushOperator op := by
  intro hsame
  have hpush : d.code.push (.ofKind kind word) = d.code.push (.apply op.opcode) := by
    rw [← hcode]
    exact (congrArg Draft.code hsame).trans (by rw [pushOperator, hcode])
  have hrecord : Record.ofKind kind word = .apply op.opcode := Array.push_inj_right.mp hpush
  have hkinds := congrArg Record.kind? hrecord
  rw [Record.apply, Record.kind?_ofKind, Record.kind?_ofKind] at hkinds
  exact hkind (Option.some.inj hkinds)

/-- Taking a node does nothing or is a safe step. -/
theorem Takes.eq_or_safeStep {v : Visit} (h : Takes scope d v d') :
    d' = d ∨ SafeStep scope d d' := by
  cases h with
  | form name count => exact .inl rfl
  | @value type htype text word =>
      refine .inr ⟨.value htype word, fun op _ hsame => ?_⟩
      have hkind : type.kind ≠ .parenthesis := by cases type <;> decide
      exact absurd hsame (pushOperand_ne_pushOperator rfl hkind word op)
  | text hsize =>
      refine .inr ⟨.text hsize, fun op _ hsame => ?_⟩
      have hkind : Kind.string ≠ .parenthesis := by decide
      refine absurd hsame (pushOperand_ne_pushOperator ?_ hkind _ op)
      rfl
  | symbol hname =>
      refine .inr ⟨.symbol hname, fun op _ hsame => ?_⟩
      have hkind : Kind.symbol ≠ .parenthesis := by decide
      exact absurd hsame (pushOperand_ne_pushOperator (code_slotOf ..) hkind _ op)

/-- Applying an operator to operands that are on the stack is a safe step. -/
theorem safeStep_pushOperator (hop : op ∈ scope.registry.operators) (hdepth : op.arity ≤ d.depth) :
    SafeStep scope d (d.pushOperator op) := by
  refine ⟨.operator hop, fun other hother hsame => ?_⟩
  -- Both have the opcode that was added, and an opcode stands for one operator.
  have hopcode : op.opcode = other.opcode :=
    congrArg Record.payload (Array.push_inj_right.mp (congrArg Draft.code hsame))
  have hop' := Registry.byOpcode_eq_some_iff.mpr ⟨hop, rfl⟩
  rw [hopcode, Registry.byOpcode_eq_some_iff.mpr ⟨hother, rfl⟩] at hop'
  rw [Option.some.inj hop']
  exact hdepth

/-- All that compiling an expression does is done in safe steps, also where it fails. -/
theorem emit_safeSteps (scope : Scope) (e : Expr) (d : Draft) :
    Relation.ReflTransGen (SafeStep scope) d (emit scope d e).2 := by
  have hemits := emits_taken scope e d
  generalize e.taken scope = visits at hemits
  generalize (emit scope d e).2 = d' at hemits
  induction hemits with
  | refl => exact .refl
  | visit _ hv ih =>
      rcases hv.eq_or_safeStep with rfl | hstep
      · exact ih
      · exact ih.tail hstep
  | operator _ hop hdepth ih => exact ih.tail (safeStep_pushOperator hop hdepth)

/-! ## Balanced drafts -/

/-- Drafts whose depth is the height of the stack after their code, and whose greatest depth is the
greatest height that is reached. -/
structure Balanced (registry : Registry) (d : Draft) : Prop where
  height : registry.height? d.code.toList = some d.depth
  peak : IsGreatest (registry.heights d.code.toList) d.maxDepth

theorem balanced_empty (registry : Registry) : Balanced registry .empty := by
  refine ⟨rfl, ⟨0, rfl⟩, ?_⟩
  rintro h ⟨n, hn⟩
  have hnil : (Draft.empty.code.toList.take n) = [] := List.take_nil
  rw [hnil] at hn
  exact le_of_eq (Option.some.inj hn).symm

/-- The depth is one of the heights that are reached. -/
theorem Balanced.depth_le {registry : Registry} (hd : d.Balanced registry) :
    d.depth ≤ d.maxDepth := by
  refine hd.peak.2 ⟨d.code.toList.length, ?_⟩
  rw [List.take_length, hd.height]

/-- A value on top of the stack keeps a draft balanced. -/
theorem Balanced.pushOperand {registry : Registry} (hd : d.Balanced registry) {kind : Kind}
    (hkind : kind ≠ .parenthesis) (word : UInt64) :
    (d.pushOperand (.ofKind kind word)).Balanced registry := by
  have hcode : (d.pushOperand (.ofKind kind word)).code.toList =
      d.code.toList ++ [.ofKind kind word] := by simp
  have hheight : registry.height? (d.code.toList ++ [.ofKind kind word]) = some (d.depth + 1) := by
    rw [Registry.height?_concat, hd.height, Option.bind_some, Registry.heightAfter?_ofKind hkind]
  refine ⟨by rw [hcode, hheight]; rfl, ?_⟩
  rw [hcode, Registry.heights_concat hheight]
  have hpeak := hd.peak.insert (d.depth + 1)
  rwa [max_comm] at hpeak

/-- An operator that is applied to values on the stack keeps a draft balanced. -/
theorem Balanced.pushOperator {registry : Registry} (hd : d.Balanced registry)
    (hop : op ∈ registry.operators) (hdepth : op.arity ≤ d.depth) :
    (d.pushOperator op).Balanced registry := by
  have hcode : (d.pushOperator op).code.toList = d.code.toList ++ [.apply op.opcode] := by
    simp
  have hheight : registry.height? (d.code.toList ++ [.apply op.opcode]) =
      some (d.depth + 1 - op.arity) := by
    rw [Registry.height?_concat, hd.height, Option.bind_some,
      Registry.heightAfter?_apply hop hdepth]
  refine ⟨by rw [hcode, hheight]; rfl, ?_⟩
  rw [hcode, Registry.heights_concat hheight]
  -- Operators have operands, so that the stack does not get higher.
  have hle : d.depth + 1 - op.arity ≤ d.maxDepth := by
    have hmax := hd.depth_le
    rcases Registry.arity_eq hop with harity | harity <;> omega
  have hpeak := hd.peak.insert (d.depth + 1 - op.arity)
  rwa [max_eq_right hle] at hpeak

/-- A safe step keeps a draft balanced. -/
theorem SafeStep.balanced (h : SafeStep scope d d') (hd : d.Balanced scope.registry) :
    d'.Balanced scope.registry := by
  obtain ⟨hstep, hsafe⟩ := h
  cases hstep with
  | @value type htype word =>
      exact hd.pushOperand (by cases type <;> decide) word
  | @text text hsize =>
      have hkept : Balanced scope.registry { d with constants := d.constants.add text } :=
        ⟨hd.height, hd.peak⟩
      exact hkept.pushOperand (by decide) _
  | @symbol name type hname =>
      have hslot : (d.slotOf name type).2.Balanced scope.registry := by
        refine ⟨?_, ?_⟩
        · simp [hd.height]
        · rw [code_slotOf, maxDepth_slotOf]
          exact hd.peak
      exact hslot.pushOperand (by decide) _
  | @operator op hop => exact hd.pushOperator hop (hsafe op hop rfl)

/-- Compiling an expression keeps a draft balanced, also where it fails. -/
theorem Balanced.emit (hd : d.Balanced scope.registry) (e : Expr) :
    (emit scope d e).2.Balanced scope.registry := by
  have hsteps := emit_safeSteps scope e d
  generalize (Draft.emit scope d e).2 = d' at hsteps
  induction hsteps with
  | refl => exact hd
  | tail _ hstep ih => exact hstep.balanced ih

/-- The mark on the first record keeps a draft balanced. -/
theorem Balanced.mark {registry : Registry} (hd : d.Balanced registry) :
    d.mark.Balanced registry := by
  refine ⟨?_, ?_⟩
  · rw [toList_code_mark, Registry.height?_modify, hd.height]
    rfl
  · rw [toList_code_mark, Registry.heights_modify]
    exact hd.peak

end Draft

/-! ## Runs of builders -/

/-- **The depth of a builder is the height of the stack.** After every run of a builder, its code
can be read to the end, and no record finds too few values on the stack. The depth is the height
that the reading ends with, and the greatest depth is the greatest height after any number of
records. An expression that compiles raises the height by one. Whatever expression comes next and
whether or not it compiles, no operator is applied to more values than there are. -/
theorem Builder.depth_eq_height (scope : Scope) (actions : List Builder.Action) :
    let b := (Builder.ofScope scope).run actions
    scope.registry.height? b.draft.code.toList = some b.draft.depth ∧
    (∀ n, ∃ h, scope.registry.height? (b.draft.code.toList.take n) = some h) ∧
    IsGreatest {h | ∃ n, scope.registry.height? (b.draft.code.toList.take n) = some h}
      b.draft.maxDepth ∧
    (∀ e type b', b.append e = (.ok type, b') →
      scope.registry.height? b'.draft.code.toList = some (b.draft.depth + 1)) ∧
    ∀ e, Relation.ReflTransGen (Draft.SafeStep scope) b.draft (b.append e).2.draft := by
  intro b
  have hscope : b.scope = scope := Builder.scope_run _ actions
  have hrun (more : List Builder.Action) : (b.run more).draft.Balanced scope.registry := by
    have hb : b.draft.Balanced scope.registry :=
      Builder.run_keeps (fun e d hd => hd.emit e) (fun d hd => hd.mark)
        (Draft.balanced_empty scope.registry) actions
    refine Builder.run_keeps (fun e d hd => ?_) (fun d hd => hd.mark) hb more
    rw [hscope]
    exact hd.emit e
  obtain ⟨hheight, hpeak⟩ := hrun []
  refine ⟨hheight, Registry.exists_height?_take hheight, hpeak, ?_, ?_⟩
  · intro e type b' happend
    have hafter := (hrun [.append e]).height
    cases hfinalized : b.isFinalized with
    | true =>
        rw [Builder.append_of_finalized hfinalized] at happend
        cases happend
    | false =>
        obtain ⟨hresult, hdraft, _⟩ := Builder.append_of_open hfinalized e
        have hb' : (b.run [.append e]).draft = b'.draft :=
          congrArg (fun result => result.2.draft) happend
        have hemit : Draft.emit b.scope b.draft e = (.ok type, b'.draft) := by
          refine Prod.ext ?_ ?_
          · rw [← hresult, happend]
          · rw [← hdraft, happend]
        rw [hb', (Draft.depth_of_emit hemit).1] at hafter
        exact hafter
  · intro e
    cases hfinalized : b.isFinalized with
    | true =>
        rw [Builder.append_of_finalized hfinalized]
    | false =>
        rw [(Builder.append_of_open hfinalized e).2.1, hscope]
        exact Draft.emit_safeSteps scope e b.draft

/-- An expression fails after it has put two values on the stack, and another one compiles on top of
them. -/
theorem Builder.depth_eq_height_after_failure :
    let b := (Builder.ofScope ⟨.builtin, []⟩).run [.append (.form "+"
      [.atom .int "1", .form "*" [.atom .int "2", .form "-" [.atom .int "3", .atom .symbol "x"]]])]
    b.draft.maxDepth = 3 ∧ Registry.builtin.height? b.draft.code.toList = some 3 ∧
      ∃ b', b.append (.form "sqrt" [.atom .float "0.5"]) = (.ok .float, b') ∧
        Registry.builtin.height? b'.draft.code.toList = some 4 := by
  intro b
  obtain ⟨hheight, -, -, happend, -⟩ := Builder.depth_eq_height ⟨.builtin, []⟩ [.append (.form "+"
    [.atom .int "1", .form "*" [.atom .int "2", .form "-" [.atom .int "3", .atom .symbol "x"]]])]
  have hdepth : b.draft.depth = 3 := by decide +kernel
  have hresult : (b.append (.form "sqrt" [.atom .float "0.5"])).1 = .ok .float := by
    decide +kernel
  refine ⟨by decide +kernel, hheight.trans (congrArg some hdepth), _, Prod.ext hresult rfl, ?_⟩
  exact (happend _ .float _ (Prod.ext hresult rfl)).trans (congrArg (fun n => some (n + 1)) hdepth)

end Formula
