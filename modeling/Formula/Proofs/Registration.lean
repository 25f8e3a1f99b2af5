import Formula.Proofs.Flattening
import Formula.Proofs.Indexing

/-!
# What registries accept and find

A list of operators makes a registry if every operator takes one or two operands, no opcode occurs
twice and no name occurs twice with the same number of operands. Otherwise the first operator that
breaks a rule against those before it is reported (`Operator.Breaks`). In a registry every operator
is found by its opcode and by its name, also with tables, and what is found for a form never takes
more operands than the form has, so that these can be split into those in front and the others
(`Draft.emit_eq_emitSplit`).
-/

namespace Formula

/-! ## Broken rules -/

namespace Operator

/-- An operator breaks a rule against those declared before it. The rules are looked at in the order
in which they stand here, and the owner of an opcode is named before the operator that takes it a
second time. -/
inductive Breaks (earlier : List Operator) (op : Operator) : RegistryError → Prop
  | arity (h : ¬(op.arity = 1 ∨ op.arity = 2)) :
      Breaks earlier op (.unsupportedArity op.name op.arity)
  | opcode {owner : Operator} (harity : op.arity = 1 ∨ op.arity = 2) (howner : owner ∈ earlier)
      (h : owner.opcode = op.opcode) :
      Breaks earlier op (.duplicateOpcode op.opcode owner.name op.name)
  | signature {other : Operator} (harity : op.arity = 1 ∨ op.arity = 2)
      (hopcode : ∀ owner ∈ earlier, owner.opcode ≠ op.opcode) (hother : other ∈ earlier)
      (h : other.name = op.name ∧ other.arity = op.arity) :
      Breaks earlier op (.duplicateArity op.name op.arity)

variable {earlier : List Operator} {op : Operator} {fault : RegistryError}

/-- Which rules are broken depends on the members of a list only. -/
theorem Breaks.congr {earlier' : List Operator} (h : ∀ op, op ∈ earlier ↔ op ∈ earlier')
    (hbreaks : Breaks earlier op fault) : Breaks earlier' op fault := by
  cases hbreaks with
  | arity harity => exact .arity harity
  | opcode harity howner hsame => exact .opcode harity ((h _).mp howner) hsame
  | signature harity hopcode hother hsame =>
      exact .signature harity (fun owner howner => hopcode owner ((h owner).mpr howner))
        ((h _).mp hother) hsame

/-- An operator that breaks a rule is not without fault. -/
theorem Breaks.faultAfter_ne_none (h : Breaks earlier op fault) : op.faultAfter earlier ≠ none := by
  intro hnone
  obtain ⟨harity, hdistinct⟩ := (faultAfter_eq_none_iff earlier op).mp hnone
  cases h with
  | arity h => exact h harity
  | opcode _ howner h => exact (hdistinct _ howner).opcode h
  | signature _ _ hother h => exact (hdistinct _ hother).signature h

/-- The fault of an operator is a rule that it breaks. -/
theorem breaks_of_faultAfter (h : op.faultAfter earlier = some fault) :
    Breaks earlier op fault := by
  unfold faultAfter at h
  split at h
  · rename_i harity
    cases h
    refine .arity ?_
    simpa using harity
  · rename_i harity
    have harity' : op.arity = 1 ∨ op.arity = 2 := by
      by_contra hno
      exact harity (by simpa using hno)
    split at h
    · rename_i owner hfind
      cases h
      exact .opcode harity' (List.mem_of_find?_eq_some hfind) (by simpa using List.find?_some hfind)
    · rename_i hfind
      split at h
      · rename_i hany
        cases h
        obtain ⟨other, hother, hsame⟩ := List.any_eq_true.mp hany
        refine .signature harity' (fun owner howner hopcode => ?_) hother (by simpa using hsame)
        exact List.find?_eq_none.mp hfind owner howner (by simpa using hopcode)
      · cases h

/-- Among operators of different opcodes, only one rule counts as broken. -/
theorem Breaks.unique {fault' : RegistryError} (hnodup : (earlier.map Operator.opcode).Nodup)
    (h : Breaks earlier op fault) (h' : Breaks earlier op fault') : fault = fault' := by
  cases h with
  | arity harity =>
      cases h' with
      | arity => rfl
      | opcode hno | signature hno => exact absurd hno harity
  | opcode harity howner hsame =>
      cases h' with
      | arity hno => exact absurd harity hno
      | opcode _ howner' hsame' =>
          rw [List.inj_on_of_nodup_map hnodup howner howner' (hsame.trans hsame'.symm)]
      | signature _ hfree => exact absurd hsame (hfree _ howner)
  | signature harity hfree =>
      cases h' with
      | arity hno => exact absurd harity hno
      | opcode _ howner hsame => exact absurd hsame (hfree _ howner)
      | signature => rfl

/-- Among operators of different opcodes, the fault of an operator is the rule that it breaks. -/
theorem faultAfter_eq_some_iff (hnodup : (earlier.map Operator.opcode).Nodup) :
    op.faultAfter earlier = some fault ↔ Breaks earlier op fault := by
  refine ⟨breaks_of_faultAfter, fun h => ?_⟩
  obtain ⟨fault', hfault⟩ := Option.ne_none_iff_exists'.mp h.faultAfter_ne_none
  rw [hfault, (breaks_of_faultAfter hfault).unique hnodup h]

/-- Distinct operators differ in their opcodes, and in their names with numbers of operands. -/
theorem pairwise_distinct_iff (operators : List Operator) :
    operators.Pairwise Distinct ↔ (operators.map Operator.opcode).Nodup ∧
      (operators.map fun op => (op.name, op.arity)).Nodup := by
  rw [List.Nodup, List.Nodup, List.pairwise_map, List.pairwise_map, ← List.pairwise_and_iff]
  constructor
  · refine List.Pairwise.imp fun h => ⟨h.opcode, ?_⟩
    rw [Ne, Prod.mk.injEq]
    exact h.signature
  · refine List.Pairwise.imp fun h => ⟨h.1, ?_⟩
    rw [← Prod.mk.injEq]
    exact h.2

end Operator

/-! ## Faults of a list -/

/-- An operator is looked at before those behind it. -/
theorem firstFault_cons (earlier after : List Operator) (op : Operator) :
    firstFault earlier (op :: after) =
      (op.faultAfter earlier).or (firstFault (op :: earlier) after) := by
  rw [firstFault]
  cases op.faultAfter earlier with
  | some fault => rfl
  | none => rfl

/-- Operators behind others are looked at after them. -/
theorem firstFault_append (earlier before after : List Operator) :
    firstFault earlier (before ++ after) =
      (firstFault earlier before).or (firstFault (before.reverse ++ earlier) after) := by
  induction before generalizing earlier with
  | nil => rfl
  | cons op before ih =>
      rw [List.cons_append, firstFault_cons, firstFault_cons, ih, Option.or_assoc,
        List.reverse_cons, List.append_assoc, List.singleton_append]

/-- The first fault is that of an operator behind others without fault. -/
theorem firstFault_eq_some_iff {operators : List Operator} {fault : RegistryError} :
    firstFault [] operators = some fault ↔
      ∃ before op after, operators = before ++ op :: after ∧ firstFault [] before = none ∧
        op.Breaks before fault := by
  have hbreaks {before : List Operator} {op : Operator} (hnone : firstFault [] before = none) :
      op.faultAfter before.reverse = some fault ↔ op.Breaks before fault := by
    obtain ⟨-, hdistinct, -⟩ := (firstFault_eq_none_iff [] before).mp hnone
    have hnodup : (before.reverse.map Operator.opcode).Nodup := by
      rw [List.map_reverse, List.nodup_reverse]
      exact ((Operator.pairwise_distinct_iff before).mp hdistinct).1
    rw [Operator.faultAfter_eq_some_iff hnodup]
    exact ⟨.congr fun op => List.mem_reverse, .congr fun op => List.mem_reverse.symm⟩
  constructor
  · intro h
    induction operators using List.reverseRecOn with
    | nil => cases h
    | append_singleton before op ih =>
        rw [firstFault_append, List.append_nil, firstFault_cons] at h
        rcases Option.or_eq_some_iff.mp h with h | ⟨hnone, h⟩
        · obtain ⟨before, op', after, rfl, hnone, hop'⟩ := ih h
          exact ⟨before, op', after ++ [op], by simp, hnone, hop'⟩
        · refine ⟨before, op, [], rfl, hnone, (hbreaks hnone).mp ?_⟩
          simpa [firstFault] using h
  · rintro ⟨before, op, after, rfl, hnone, hop⟩
    rw [firstFault_append, hnone, Option.none_or, List.append_nil, firstFault_cons,
      (hbreaks hnone).mpr hop, Option.some_or]

/-- A list is without fault if no operator in it breaks a rule against those before it. -/
theorem firstFault_eq_none_iff_forall (operators : List Operator) :
    firstFault [] operators = none ↔
      ∀ before op after fault, operators = before ++ op :: after → ¬op.Breaks before fault := by
  constructor
  · rintro h before op after fault rfl hop
    rw [firstFault_append, List.append_nil, firstFault_cons, Option.or_eq_none_iff,
      Option.or_eq_none_iff] at h
    exact (hop.congr fun op => List.mem_reverse.symm).faultAfter_ne_none h.2.1
  · intro h
    rw [Option.eq_none_iff_forall_ne_some]
    intro fault hfault
    obtain ⟨before, op, after, hsplit, -, hop⟩ := firstFault_eq_some_iff.mp hfault
    exact h before op after fault hsplit hop

/-! ## Registries of a list -/

namespace Registry

variable {r : Registry} {operators : List Operator} {op : Operator} {name : String} {count : Nat}

/-- A registry of a list holds its operators. -/
theorem ofList_eq_ok_iff : ofList operators = .ok r ↔ r.operators = operators := by
  unfold ofList
  split
  · rename_i fault hfault
    refine iff_of_false (by simp) ?_
    rintro rfl
    cases r.consistent.symm.trans hfault
  · rename_i hnone
    constructor
    · rintro ⟨⟩
      rfl
    · rintro rfl
      rfl

/-- A list makes no registry because of its first fault. -/
theorem ofList_eq_error_iff {fault : RegistryError} :
    ofList operators = .error fault ↔ firstFault [] operators = some fault := by
  unfold ofList
  split
  · rename_i fault' hfault
    rw [hfault, Except.error.injEq, Option.some.injEq]
  · rename_i hnone
    refine iff_of_false (by simp) ?_
    rw [hnone]
    simp

/-- A list makes a registry if the numbers of operands are right and neither opcodes nor names with
numbers of operands occur twice. -/
theorem exists_ofList_eq_ok_iff : (∃ r, ofList operators = .ok r) ↔
    (∀ op ∈ operators, op.arity = 1 ∨ op.arity = 2) ∧ (operators.map Operator.opcode).Nodup ∧
      (operators.map fun op => (op.name, op.arity)).Nodup := by
  rw [← Operator.pairwise_distinct_iff]
  have hnone : (∃ r, ofList operators = .ok r) ↔ firstFault [] operators = none := by
    constructor
    · rintro ⟨r, hr⟩
      rw [← ofList_eq_ok_iff.mp hr]
      exact r.consistent
    · intro h
      exact ⟨⟨operators, h⟩, ofList_eq_ok_iff.mpr rfl⟩
  rw [hnone, firstFault_eq_none_iff]
  simp

theorem contains_iff : r.contains name = true ↔ ∃ op ∈ r.operators, op.name = name := by
  simp [contains]

/-- A form is resolved to the operator of its name that takes as many operands. -/
theorem resolve_of_exact (hop : op ∈ r.operators) : r.resolve op.name op.arity = some op := by
  rw [resolve, lookup_eq_some_iff.mpr ⟨hop, rfl, rfl⟩, Option.some_or]

/-- Without an operator that takes as many operands, a form is resolved to the binary operator of
its name if it has more than two operands, and to none otherwise. -/
theorem resolve_eq_some_iff_of_not_exact
    (h : ∀ op ∈ r.operators, op.name = name → op.arity ≠ count) :
    r.resolve name count = some op ↔
      2 < count ∧ op ∈ r.operators ∧ op.name = name ∧ op.arity = 2 := by
  have hnone : r.lookup name count = none := by
    rw [Option.eq_none_iff_forall_ne_some]
    intro other hother
    obtain ⟨hmem, hname, harity⟩ := lookup_eq_some_iff.mp hother
    exact h other hmem hname harity
  rw [resolve, hnone, Option.none_or]
  split
  · rename_i hcount
    rw [lookup_eq_some_iff]
    simp [hcount]
  · rename_i hcount
    simp [hcount]

/-- What a form is resolved to takes at least one operand, and not more than the form has. -/
theorem arity_le_of_resolve (h : r.resolve name count = some op) :
    0 < op.arity ∧ op.arity ≤ count := by
  obtain ⟨hmem, -, hcount⟩ := resolve_eq_some h
  have := arity_eq hmem
  omega

end Registry

/-! ## Forms in two parts -/

namespace Draft

/-- Compiles expressions one after another: their types, or the first error. -/
def emitAll (scope : Scope) (d : Draft) : List Expr → Except CompileError (List Ty) × Draft
  | [] => (.ok [], d)
  | e :: es =>
    match emit scope d e with
    | (.error fault, d) => (.error fault, d)
    | (.ok type, d) =>
      match emitAll scope d es with
      | (.error fault, d) => (.error fault, d)
      | (.ok types, d) => (.ok (type :: types), d)

/-- Compiles a form of an operator: the operands in front, then the operator, and then every other
operand followed by the operator. -/
def emitSplit (scope : Scope) (op : Operator) (d : Draft) (front others : List Expr) :
    Except CompileError Ty × Draft :=
  match emitAll scope d front with
  | (.error fault, d) => (.error fault, d)
  | (.ok types, d) =>
    emitRest scope op (op.result.resultType types) (d.pushOperator op) others

/-- A form compiles as many operands as its operator takes before the operator, and there are always
as many. -/
theorem emit_eq_emitSplit {scope : Scope} {op : Operator} {name : String} {operands : List Expr}
    (h : scope.registry.resolve name operands.length = some op) (d : Draft) :
    emit scope d (.form name operands) =
      emitSplit scope op d (operands.take op.arity) (operands.drop op.arity) := by
  obtain ⟨hpos, hle⟩ := Registry.arity_le_of_resolve h
  obtain ⟨first, rest, rfl⟩ := List.exists_cons_of_length_pos (Nat.lt_of_lt_of_le hpos hle)
  rw [Expr.form, emit_form_cons h]
  rcases Registry.arity_eq (Registry.resolve_eq_some h).1 with harity | harity
  · simp only [harity, emitSplit, emitAll, List.take_succ_cons, List.take_zero, List.drop_succ_cons,
      List.drop_zero, if_pos]
    rcases emit scope d first with ⟨fault | type, d⟩
    · rfl
    · rfl
  · obtain ⟨second, rest, rfl⟩ : ∃ second rest', rest = second :: rest' := by
      refine List.exists_cons_of_length_pos ?_
      rw [harity, List.length_cons] at hle
      omega
    simp only [harity, emitSplit, emitAll, List.take_succ_cons, List.take_zero, List.drop_succ_cons,
      List.drop_zero, if_neg (by decide : ¬(2 = 1))]
    rcases emit scope d first with ⟨fault | type, d⟩
    · rfl
    · dsimp only
      rw [emitRest]
      rcases emit scope d second with ⟨fault | type', d⟩
      · rfl
      · rfl

end Draft

/-- **What registries accept and find.** A list of operators makes a registry if and only if every
operator takes one or two operands, no opcode occurs twice and no name occurs twice with the same
number of operands. Otherwise the error is that of the first operator that breaks a rule against
those before it. In the registry every operator is found by its opcode, and by its name with its
number of operands, and nothing else is found. Tables that are filled operator by operator report
the same error and find the same operators. A form is resolved to the operator that takes as many
operands, or else, if it has more than two, to the binary one; so its operands can always be split
behind those that the operator takes. -/
theorem Registry.ofList_accepts_and_finds (operators : List Operator) :
    ((∃ r, ofList operators = .ok r) ↔
      (∀ op ∈ operators, op.arity = 1 ∨ op.arity = 2) ∧ (operators.map Operator.opcode).Nodup ∧
        (operators.map fun op => (op.name, op.arity)).Nodup) ∧
    (∀ fault, ofList operators = .error fault ↔
      ∃ before op after, operators = before ++ op :: after ∧
        (∀ earlier other later fault', before = earlier ++ other :: later →
          ¬other.Breaks earlier fault') ∧
        op.Breaks before fault) ∧
    (∀ fault, Index.ofList operators = .error fault ↔ ofList operators = .error fault) ∧
    ∀ r, ofList operators = .ok r →
      (∃ index, Index.ofList operators = .ok index ∧ index.Agrees r) ∧
      (∀ op ∈ operators, r.byOpcode op.opcode = some op ∧ r.lookup op.name op.arity = some op) ∧
      (∀ opcode op, r.byOpcode opcode = some op → op ∈ operators ∧ op.opcode = opcode) ∧
      (∀ name arity op, r.lookup name arity = some op →
        op ∈ operators ∧ op.name = name ∧ op.arity = arity) ∧
      (∀ name, r.contains name = true ↔ ∃ op ∈ operators, op.name = name) ∧
      (∀ op ∈ operators, r.resolve op.name op.arity = some op) ∧
      (∀ name count, (∀ op ∈ operators, op.name = name → op.arity ≠ count) → ∀ op,
        r.resolve name count = some op ↔
          2 < count ∧ op ∈ operators ∧ op.name = name ∧ op.arity = 2) ∧
      (∀ name count op, r.resolve name count = some op → op.arity ≤ count) ∧
      ∀ symbols d name operands op, r.resolve name operands.length = some op →
        (operands.take op.arity).length = op.arity ∧
        Draft.emit ⟨r, symbols⟩ d (.form name operands) =
          Draft.emitSplit ⟨r, symbols⟩ op d (operands.take op.arity) (operands.drop op.arity) := by
  refine ⟨exists_ofList_eq_ok_iff, ?_, ?_, ?_⟩
  · intro fault
    simp only [ofList_eq_error_iff, firstFault_eq_some_iff, firstFault_eq_none_iff_forall]
  · intro fault
    rw [Index.ofList_eq_error_iff, ofList_eq_error_iff]
  · intro r hr
    obtain rfl := ofList_eq_ok_iff.mp hr
    refine ⟨Index.exists_ofList_agrees r, ?_, fun _ _ => byOpcode_eq_some_iff.mp,
      fun _ _ _ => lookup_eq_some_iff.mp, fun _ => contains_iff, fun _ => resolve_of_exact,
      fun _ _ h _ => resolve_eq_some_iff_of_not_exact h,
      fun _ _ _ h => (arity_le_of_resolve h).2, ?_⟩
    · intro op hop
      exact ⟨byOpcode_eq_some_iff.mpr ⟨hop, rfl⟩, lookup_eq_some_iff.mpr ⟨hop, rfl, rfl⟩⟩
    · intro symbols d name operands op h
      exact ⟨List.length_take_of_le (arity_le_of_resolve h).2, Draft.emit_eq_emitSplit h d⟩

/-- A name for two operators, a form of three operands, and an opcode that is taken twice by an
operator whose name and number of operands are taken as well. -/
theorem Registry.ofList_accepts_and_finds_minus :
    (∃ r, ofList [.arithmetic "-" 2 2 "sub" .promote, .arithmetic "-" 3 1 "neg" .promote] = .ok r ∧
      r.resolve "-" 3 = some (.arithmetic "-" 2 2 "sub" .promote) ∧
      r.lookup "-" 1 = some (.arithmetic "-" 3 1 "neg" .promote)) ∧
    ofList [.arithmetic "-" 2 2 "sub" .promote, .arithmetic "-" 2 2 "sub" .promote,
      .arithmetic "+" 4 3 "add" .promote] = .error (.duplicateOpcode 2 "-" "-") := by
  constructor
  · obtain ⟨haccepts, -, -, hfinds⟩ := ofList_accepts_and_finds
      [.arithmetic "-" 2 2 "sub" .promote, .arithmetic "-" 3 1 "neg" .promote]
    obtain ⟨r, hr⟩ := haccepts.mpr (by decide)
    obtain ⟨-, hfound, -, -, -, -, hbinary, -⟩ := hfinds r hr
    refine ⟨r, hr, (hbinary "-" 3 (by decide) _).mpr (by decide), ?_⟩
    exact (hfound (.arithmetic "-" 3 1 "neg" .promote) (by decide)).2
  · obtain ⟨-, hfaults, -⟩ := ofList_accepts_and_finds
      [.arithmetic "-" 2 2 "sub" .promote, .arithmetic "-" 2 2 "sub" .promote,
        .arithmetic "+" 4 3 "add" .promote]
    refine (hfaults _).mpr ⟨[.arithmetic "-" 2 2 "sub" .promote],
      .arithmetic "-" 2 2 "sub" .promote, [.arithmetic "+" 4 3 "add" .promote], rfl, ?_, ?_⟩
    · refine (firstFault_eq_none_iff_forall _).mp ?_
      decide
    · exact .opcode (by decide) List.mem_cons_self rfl

end Formula
