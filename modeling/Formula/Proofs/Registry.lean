import Formula.Operator.Registry
import Mathlib.Data.List.Basic
import Mathlib.Tactic.Common

/-!
# Lookups in consistent registries

The operators of a registry have one or two operands, and differ pairwise both in their opcodes
and in their names with numbers of operands. So the opcode stands for exactly one operator
(`byOpcode_eq_some_iff`), and so does a name with a number of operands (`lookup_eq_some_iff`).
-/

namespace Formula

/-! ## Faults -/

namespace Operator

/-- Operators that a registry can hold side by side. -/
structure Distinct (a b : Operator) : Prop where
  opcode : a.opcode ≠ b.opcode
  signature : ¬(a.name = b.name ∧ a.arity = b.arity)

/-- An operator is without fault if its number of operands is right and it is distinct from all
that are declared before it. -/
theorem faultAfter_eq_none_iff (earlier : List Operator) (op : Operator) :
    op.faultAfter earlier = none ↔
      (op.arity = 1 ∨ op.arity = 2) ∧ ∀ other ∈ earlier, Distinct other op := by
  unfold faultAfter
  by_cases harity : op.arity = 1 ∨ op.arity = 2
  · have hcheck : ¬((op.arity ≠ 1 && op.arity ≠ 2) = true) := by
      rcases harity with h | h <;> simp [h]
    rw [if_neg hcheck]
    cases hfind : earlier.find? (·.opcode == op.opcode) with
    | some other =>
        have hmem := List.mem_of_find?_eq_some hfind
        have hopcode := List.find?_some hfind
        simp only [reduceCtorEq, false_iff, not_and, not_forall]
        intro _
        exact ⟨other, hmem, fun h => h.opcode (by simpa using hopcode)⟩
    | none =>
        have hnone := List.find?_eq_none.mp hfind
        simp only [ite_eq_right_iff, reduceCtorEq, imp_false, List.any_eq_true, not_exists,
          not_and, harity, true_and]
        constructor
        · intro h other hother
          refine ⟨?_, ?_⟩
          · intro heq
            exact hnone other hother (by simpa using heq)
          · rintro ⟨hname, hcount⟩
            exact h other hother (by simp [hname, hcount])
        · intro h other hother hsame
          apply (h other hother).signature
          simpa using hsame
  · have hcheck : (op.arity ≠ 1 && op.arity ≠ 2) = true := by
      push Not at harity
      simp [harity.1, harity.2]
    rw [if_pos hcheck]
    simp [harity]

end Operator

/-- A list of operators is without fault if every number of operands is right and the operators
are distinct from one another and from those declared before them. -/
theorem firstFault_eq_none_iff (earlier operators : List Operator) :
    firstFault earlier operators = none ↔
      (∀ op ∈ operators, op.arity = 1 ∨ op.arity = 2) ∧
      operators.Pairwise Operator.Distinct ∧
      ∀ other ∈ earlier, ∀ op ∈ operators, Operator.Distinct other op := by
  induction operators generalizing earlier with
  | nil => simp [firstFault]
  | cons op ops ih =>
      unfold firstFault
      cases hfault : op.faultAfter earlier with
      | some fault =>
          have hne : ¬(op.faultAfter earlier = none) := by simp [hfault]
          rw [Operator.faultAfter_eq_none_iff] at hne
          simp only [reduceCtorEq, false_iff]
          rintro ⟨harity, _, hearlier⟩
          exact hne ⟨harity op (by simp), fun other hother => hearlier other hother op (by simp)⟩
      | none =>
          rw [Operator.faultAfter_eq_none_iff] at hfault
          obtain ⟨harity, hdistinct⟩ := hfault
          simp only [ih, List.forall_mem_cons, List.pairwise_cons]
          constructor
          · rintro ⟨harities, hpairs, hop, hearlier⟩
            exact ⟨⟨harity, harities⟩, ⟨hop, hpairs⟩,
              fun other hother => ⟨hdistinct other hother, hearlier other hother⟩⟩
          · rintro ⟨⟨_, harities⟩, ⟨hop, hpairs⟩, hearlier⟩
            exact ⟨harities, hpairs, hop, fun other hother => (hearlier other hother).2⟩

/-! ## Lookups -/

/-- In a list whose members differ pairwise in a key, a search for a key finds the only member
that has it. -/
theorem find?_eq_some_iff_of_pairwise {α : Type} {members : List α} {p : α → Bool} {x : α}
    (h : members.Pairwise fun a b => ¬(p a = true ∧ p b = true)) :
    members.find? p = some x ↔ x ∈ members ∧ p x = true := by
  induction members with
  | nil => simp
  | cons a rest ih =>
      rw [List.pairwise_cons] at h
      by_cases hp : p a = true
      · rw [List.find?_cons_of_pos hp]
        constructor
        · rintro ⟨⟩
          exact ⟨by simp, hp⟩
        · rintro ⟨hmem, hx⟩
          rcases List.mem_cons.mp hmem with rfl | hmem
          · rfl
          · exact absurd ⟨hp, hx⟩ (h.1 x hmem)
      · rw [List.find?_cons_of_neg hp, ih h.2]
        constructor
        · rintro ⟨hmem, hx⟩
          exact ⟨List.mem_cons_of_mem a hmem, hx⟩
        · rintro ⟨hmem, hx⟩
          rcases List.mem_cons.mp hmem with rfl | hmem
          · exact absurd hx hp
          · exact ⟨hmem, hx⟩

namespace Registry

variable {r : Registry} {op : Operator}

/-- The operators of a registry have one or two operands. -/
theorem arity_eq (hop : op ∈ r.operators) : op.arity = 1 ∨ op.arity = 2 :=
  ((firstFault_eq_none_iff [] r.operators).mp r.consistent).1 op hop

theorem pairwise_distinct (r : Registry) : r.operators.Pairwise Operator.Distinct :=
  ((firstFault_eq_none_iff [] r.operators).mp r.consistent).2.1

/-- No two operators of a registry have an opcode in common. -/
theorem pairwise_opcode (r : Registry) (opcode : UInt64) : r.operators.Pairwise fun a b =>
    ¬((a.opcode == opcode) = true ∧ (b.opcode == opcode) = true) := by
  refine r.pairwise_distinct.imp ?_
  rintro a b hdistinct ⟨ha, hb⟩
  exact hdistinct.opcode ((beq_iff_eq.mp ha).trans (beq_iff_eq.mp hb).symm)

/-- An opcode stands for the operator of the registry that has it. -/
theorem byOpcode_eq_some_iff {opcode : UInt64} :
    r.byOpcode opcode = some op ↔ op ∈ r.operators ∧ op.opcode = opcode := by
  unfold byOpcode
  rw [find?_eq_some_iff_of_pairwise (r.pairwise_opcode opcode), beq_iff_eq]

/-- A name with a number of operands stands for the operator of the registry that has both. -/
theorem lookup_eq_some_iff {name : String} {arity : Nat} :
    r.lookup name arity = some op ↔ op ∈ r.operators ∧ op.name = name ∧ op.arity = arity := by
  have hpairs : r.operators.Pairwise fun a b =>
      ¬((a.arity == arity && a.name == name) = true ∧
        (b.arity == arity && b.name == name) = true) := by
    refine r.pairwise_distinct.imp ?_
    rintro a b hdistinct ⟨ha, hb⟩
    simp only [Bool.and_eq_true, beq_iff_eq] at ha hb
    exact hdistinct.signature ⟨ha.2.trans hb.2.symm, ha.1.trans hb.1.symm⟩
  unfold lookup
  rw [find?_eq_some_iff_of_pairwise hpairs]
  simp only [Bool.and_eq_true, beq_iff_eq, and_comm (a := op.arity = arity)]

/-- A form is resolved to an operator of its name that takes as many operands as it has, or two
if it has more than two. -/
theorem resolve_eq_some {name : String} {count : Nat} (h : r.resolve name count = some op) :
    op ∈ r.operators ∧ op.name = name ∧ (op.arity = count ∨ op.arity = 2 ∧ 2 < count) := by
  unfold resolve at h
  rcases Option.or_eq_some_iff.mp h with h | ⟨_, h⟩
  · obtain ⟨hmem, hname, harity⟩ := lookup_eq_some_iff.mp h
    exact ⟨hmem, hname, Or.inl harity⟩
  · split at h
    · rename_i hcount
      obtain ⟨hmem, hname, harity⟩ := lookup_eq_some_iff.mp h
      exact ⟨hmem, hname, Or.inr ⟨harity, hcount⟩⟩
    · cases h

end Registry

end Formula
