import Formula.Proofs.Registry
import Mathlib.Data.List.FinRange

/-!
# Indexed registries

The operators of a registry can be found without going through all of them, by tables of their
places under their opcodes and under their names. The tables are filled while the operators are
declared one after another, and the rules for operators are checked with the tables that are there
by then (`Index.ofList`). This stops at the same fault as going through all earlier operators does
(`Index.ofList_eq_error_iff`), and the same operators are found in the end
(`Index.exists_ofList_agrees`).
-/

namespace Formula

/-- Tables of the places of operators in a list. -/
structure Index (operators : List Operator) where
  /-- The place of the operator with an opcode. -/
  byOpcode : Std.HashMap UInt64 (Fin operators.length)
  /-- The places of the operators with a name, in the order of their declaration. -/
  byName : Std.HashMap String (List (Fin operators.length))

namespace Index

variable {operators : List Operator}

/-- Tables without places. -/
def empty : Index operators :=
  ⟨∅, ∅⟩

/-- The places of the operators with a name. -/
def places (index : Index operators) (name : String) : List (Fin operators.length) :=
  index.byName.getD name []

/-- Writes a place into both tables. -/
def insert (index : Index operators) (place : Fin operators.length) : Index operators :=
  ⟨index.byOpcode.insert operators[place].opcode place,
    index.byName.insert operators[place].name (index.places operators[place].name ++ [place])⟩

/-- The fault of an operator after those that are in the tables. -/
def fault? (index : Index operators) (op : Operator) : Option RegistryError :=
  if op.arity ≠ 1 && op.arity ≠ 2 then some (.unsupportedArity op.name op.arity)
  else
    match index.byOpcode[op.opcode]? with
    | some owner => some (.duplicateOpcode op.opcode operators[owner].name op.name)
    | none =>
      if (index.places op.name).any fun other => operators[other].arity == op.arity then
        some (.duplicateArity op.name op.arity)
      else none

/-- Declares the operator at a place. -/
def declare (index : Index operators) (place : Fin operators.length) :
    Except RegistryError (Index operators) :=
  match index.fault? operators[place] with
  | some fault => .error fault
  | none => .ok (index.insert place)

/-- The tables of a list of operators, or the first fault in it. -/
def ofList (operators : List Operator) : Except RegistryError (Index operators) :=
  (List.finRange operators.length).foldlM declare empty

/-- The operator with this name and number of operands. -/
def lookup (index : Index operators) (name : String) (arity : Nat) : Option Operator :=
  ((index.places name).map (operators[·])).find? (·.arity == arity)

/-- The operator with this opcode. -/
def find? (index : Index operators) (opcode : UInt64) : Option Operator :=
  index.byOpcode[opcode]?.map (operators[·])

/-- Whether some operator has this name. -/
def contains (index : Index operators) (name : String) : Bool :=
  index.byName.contains name

/-! ## Filling the tables -/

/-- The tables hold the places that were declared, of which the last comes first. -/
structure Reflects (index : Index operators) (declared : List (Fin operators.length)) : Prop where
  opcode : ∀ opcode, index.byOpcode[opcode]? = declared.find? (operators[·].opcode == opcode)
  name : ∀ name, index.places name = (declared.filter (operators[·].name == name)).reverse
  contains : ∀ name, index.contains name = declared.any (operators[·].name == name)

variable {index : Index operators} {declared : List (Fin operators.length)}

theorem reflects_empty : Reflects (empty : Index operators) [] := by
  refine ⟨fun opcode => ?_, fun name => ?_, fun name => ?_⟩
  · exact Std.HashMap.getElem?_empty
  · exact Std.HashMap.getD_empty
  · exact Std.HashMap.contains_empty

/-- A place is written into the tables. -/
theorem Reflects.insert (h : Reflects index declared) (place : Fin operators.length) :
    Reflects (index.insert place) (place :: declared) := by
  refine ⟨fun opcode => ?_, fun name => ?_, fun name => ?_⟩
  · rw [Index.insert, Std.HashMap.getElem?_insert, h.opcode, List.find?_cons]
    cases operators[place].opcode == opcode <;> rfl
  · rw [Index.insert, places, Std.HashMap.getD_insert, List.filter_cons]
    cases hname : operators[place].name == name with
    | true => rw [if_pos rfl, if_pos rfl, List.reverse_cons, ← h.name, eq_of_beq hname]
    | false =>
        rw [if_neg Bool.false_ne_true, if_neg Bool.false_ne_true, ← h.name]
        rfl
  · rw [Index.insert, Index.contains, Std.HashMap.contains_insert, List.any_cons, ← h.contains]
    rfl

/-- By the tables, an operator has the fault that it has after the declared ones. -/
theorem Reflects.fault?_eq (h : Reflects index declared) (op : Operator) :
    index.fault? op = op.faultAfter (declared.map (operators[·])) := by
  have hfind : (declared.map (operators[·])).find? (·.opcode == op.opcode) =
      index.byOpcode[op.opcode]?.map (operators[·]) := by
    rw [List.find?_map, h.opcode]
    rfl
  have hany : ((declared.map (operators[·])).any fun other =>
      other.name == op.name && other.arity == op.arity) =
      (index.places op.name).any fun other => operators[other].arity == op.arity := by
    rw [List.any_map, h.name, List.any_reverse, List.any_filter]
    rfl
  rw [fault?, Operator.faultAfter, hfind, hany]
  cases index.byOpcode[op.opcode]? with
  | some owner => rfl
  | none => rfl

/-- Declaring operators one after another stops at the first fault. Without a fault all of them are
in the tables. -/
theorem Reflects.foldlM (h : Reflects index declared) (rest : List (Fin operators.length)) :
    (∀ fault, firstFault (declared.map (operators[·])) (rest.map (operators[·])) = some fault →
      rest.foldlM declare index = .error fault) ∧
    (firstFault (declared.map (operators[·])) (rest.map (operators[·])) = none →
      ∃ index', rest.foldlM declare index = .ok index' ∧
        Reflects index' (rest.reverse ++ declared)) := by
  induction rest generalizing index declared with
  | nil =>
      refine ⟨?_, fun _ => ⟨index, rfl, h⟩⟩
      rintro _ ⟨⟩
  | cons place rest ih =>
      rw [List.map_cons, firstFault, List.foldlM_cons, declare, h.fault?_eq]
      cases operators[place].faultAfter (declared.map (operators[·])) with
      | some fault =>
          constructor
          · rintro _ ⟨⟩
            rfl
          · rintro ⟨⟩
      | none =>
          rw [List.reverse_cons, List.append_assoc, List.singleton_append]
          exact ih (h.insert place)

/-! ## Finding operators -/

/-- A registry and the tables of its operators, in which the same operators are found. -/
structure Agrees (index : Index operators) (r : Registry) : Prop where
  lookup : ∀ name arity, index.lookup name arity = r.lookup name arity
  byOpcode : ∀ opcode, index.find? opcode = r.byOpcode opcode
  contains : ∀ name, index.contains name = r.contains name

theorem map_finRange (operators : List Operator) :
    (List.finRange operators.length).map (operators[·]) = operators := by
  rw [← List.ofFn_eq_map]
  exact List.ofFn_get operators

/-- At most one operator of a registry has an opcode, so they may be gone through from the end. -/
theorem find?_reverse_operators (r : Registry) (opcode : UInt64) :
    r.operators.reverse.find? (·.opcode == opcode) = r.byOpcode opcode := by
  have hpairs : r.operators.reverse.Pairwise fun a b =>
      ¬((a.opcode == opcode) = true ∧ (b.opcode == opcode) = true) :=
    List.pairwise_reverse.mpr ((r.pairwise_opcode opcode).imp fun h => mt And.symm h)
  ext op
  rw [find?_eq_some_iff_of_pairwise hpairs, Registry.byOpcode_eq_some_iff,
    List.mem_reverse, beq_iff_eq]

/-- Tables of all places find what going through the operators finds. -/
theorem Reflects.agrees {r : Registry} {index : Index r.operators}
    (h : Reflects index (List.finRange r.operators.length).reverse) : index.Agrees r := by
  have hall := map_finRange r.operators
  refine ⟨fun name arity => ?_, fun opcode => ?_, fun name => ?_⟩
  · have hplaces : (index.places name).map (r.operators[·]) =
        r.operators.filter (·.name == name) := by
      rw [h.name, List.filter_reverse, List.reverse_reverse]
      conv_rhs => rw [← hall]
      rw [List.filter_map]
      rfl
    rw [lookup, hplaces, List.find?_filter, Registry.lookup]
    congr 1
    funext op
    rw [Bool.decide_and, Bool.decide_eq_true, Bool.decide_eq_true, Bool.and_comm]
  · rw [← find?_reverse_operators]
    conv_rhs => rw [← hall]
    rw [find?, h.opcode, ← List.map_reverse, List.find?_map]
    rfl
  · rw [h.contains, List.any_reverse, Registry.contains]
    conv_rhs => rw [← hall]
    rw [List.any_map]
    rfl

/-- Filling the tables stops at the first fault of a list. -/
theorem ofList_eq_error_iff {fault : RegistryError} :
    ofList operators = .error fault ↔ firstFault [] operators = some fault := by
  obtain ⟨hfault, hsound⟩ := reflects_empty.foldlM (List.finRange operators.length)
  rw [List.map_nil, map_finRange] at hfault hsound
  refine ⟨fun h => ?_, hfault fault⟩
  cases hfirst : firstFault [] operators with
  | none =>
      obtain ⟨index, hindex, -⟩ := hsound hfirst
      cases h.symm.trans hindex
  | some fault' =>
      cases h.symm.trans (hfault fault' hfirst)
      rfl

/-- The tables of the operators of a registry are filled, and the same operators are found. -/
theorem exists_ofList_agrees (r : Registry) :
    ∃ index, ofList r.operators = .ok index ∧ index.Agrees r := by
  obtain ⟨-, hsound⟩ := reflects_empty.foldlM (List.finRange r.operators.length)
  rw [List.map_nil, map_finRange] at hsound
  obtain ⟨index, hindex, hreflects⟩ := hsound r.consistent
  rw [List.append_nil] at hreflects
  exact ⟨index, hindex, hreflects.agrees⟩

end Index

end Formula
