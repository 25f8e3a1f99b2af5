import Formula.Proofs.Soundness

/-!
# Terms

A term is a tree of constants, parameters and applications of operators. Its records in
post-order are its listing. Listings can be read back, so that a listing has only one term
(`eq_of_listing_eq`). Terms have types, by rules of their own, and values.
-/

namespace Formula

/-- The result of the primitive that an operator names. -/
def Operator.apply (op : Operator) (operands : List Cell) : Option Cell :=
  (Primitive.ofName? op.primitive).bind (·.apply operands)

/-- A tree of constants, parameters and applications of operators with one or two operands. -/
inductive Term where
  /-- A word read at a type. -/
  | constant (type : Ty) (word : UInt64)
  /-- The parameter with an index, read at a type. -/
  | parameter (index : UInt64) (type : Ty)
  /-- An operator applied to one operand. -/
  | unary (op : Operator) (operand : Term)
  /-- An operator applied to two operands. -/
  | binary (op : Operator) (left right : Term)
deriving DecidableEq

namespace Term

/-! ## Listings -/

/-- The records of a tree, operands before the operator that is applied to them. -/
def listing : Term → List Record
  | constant type word => [.ofKind type.kind word]
  | parameter index _ => [.ofKind .symbol index]
  | unary op operand => operand.listing ++ [.apply op.opcode]
  | binary op left right => left.listing ++ right.listing ++ [.apply op.opcode]

theorem listing_ne_nil (t : Term) : t.listing ≠ [] := by
  cases t <;> simp [listing]

/-- The records of a tree have kinds for tags. -/
theorem eq_ofKind_of_mem_listing {t : Term} {r : Record} (h : r ∈ t.listing) :
    ∃ kind word, r = .ofKind kind word := by
  induction t with
  | constant type word => exact ⟨type.kind, word, by simpa [listing] using h⟩
  | parameter index type => exact ⟨.symbol, index, by simpa [listing] using h⟩
  | unary op operand ih =>
      rw [listing, List.mem_append, List.mem_singleton] at h
      rcases h with h | h
      · exact ih h
      · exact ⟨.parenthesis, op.opcode, h⟩
  | binary op left right ihl ihr =>
      rw [listing, List.mem_append, List.mem_append, List.mem_singleton] at h
      rcases h with (h | h) | h
      · exact ihl h
      · exact ihr h
      · exact ⟨.parenthesis, op.opcode, h⟩

/-- Trees whose parameters have the types of the slots and whose operators are those of the
registry with as many operands. -/
def Fits (registry : Registry) (slotTags : List Nat) : Term → Prop
  | constant _ _ => True
  | parameter index type => slotTags[index.toNat]? = some type.tag
  | unary op operand => op ∈ registry.operators ∧ op.arity = 1 ∧ operand.Fits registry slotTags
  | binary op left right =>
    op ∈ registry.operators ∧ op.arity = 2 ∧ left.Fits registry slotTags ∧
      right.Fits registry slotTags

/-- Reads a record onto a stack of trees, the last one first. -/
def readRecord (registry : Registry) (slotTags : List Nat) (stack : List Term) (r : Record) :
    Option (List Term) :=
  match Checker.exactKind? r.tag with
  | none => none
  | some .parenthesis =>
    (registry.byOpcode r.payload).bind fun op =>
      match op.arity, stack with
      | 1, a :: stack => some (.unary op a :: stack)
      | 2, b :: a :: stack => some (.binary op a b :: stack)
      | _, _ => none
  | some .symbol =>
    (slotTags[r.payload.toNat]?.bind Ty.ofTag?).map (.parameter r.payload · :: stack)
  | some kind => kind.ty?.map (.constant · r.payload :: stack)

variable {registry : Registry} {slotTags : List Nat}

/-- Reading an operator takes its operands off the stack. -/
theorem readRecord_apply {op : Operator} (hop : op ∈ registry.operators) (stack : List Term) :
    readRecord registry slotTags stack (.apply op.opcode) =
      match op.arity, stack with
      | 1, a :: stack => some (.unary op a :: stack)
      | 2, b :: a :: stack => some (.binary op a b :: stack)
      | _, _ => none := by
  have hfound : registry.byOpcode op.opcode = some op :=
    Registry.byOpcode_eq_some_iff.mpr ⟨hop, rfl⟩
  unfold readRecord Record.apply
  rw [Checker.exactKind?_ofKind]
  simp only [Record.ofKind, hfound, Option.bind_some]

/-- Reading the listing of a tree puts the tree on the stack. -/
theorem foldlM_readRecord_listing {t : Term} (h : t.Fits registry slotTags)
    (stack : List Term) :
    t.listing.foldlM (readRecord registry slotTags) stack = some (t :: stack) := by
  -- The stack is general, since the right operand is read on top of the left one.
  induction t generalizing stack with
  | constant type word => cases type <;> rfl
  | parameter index type =>
      have hslot : slotTags[index.toNat]? = some type.tag := h
      simp [listing, readRecord, Record.ofKind, hslot, Checker.exactKind?, Kind.tag, Kind.ofTag?]
  | unary op operand ih =>
      obtain ⟨hop, harity, hoperand⟩ := h
      rw [listing, List.foldlM_append, ih hoperand]
      simp [readRecord_apply hop, harity]
  | binary op left right ihl ihr =>
      obtain ⟨hop, harity, hleft, hright⟩ := h
      rw [listing, List.foldlM_append, List.foldlM_append, ihl hleft]
      simp [ihr hright, readRecord_apply hop, harity]

/-- A listing has only one tree. -/
theorem eq_of_listing_eq {t t' : Term} (h : t.Fits registry slotTags)
    (h' : t'.Fits registry slotTags) (hlisting : t.listing = t'.listing) : t = t' := by
  have hread := foldlM_readRecord_listing h []
  rw [hlisting, foldlM_readRecord_listing h' []] at hread
  simpa using hread.symm

/-! ## Types and values -/

/-- The types of trees: an operator with hints asks for operands of those types, one without
for operands that its primitive accepts. -/
inductive HasType (registry : Registry) (slotTags : List Nat) : Term → Ty → Prop
  | constant (type : Ty) (word : UInt64) : HasType registry slotTags (.constant type word) type
  | parameter {index : UInt64} {type : Ty} (hslot : slotTags[index.toNat]? = some type.tag) :
      HasType registry slotTags (.parameter index type) type
  | unary {op : Operator} {primitive : Primitive} {operand : Term} {type : Ty}
      (hop : op ∈ registry.operators)
      (hprimitive : Primitive.ofName? op.primitive = some primitive)
      (harity : primitive.arity = op.arity) (hcount : op.arity = 1)
      (hoperand : HasType registry slotTags operand type) (htakes : op.Takes primitive [type]) :
      HasType registry slotTags (.unary op operand) (op.result.resultType [type])
  | binary {op : Operator} {primitive : Primitive} {left right : Term} {type type' : Ty}
      (hop : op ∈ registry.operators)
      (hprimitive : Primitive.ofName? op.primitive = some primitive)
      (harity : primitive.arity = op.arity) (hcount : op.arity = 2)
      (hleft : HasType registry slotTags left type)
      (hright : HasType registry slotTags right type')
      (htakes : op.Takes primitive [type, type']) :
      HasType registry slotTags (.binary op left right) (op.result.resultType [type, type'])

/-- A well typed tree has parameters and operators that there are. -/
theorem HasType.fits {t : Term} {type : Ty} (h : HasType registry slotTags t type) :
    t.Fits registry slotTags := by
  induction h with
  | constant => exact trivial
  | parameter hslot => exact hslot
  | unary hop _ _ hcount _ _ ih => exact ⟨hop, hcount, ih⟩
  | binary hop _ _ hcount _ _ _ ihl ihr => exact ⟨hop, hcount, ihl, ihr⟩

/-- A tree has one type at most. -/
theorem HasType.unique {t : Term} {type type' : Ty} (h : HasType registry slotTags t type)
    (h' : HasType registry slotTags t type') : type = type' := by
  induction h generalizing type' with
  | constant => cases h'; rfl
  | parameter => cases h'; rfl
  | unary _ _ _ _ _ _ ih =>
      cases h' with
      | unary _ _ _ _ hoperand _ => rw [ih hoperand]
  | binary _ _ _ _ _ _ _ ihl ihr =>
      cases h' with
      | binary _ _ _ _ hleft hright _ => rw [ihl hleft, ihr hright]

/-- The value of a tree on argument words. Constant texts are looked up with `read` and texts
among the arguments with `readArg`. -/
def eval (read readArg : UInt64 → Option String) (args : Array UInt64) : Term → Option Cell
  | constant type word => Script.argumentCell? read word type
  | parameter index type => Script.argumentCell? readArg (args.getD index.toNat 0) type
  | unary op operand => do
    let x ← operand.eval read readArg args
    op.apply [x]
  | binary op left right => do
    let x ← left.eval read readArg args
    let y ← right.eval read readArg args
    op.apply [x, y]

end Term

end Formula
