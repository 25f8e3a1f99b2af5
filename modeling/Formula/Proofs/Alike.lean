import Formula.Proofs.Acceptance
import Mathlib.Data.List.Forall2

/-!
# Records that do the same

Two codes may run in different surroundings: a value that is a constant in the one may be an
argument in the other, and texts may have other addresses. If they are alike record for record
(`Record.Alike`), then where the one is the listing of a well typed term, the other is the listing
of a term of the same type with the same value (`Store.exists_term_of_forall₂`).
-/

namespace Formula

/-- What code finds when it runs: the texts of its constants, the types of the slots, and the
arguments with their texts. -/
structure Store where
  /-- Looks up the text of a constant. -/
  read : UInt64 → Option String
  /-- The numbers that stand for the types of the slots. -/
  slotTags : List Nat
  /-- Looks up the text of an argument. -/
  readArg : UInt64 → Option String
  /-- The words of the arguments. -/
  args : Array UInt64

/-- The value of a type that a record puts on the stack. -/
inductive Store.Holds (m : Store) : Record → Ty → Cell → Prop
  | constant {type : Ty} {word : UInt64} {cell : Cell}
      (hcell : Script.argumentCell? m.read word type = some cell) :
      Holds m (.ofKind type.kind word) type cell
  | parameter {index : UInt64} {type : Ty} {cell : Cell}
      (hslot : m.slotTags[index.toNat]? = some type.tag)
      (hcell : Script.argumentCell? m.readArg (m.args.getD index.toNat 0) type = some cell) :
      Holds m (.ofKind .symbol index) type cell

/-- Records that apply the same operator, or put the same value of the same type on the stack. -/
inductive Record.Alike (m m' : Store) : Record → Record → Prop
  | operator (opcode : UInt64) : Alike m m' (.apply opcode) (.apply opcode)
  | operand {r r' : Record} {type : Ty} {cell : Cell} (h : m.Holds r type cell)
      (h' : m'.Holds r' type cell) : Alike m m' r r'

/-- A record of a kind determines the kind and the payload. -/
theorem Record.ofKind_inj {kind kind' : Kind} {word word' : UInt64}
    (h : ofKind kind word = ofKind kind' word') : kind = kind' ∧ word = word' := by
  have hkind := Checker.exactKind?_ofKind kind word
  rw [h, Checker.exactKind?_ofKind] at hkind
  exact ⟨(Option.some.inj hkind).symm, congrArg Record.payload h⟩

/-- What is related to two lists one after another are two lists one after another. -/
theorem forall₂_append_left {α β : Type} {R : α → β → Prop} {as bs : List α} {cs : List β}
    (h : List.Forall₂ R (as ++ bs) cs) :
    ∃ cs₁ cs₂, List.Forall₂ R as cs₁ ∧ List.Forall₂ R bs cs₂ ∧ cs = cs₁ ++ cs₂ := by
  refine ⟨cs.take as.length, cs.drop as.length, ?_, ?_, (List.take_append_drop _ cs).symm⟩
  · simpa using List.forall₂_take as.length h
  · simpa using List.forall₂_drop as.length h

/-- The kinds of types are those of values. -/
theorem Ty.kind_ne (type : Ty) : type.kind ≠ .parenthesis ∧ type.kind ≠ .symbol := by
  cases type <;> decide

namespace Store

variable {m m' : Store} {registry : Registry} {t : Term} {type : Ty} {r : Record} {cell : Cell}

/-- The value of a term. -/
def value (m : Store) (t : Term) : Option Cell :=
  t.eval m.read m.readArg m.args

/-- A record that puts a value on the stack is a term with that value. -/
theorem Holds.exists_term (h : m.Holds r type cell) (registry : Registry) :
    ∃ t : Term, t.listing = [r] ∧ t.HasType registry m.slotTags type ∧ m.value t = some cell := by
  cases h with
  | @constant _ word _ hcell => exact ⟨.constant type word, rfl, .constant type word, hcell⟩
  | @parameter index _ _ hslot hcell => exact ⟨.parameter index type, rfl, .parameter hslot, hcell⟩

/-- No record both applies an operator and puts a value on the stack. -/
theorem Holds.ne_apply (h : m.Holds r type cell) (opcode : UInt64) : r ≠ .apply opcode := by
  intro happly
  cases h with
  | constant => exact type.kind_ne.1 (Record.ofKind_inj happly).1
  | parameter => cases (Record.ofKind_inj happly).1

/-- A term that is one record has the value that the record puts on the stack. -/
theorem Holds.eq_of_listing (h : m.Holds r type cell) {type' : Ty}
    (ht : t.HasType registry m.slotTags type') (hlisting : t.listing = [r]) :
    type' = type ∧ m.value t = some cell := by
  obtain ⟨t', hlisting', ht', hvalue⟩ := h.exists_term registry
  obtain rfl := Term.eq_of_listing_eq ht.fits ht'.fits (hlisting.trans hlisting'.symm)
  exact ⟨ht.unique ht', hvalue⟩

/-- Records alike to the only record of a term are a term of the same type with the same value. -/
theorem exists_term_of_alike (ht : t.HasType registry m.slotTags type) (hlisting : t.listing = [r])
    (hne : ∀ opcode, r ≠ .apply opcode) {records : List Record}
    (h : List.Forall₂ (Record.Alike m m') t.listing records) :
    ∃ t' : Term, t'.listing = records ∧ t'.HasType registry m'.slotTags type ∧
      m'.value t' = m.value t := by
  rw [hlisting] at h
  obtain ⟨r', rest, halike, hnil, rfl⟩ := List.forall₂_cons_left_iff.mp h
  obtain rfl := List.forall₂_nil_left_iff.mp hnil
  cases halike with
  | operator opcode => exact absurd rfl (hne opcode)
  | operand hr hr' =>
      obtain ⟨rfl, hvalue⟩ := hr.eq_of_listing ht hlisting
      obtain ⟨t', hlisting', ht', hvalue'⟩ := hr'.exists_term registry
      exact ⟨t', hlisting', ht', hvalue'.trans hvalue.symm⟩

/-- Records alike to those of operands and an operator are those of operands and the operator. -/
theorem exists_append_of_alike {operands records : List Record} {opcode : UInt64}
    (h : List.Forall₂ (Record.Alike m m') (operands ++ [.apply opcode]) records) :
    ∃ operands', records = operands' ++ [.apply opcode] ∧
      List.Forall₂ (Record.Alike m m') operands operands' := by
  obtain ⟨operands', rest, hoperands, hrest, rfl⟩ := forall₂_append_left h
  obtain ⟨r', rest, halike, hnil, rfl⟩ := List.forall₂_cons_left_iff.mp hrest
  obtain rfl := List.forall₂_nil_left_iff.mp hnil
  cases halike with
  | operator => exact ⟨operands', rfl, hoperands⟩
  | operand hr => exact absurd rfl (hr.ne_apply opcode)

/-- Records alike to those of a well typed term are those of a term of the same type with the same
value. -/
theorem exists_term_of_forall₂ (ht : t.HasType registry m.slotTags type) {records : List Record}
    (h : List.Forall₂ (Record.Alike m m') t.listing records) :
    ∃ t' : Term, t'.listing = records ∧ t'.HasType registry m'.slotTags type ∧
      m'.value t' = m.value t := by
  induction ht generalizing records with
  | constant type word =>
      refine exists_term_of_alike (.constant type word) rfl ?_ h
      exact fun opcode happly => type.kind_ne.1 (Record.ofKind_inj happly).1
  | @parameter index type hslot =>
      refine exists_term_of_alike (.parameter hslot) rfl ?_ h
      exact fun opcode happly => by cases (Record.ofKind_inj happly).1
  | @unary op primitive operand type hop hprimitive harity hcount _ htakes ih =>
      obtain ⟨operands', rfl, hoperand⟩ := exists_append_of_alike h
      obtain ⟨t', rfl, ht', hvalue⟩ := ih hoperand
      refine ⟨.unary op t', rfl, .unary hop hprimitive harity hcount ht' htakes, ?_⟩
      unfold value at hvalue ⊢
      rw [Term.eval, Term.eval, hvalue]
  | @binary op primitive left right type type' hop hprimitive harity hcount _ _ htakes ihl ihr =>
      obtain ⟨operands', rfl, hoperands⟩ := exists_append_of_alike h
      obtain ⟨lefts, rights, hlefts, hrights, rfl⟩ := forall₂_append_left hoperands
      obtain ⟨l, rfl, hl, hvaluel⟩ := ihl hlefts
      obtain ⟨r, rfl, hr, hvaluer⟩ := ihr hrights
      refine ⟨.binary op l r, rfl, .binary hop hprimitive harity hcount hl hr htakes, ?_⟩
      unfold value at hvaluel hvaluer ⊢
      rw [Term.eval, Term.eval, hvaluel, hvaluer]

/-- A record of a text puts it on the stack only if the text can be read. -/
theorem Holds.exists_text (h : m.Holds r type cell) (htag : r.tag = 4) :
    ∃ text, m.read r.payload = some text := by
  cases h with
  | parameter => cases Record.tag_ofKind_eq_four htag
  | constant hcell =>
      cases type with
      | bool | int | float => cases Record.tag_ofKind_eq_four htag
      | string =>
          obtain ⟨text, htext, _⟩ := Option.map_eq_some_iff.mp hcell
          exact ⟨text, htext⟩

/-- Texts among records that are alike to others can be read. -/
theorem areReadable_of_forall₂ {records records' : List Record}
    (h : List.Forall₂ (Record.Alike m m') records records') :
    Record.AreReadable m'.read records' := by
  induction h with
  | nil => exact fun r hr => absurd hr List.not_mem_nil
  | cons halike _ ih =>
      intro r hr htag
      rcases List.mem_cons.mp hr with rfl | hr
      · cases halike with
        | operator => cases Record.tag_ofKind_eq_four htag
        | operand _ hholds => exact hholds.exists_text htag
      · exact ih r hr htag

end Store

end Formula
