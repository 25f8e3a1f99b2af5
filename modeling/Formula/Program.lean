import Formula.Record
import Formula.TextPool
import Std.Data.HashMap

/-!
# Programs

A program is compiled code with all that is needed to run it: the parameters and their types,
the height of the stack, and the texts that the code refers to.
-/

namespace Formula

/-! ## Slots -/

/-- Gives slots to parameters, one after another. -/
class SlotStore (π : Type) where
  /-- The slot of a name. -/
  slot? : π → String → Option Nat
  /-- Gives the next slot to a name with a type: the slot, and the store with the parameter. -/
  add : π → String → Ty → Nat × π
  /-- The slots of all names. -/
  slots : π → List (String × Nat)
  /-- The types of the slots in order. -/
  types : π → List Ty

/-- Parameters with their types, each at the place of its slot. -/
instance : SlotStore (Array (String × Ty)) where
  slot? params name := params.findIdx? (·.1 == name)
  add params name type := (params.size, params.push (name, type))
  slots params := params.toList.zipIdx.map fun (param, slot) => (param.1, slot)
  types params := params.toList.map Prod.snd

/-- Slots by name, and the types of the slots apart from them. -/
structure SlotTable where
  /-- The slot of each name. -/
  indices : Std.HashMap String Nat
  /-- The type of each slot. -/
  types : Array Ty

/-- The table without slots. -/
def SlotTable.empty : SlotTable :=
  ⟨∅, #[]⟩

instance : SlotStore SlotTable where
  slot? table name := table.indices[name]?
  add table name type :=
    (table.types.size, ⟨table.indices.insert name table.types.size, table.types.push type⟩)
  slots table := table.indices.toList
  types table := table.types.toList

/-! ## Programs -/

/-- Compiled code that is ready to run. -/
structure Program (σ : Type := TextPool) where
  /-- The records in order. -/
  code : Array Record
  /-- The slot of each parameter, by name. -/
  slots : List (String × Nat)
  /-- The type of each slot. -/
  slotTypes : List Ty
  /-- The bytes that the stack needs at its highest. -/
  maxStackBytes : Nat
  /-- Whether the result is a float. -/
  returnsFloat : Bool
  /-- The texts that the code refers to. -/
  constants : σ

namespace Program

variable {σ : Type}

/-- The code as words. -/
def words (p : Program σ) : List UInt64 :=
  Record.toWords p.code.toList

/-- The code as bytes. -/
def bytes (p : Program σ) : List UInt8 :=
  Record.toBytes p.code.toList

/-- The numbers that stand for the types of the slots. -/
def slotTags (p : Program σ) : List Nat :=
  p.slotTypes.map Ty.tag

/-- The number of slots that hold texts. -/
def textSlotCount (p : Program σ) : Nat :=
  p.slotTypes.count .string

/-- The names of the parameters in the order of their slots. -/
def slotNames (p : Program σ) : List String :=
  (p.slots.mergeSort fun a b => a.2 ≤ b.2).map Prod.fst

end Program

end Formula
