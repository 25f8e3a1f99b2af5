import Formula.Operator.Builtin
import Formula.Proofs.Building
import Formula.Proofs.Frames
import Mathlib.Data.List.Forall2
import Mathlib.Data.List.Nodup

/-!
# Slots of parameters

A symbol takes the next slot when the compiler comes to it for the first time. So the parameters
stand in the order in which their names occur first among the symbols that were taken, over all
expressions of a run and also those that failed (`Draft.Slotted`). Slots stay where they are, and
each record of a parameter refers to the slot of the symbol that it stands for.
-/

namespace Formula

/-! ## First occurrences -/

/-- One more name is a first occurrence unless it has occurred before. -/
theorem eraseDups_concat (names : List String) (name : String) :
    (names ++ [name]).eraseDups =
      if name ∈ names then names.eraseDups else names.eraseDups ++ [name] := by
  rw [List.eraseDups_append]
  by_cases hmem : name ∈ names
  · simp [List.removeAll, hmem]
  · simp [List.removeAll, hmem, List.eraseDups_cons]

/-- First occurrences are different names. -/
theorem nodup_eraseDups (names : List String) : names.eraseDups.Nodup := by
  induction names using List.reverseRecOn with
  | nil => exact List.nodup_nil
  | append_singleton names name ih =>
      rw [eraseDups_concat]
      split_ifs with hmem
      · exact ih
      · refine List.nodup_append.mpr ⟨ih, List.nodup_singleton name, ?_⟩
        intro a ha b hb hab
        rw [List.mem_singleton.mp hb] at hab
        exact hmem (List.mem_eraseDups.mp (hab ▸ ha))

/-- The slot that a record of a parameter refers to. -/
def Record.parameter? (r : Record) : Option UInt64 :=
  if r.kind? = some .symbol then some r.payload else none

/-- Records of other kinds refer to no slot. -/
theorem Record.parameter?_ofKind {kind : Kind} (hkind : kind ≠ .symbol) (word : UInt64) :
    (ofKind kind word).parameter? = none := by
  rw [parameter?, kind?_ofKind, if_neg]
  simpa using hkind

namespace Draft

variable {scope : Scope} {d d' : Draft} {op : Operator} {names : List String} {name : String}
  {type : Ty} {slot : Nat}

/-! ## Slots by name -/

/-- A parameter keeps its slot when others are added. -/
theorem lookup_slots_of_prefix (hparams : d.params.toList <+: d'.params.toList)
    (h : d.slots.lookup name = some slot) : d'.slots.lookup name = some slot := by
  rw [lookup_slots] at h ⊢
  exact hparams.findIdx?_eq_some h

/-- A name has a slot if and only if it is the name of the parameter there and of none before. -/
theorem lookup_slots_eq_some_iff (hnodup : (d.params.toList.map Prod.fst).Nodup) :
    d.slots.lookup name = some slot ↔ (d.params.toList.map Prod.fst)[slot]? = some name := by
  rw [lookup_slots, List.findIdx?_eq_some_iff_getElem, List.getElem?_eq_some_iff]
  constructor
  · rintro ⟨hlt, hsame, _⟩
    refine ⟨by rwa [List.length_map], ?_⟩
    rw [List.getElem_map]
    exact beq_iff_eq.mp hsame
  · rintro ⟨hlt, hsame⟩
    have hlt' : slot < d.params.toList.length := by rwa [List.length_map] at hlt
    rw [List.getElem_map] at hsame
    refine ⟨hlt', beq_iff_eq.mpr hsame, ?_⟩
    intro j hj hfound
    have hj' : j < (d.params.toList.map Prod.fst).length := Nat.lt_trans hj hlt
    have hequal : (d.params.toList.map Prod.fst)[j] = (d.params.toList.map Prod.fst)[slot] := by
      rw [List.getElem_map, List.getElem_map, hsame]
      exact beq_iff_eq.mp hfound
    have hindex := (hnodup.getElem_inj_iff).mp hequal
    omega

/-! ## Drafts with slots for symbols -/

/-- Drafts in which the symbols `names` have been taken: the parameters are their first occurrences
with the declared types, texts among them have been counted, and each record of a parameter refers
to the slot of the symbol it stands for. -/
structure Slotted (scope : Scope) (names : List String) (d : Draft) : Prop where
  params : d.params.toList.map Prod.fst = names.eraseDups
  declared : ∀ param ∈ d.params.toList, scope.symbols.lookup param.1 = some param.2
  texts : d.textSlotCount = d.slotTypes.count .string
  records : List.Forall₂ (fun word name => ∃ slot, d.slots.lookup name = some slot ∧
    word = UInt64.ofNat slot) (d.code.toList.filterMap Record.parameter?) names

theorem slotted_empty (scope : Scope) : Slotted scope [] .empty :=
  ⟨rfl, nofun, rfl, .nil⟩

/-- What adds no parameters and no records of parameters takes no symbols. -/
theorem Slotted.congr (hd : Slotted scope names d) (hparams : d'.params = d.params)
    (htexts : d'.textSlotCount = d.textSlotCount)
    (hrecords : d'.code.toList.filterMap Record.parameter? =
      d.code.toList.filterMap Record.parameter?) : Slotted scope names d' := by
  have hslots : d'.slots = d.slots := by rw [slots, slots, hparams]
  have hslotTypes : d'.slotTypes = d.slotTypes := by rw [slotTypes, slotTypes, hparams]
  refine ⟨?_, ?_, ?_, ?_⟩
  · rw [hparams, hd.params]
  · rw [hparams]
    exact hd.declared
  · rw [htexts, hslotTypes, hd.texts]
  · rw [hrecords, hslots]
    exact hd.records

/-- What a symbol does to the parameters: it has a slot, or it is new and gets the next one. -/
theorem slotOf_cases (d : Draft) (name : String) (type : Ty) :
    (∃ slot, d.slots.lookup name = some slot ∧ d.slotOf name type = (slot, d)) ∨
      (∀ param ∈ d.params.toList, param.1 ≠ name) ∧
        (d.slotOf name type).2.params = d.params.push (name, type) ∧
        (d.slotOf name type).2.textSlotCount =
          d.textSlotCount + if type = .string then 1 else 0 := by
  rw [lookup_slots, slotOf_eq]
  cases hfound : d.params.toList.findIdx? (·.1 == name) with
  | some slot => exact .inl ⟨slot, rfl, rfl⟩
  | none =>
      refine .inr ⟨?_, rfl, ?_⟩
      · intro param hparam hsame
        have hnone := List.findIdx?_eq_none_iff.mp hfound param hparam
        simp [hsame] at hnone
      · dsimp only
        split_ifs <;> rfl

/-- After a symbol has been taken, its slot is the one that the record refers to. -/
@[simp]
theorem lookup_slots_pushSymbol (d : Draft) (name : String) (type : Ty) :
    (d.pushSymbol name type).slots.lookup name = some (d.slotOf name type).1 := by
  rw [lookup_slots, params_pushSymbol]
  exact findIdx?_slotOf (Prod.eta (d.slotOf name type)).symm

/-- The symbols that have been taken are the names of the parameters. -/
theorem Slotted.mem_iff (hd : Slotted scope names d) :
    name ∈ names ↔ ∃ param ∈ d.params.toList, param.1 = name := by
  rw [← List.mem_eraseDups, ← hd.params, List.mem_map]

/-- One more record of a parameter refers to the slot of its symbol, and the others refer to slots as
before. -/
theorem Slotted.records_concat (hd : Slotted scope names d)
    (hcode : d'.code = d.code.push (.ofKind .symbol (UInt64.ofNat slot)))
    (hparams : d.params.toList <+: d'.params.toList) (hslot : d'.slots.lookup name = some slot) :
    List.Forall₂ (fun word name => ∃ slot, d'.slots.lookup name = some slot ∧
      word = UInt64.ofNat slot) (d'.code.toList.filterMap Record.parameter?) (names ++ [name]) := by
  have hlast : (Record.ofKind .symbol (UInt64.ofNat slot)).parameter? =
      some (UInt64.ofNat slot) := by
    rw [Record.parameter?, Record.kind?_ofKind, if_pos rfl]
    rfl
  rw [hcode, Array.toList_push, List.filterMap_append, List.filterMap_cons_some hlast,
    List.filterMap_nil]
  refine List.rel_append (hd.records.imp ?_) (.cons ⟨slot, hslot, rfl⟩ .nil)
  rintro word other ⟨k, hk, hword⟩
  exact ⟨k, lookup_slots_of_prefix hparams hk, hword⟩

/-- Taking a symbol that has a slot leaves the parameters as they are. -/
theorem Slotted.known (hd : Slotted scope names d) (hslot : d.slots.lookup name = some slot) :
    Slotted scope (names ++ [name]) (d.pushOperand (.ofKind .symbol (UInt64.ofNat slot))) := by
  have hoccurred : name ∈ names := by
    rw [lookup_slots] at hslot
    obtain ⟨hlt, hsame, _⟩ := List.findIdx?_eq_some_iff_getElem.mp hslot
    exact hd.mem_iff.mpr ⟨_, List.getElem_mem hlt, beq_iff_eq.mp hsame⟩
  refine ⟨?_, hd.declared, hd.texts, hd.records_concat rfl (List.prefix_refl _) hslot⟩
  rw [eraseDups_concat, if_pos hoccurred]
  exact hd.params

/-- Taking a symbol that is new puts it after the other parameters, with the type that it is declared
with. -/
theorem Slotted.new (hd : Slotted scope names d) (hname : scope.symbols.lookup name = some type)
    (hnew : ∀ param ∈ d.params.toList, param.1 ≠ name)
    (hparams : d'.params = d.params.push (name, type))
    (htexts : d'.textSlotCount = d.textSlotCount + if type = .string then 1 else 0)
    (hcode : d'.code = d.code.push (.ofKind .symbol (UInt64.ofNat slot)))
    (hslot : d'.slots.lookup name = some slot) : Slotted scope (names ++ [name]) d' := by
  have hunheard : name ∉ names := by
    rw [hd.mem_iff]
    rintro ⟨param, hparam, hsame⟩
    exact hnew param hparam hsame
  have hlist : d'.params.toList = d.params.toList ++ [(name, type)] := by
    rw [hparams, Array.toList_push]
  refine ⟨?_, ?_, ?_, hd.records_concat hcode (hlist ▸ List.prefix_append _ _) hslot⟩
  · rw [hlist, List.map_append, hd.params, eraseDups_concat, if_neg hunheard]
    rfl
  · intro param hparam
    rw [hlist, List.mem_append, List.mem_singleton] at hparam
    rcases hparam with hparam | rfl
    · exact hd.declared param hparam
    · exact hname
  · rw [htexts, hd.texts, slotTypes_eq, slotTypes_eq, hlist, List.map_append, List.count_append]
    by_cases htype : type = .string <;> simp [htype]

/-- Taking a symbol gives it a slot, unless it has one, and refers to the slot. -/
theorem Slotted.symbol (hd : Slotted scope names d)
    (hname : scope.symbols.lookup name = some type) :
    Slotted scope (names ++ [name]) (d.pushSymbol name type) := by
  rcases slotOf_cases d name type with ⟨slot, hold, hslot⟩ | ⟨hnew, hparams, htexts⟩
  · rw [pushSymbol, hslot]
    exact hd.known hold
  · exact hd.new hname hnew hparams htexts (code_pushSymbol ..) (d.lookup_slots_pushSymbol name type)

/-- A record that refers to no slot takes no symbols. -/
theorem Slotted.push (hd : Slotted scope names d) {r : Record} (hr : r.parameter? = none)
    (hcode : d'.code = d.code.push r) (hparams : d'.params = d.params)
    (htexts : d'.textSlotCount = d.textSlotCount) : Slotted scope names d' := by
  refine hd.congr hparams htexts ?_
  rw [hcode, Array.toList_push, List.filterMap_append, List.filterMap_cons_none hr,
    List.filterMap_nil, List.append_nil]

/-- Taking a node takes the symbol that it is, if it is one. -/
theorem Takes.slotted {v : Visit} (h : Takes scope d v d') (hd : Slotted scope names d) :
    Slotted scope (names ++ v.symbol?.toList) d' := by
  cases h with
  | form name count => simpa [Visit.symbol?] using hd
  | @value type htype text word =>
      have hkind : type.kind ≠ .symbol := by cases type <;> decide
      have hnone : Visit.symbol? ⟨type.kind, text, 0⟩ = none := if_neg hkind
      rw [hnone, Option.toList_none, List.append_nil]
      exact hd.push (Record.parameter?_ofKind hkind word) rfl rfl rfl
  | @text text hsize =>
      have hkind : Kind.string ≠ .symbol := by decide
      have hnone : Visit.symbol? ⟨.string, text, 0⟩ = none := rfl
      rw [hnone, Option.toList_none, List.append_nil]
      exact hd.push (Record.parameter?_ofKind hkind _) rfl rfl rfl
  | symbol hname => exact hd.symbol hname

/-- Taking nodes takes the symbols among them. -/
theorem Emits.slotted {visits : List Visit} (h : Emits scope d visits d')
    (hd : Slotted scope names d) :
    Slotted scope (names ++ visits.filterMap Visit.symbol?) d' := by
  induction h with
  | refl => simpa using hd
  | @visit _ v _ _ _ hv ih =>
      have hlast := hv.slotted ih
      rw [List.filterMap_append, ← List.append_assoc]
      cases hsymbol : v.symbol? <;> simpa [hsymbol] using hlast
  | @operator _ op _ _ hop _ ih =>
      have hkind : Kind.parenthesis ≠ .symbol := by decide
      exact ih.push (Record.parameter?_ofKind hkind op.opcode) rfl rfl rfl

theorem Slotted.mark (hd : Slotted scope names d) : Slotted scope names d.mark := by
  refine hd.congr rfl rfl (d.filterMap_code_mark fun r => ?_)
  rw [Record.parameter?, Record.kind?_markFloat]
  rfl

end Draft

/-! ## Runs of builders -/

namespace Builder

/-- The symbols that a run has taken, from left to right and as often as they occur. -/
def takenSymbols (scope : Scope) (actions : List Action) : List String :=
  (appended actions).flatMap (·.takenSymbols scope)

/-- After a run the parameters are those of the symbols that were taken. -/
theorem slotted_run (scope : Scope) (actions : List Action) :
    ((ofScope scope).run actions).draft.Slotted scope (takenSymbols scope actions) := by
  have hinduction := run_induction (b := ofScope scope)
    (P := fun es d => d.Slotted scope (es.flatMap (·.takenSymbols scope)))
  refine hinduction ?_ (fun es d hd => hd.mark) rfl [] (Draft.slotted_empty scope) actions
  intro es e d hd
  rw [List.flatMap_append, List.flatMap_singleton]
  exact (Draft.emits_taken scope e d).slotted hd

@[simp]
theorem params_finalize (b : Builder) : b.finalize.draft.params = b.draft.params := by
  rcases draft_finalize b with hdraft | hdraft <;> rw [hdraft]
  rfl

/-- A run keeps the parameters that have slots. -/
theorem params_prefix_run (b : Builder) (actions : List Action) :
    b.draft.params.toList <+: (b.run actions).draft.params.toList := by
  refine run_keeps (P := fun d : Draft => b.draft.params.toList <+: d.params.toList) ?_ ?_
    (List.prefix_refl _) actions
  · intro e d hd
    exact hd.trans (Draft.extends_of_steps (Draft.emit_steps b.scope e d)).params
  · intro d hd
    exact hd

@[simp]
theorem slots_toProgram (b : Builder) : b.toProgram.slots = b.draft.slots := by
  show b.finalize.draft.slots = b.draft.slots
  simp [Draft.slots]

/-- The program of a builder has its parameters. -/
theorem slotNames_toProgram (b : Builder) :
    b.toProgram.slotNames = b.draft.params.toList.map Prod.fst ∧
      b.toProgram.slotTypes = b.draft.slotTypes := by
  have hslotTypes : b.toProgram.slotTypes = b.draft.slotTypes := by
    show b.finalize.draft.slotTypes = b.draft.slotTypes
    simp [Draft.slotTypes]
  refine ⟨?_, hslotTypes⟩
  rw [← Draft.slotNames_toProgram b.draft .bool, Program.slotNames, slots_toProgram]
  rfl

/-- **Parameters take slots in the order of their first occurrence.** After every run of a builder,
the slots number the names of the symbols taken so far, one to one and from zero up, in the order
in which these symbols first occur from left to right. The symbols of an expression that fails
count up to the node at fault, and operators do not count. A slot has the type that its symbol is
declared with, and the slots of texts have been counted. The records of parameters stand for the
symbols in order, and each has the number of its slot. Whatever is done next, slots keep their
numbers and types. -/
theorem slots_by_first_occurrence (scope : Scope) (actions : List Action) :
    let b := (ofScope scope).run actions
    let names := takenSymbols scope actions
    (∀ name, (∃ slot, b.draft.slots.lookup name = some slot) ↔ name ∈ names) ∧
    (∀ name slot, b.draft.slots.lookup name = some slot → slot < b.draft.slotTypes.length) ∧
    (∀ slot < b.draft.slotTypes.length, ∃! name, b.draft.slots.lookup name = some slot) ∧
    (∀ name slot, b.draft.slots.lookup name = some slot ↔ names.eraseDups[slot]? = some name) ∧
    b.toProgram.slotNames = names.eraseDups ∧
    (∀ name slot, b.draft.slots.lookup name = some slot →
      ∃ type, scope.symbols.lookup name = some type ∧ b.draft.slotTypes[slot]? = some type) ∧
    b.draft.textSlotCount = b.draft.slotTypes.count .string ∧
    b.toProgram.textSlotCount = b.draft.textSlotCount ∧
    List.Forall₂ (fun word name => ∃ slot, b.draft.slots.lookup name = some slot ∧
        word = UInt64.ofNat slot ∧ word.toNat < b.draft.slotTypes.length)
      (b.draft.code.toList.filterMap Record.parameter?) names ∧
    ∀ later,
      (∀ name slot, b.draft.slots.lookup name = some slot →
        (b.run later).draft.slots.lookup name = some slot) ∧
      b.draft.slotTypes <+: (b.run later).draft.slotTypes := by
  intro b names
  have hd : b.draft.Slotted scope names := slotted_run scope actions
  have hlookup (name : String) (slot : Nat) :
      b.draft.slots.lookup name = some slot ↔ names.eraseDups[slot]? = some name := by
    rw [← hd.params]
    refine Draft.lookup_slots_eq_some_iff ?_
    rw [hd.params]
    exact nodup_eraseDups names
  have hlength : b.draft.slotTypes.length = names.eraseDups.length := by
    rw [← hd.params, Draft.slotTypes_eq, List.length_map, List.length_map]
  have hlt (name : String) (slot : Nat) (h : b.draft.slots.lookup name = some slot) :
      slot < b.draft.slotTypes.length := by
    obtain ⟨hslot, _⟩ := List.getElem?_eq_some_iff.mp ((hlookup name slot).mp h)
    rwa [hlength]
  obtain ⟨hnames, htypes⟩ := b.slotNames_toProgram
  refine ⟨?_, hlt, ?_, hlookup, hnames.trans hd.params, ?_, hd.texts, ?_, ?_, ?_⟩
  · intro name
    simp only [hlookup]
    rw [← List.mem_iff_getElem?, List.mem_eraseDups]
  · intro slot hslot
    rw [hlength] at hslot
    refine ⟨names.eraseDups[slot], ?_, ?_⟩
    · exact (hlookup _ slot).mpr (List.getElem?_eq_getElem hslot)
    · intro name hname
      have hsame := (hlookup name slot).mp hname
      rw [List.getElem?_eq_getElem hslot] at hsame
      exact (Option.some.inj hsame).symm
  · exact fun name slot hslot => Draft.exists_declared_of_lookup hd.declared hslot
  · rw [Program.textSlotCount, htypes, hd.texts]
  · refine hd.records.imp ?_
    rintro word name ⟨slot, hslot, rfl⟩
    refine ⟨slot, hslot, rfl, ?_⟩
    have hword : (UInt64.ofNat slot).toNat ≤ slot := by
      rw [UInt64.toNat_ofNat']
      exact Nat.mod_le _ _
    exact Nat.lt_of_le_of_lt hword (hlt name slot hslot)
  · intro later
    have hprefix := b.params_prefix_run later
    exact ⟨fun name slot => Draft.lookup_slots_of_prefix hprefix, hprefix.map Prod.snd⟩

/-- An expression fails at its last operand after three symbols were taken, one of them twice, and
another one compiles; what comes after the end is not taken. -/
theorem slots_by_first_occurrence_after_failure :
    let scope : Scope := ⟨.builtin, [("a", .int), ("b", .float), ("s", .string), ("t", .string)]⟩
    let b := (ofScope scope).run
      [.append (.form "+" [.atom .symbol "b", .form "len" [.atom .symbol "s"], .atom .symbol "b",
        .atom .symbol "a", .atom .symbol "u"]),
      .append (.form "index" [.atom .symbol "t", .atom .symbol "s"]), .finalize,
      .append (.atom .symbol "a")]
    b.toProgram.slotNames = ["b", "s", "a", "t"] ∧ b.draft.textSlotCount = 2 ∧
      b.draft.slots.lookup "t" = some 3 ∧
      (b.run [.append (.atom .symbol "t")]).draft.slots.lookup "t" = some 3 ∧
      b.draft.code.toList.filterMap Record.parameter? = [0, 1, 0, 2, 3, 1] := by
  intro scope b
  obtain ⟨-, -, -, hlookup, hnames, -, htexts, -, -, hlater⟩ := slots_by_first_occurrence scope
    [.append (.form "+" [.atom .symbol "b", .form "len" [.atom .symbol "s"], .atom .symbol "b",
      .atom .symbol "a", .atom .symbol "u"]),
    .append (.form "index" [.atom .symbol "t", .atom .symbol "s"]), .finalize,
    .append (.atom .symbol "a")]
  have ht : b.draft.slots.lookup "t" = some 3 := (hlookup "t" 3).mpr (by decide +kernel)
  refine ⟨hnames.trans (by decide +kernel), htexts.trans (by decide +kernel), ht, ?_, ?_⟩
  · exact (hlater _).1 "t" 3 ht
  · decide +kernel

end Builder

end Formula
