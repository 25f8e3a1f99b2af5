import Formula.Proofs.EmbeddedTexts
import Formula.Proofs.Slots

/-!
# Tables and arenas in place of lists

The compiler asks its stores for the slot of a name and has them keep texts, and it does nothing else
with them. So a relation between drafts with different stores that holds on after each of its steps
holds on after every run (`Builder.Related.run`), and the runs succeed and fail alike.

Slots can be found in a table by the names, with the types of the slots apart (`SlotTable.Lists`),
and texts can be kept in an arena. The code is then the same but for the addresses of the texts
(`Draft.Represents`). The checker sees through the addresses, so that the programs have the same
scripts (`Builder.boxed_agrees`).
-/

namespace Formula

/-! ## Drafts with different stores -/

section Related

variable {π π' σ σ' : Type} [SlotStore π] [SlotStore π'] [TextStore σ] [TextStore σ']

namespace Draft

/-- A relation between drafts with different stores that the steps of the compiler keep. -/
structure Respected (R : Draft π σ → Draft π' σ' → Prop) : Prop where
  operand : ∀ {d d'} (r : Record), R d d' → R (d.pushOperand r) (d'.pushOperand r)
  operator : ∀ {d d'} (op : Operator), R d d' → R (d.pushOperator op) (d'.pushOperator op)
  text : ∀ {d d'} (text : String), R d d' → R (d.pushText text) (d'.pushText text)
  symbol : ∀ {d d'} (name : String) (type : Ty), R d d' →
    R (d.pushSymbol name type) (d'.pushSymbol name type)
  mark : ∀ {d d'}, R d d' → R d.mark d'.mark

/-- Two compilations with the same result, and with drafts that are related. -/
def Matching (R : Draft π σ → Draft π' σ' → Prop) (x : Except CompileError Ty × Draft π σ)
    (y : Except CompileError Ty × Draft π' σ') : Prop :=
  ∃ result d d', x = (result, d) ∧ y = (result, d') ∧ R d d'

variable {R : Draft π σ → Draft π' σ' → Prop} {scope : Scope} {op : Operator} {d : Draft π σ}
  {d' : Draft π' σ'}

/-- Compiling the operands after the first keeps a relation if compiling each of them does. -/
theorem Respected.emitRest (hR : Respected R) {rest : List Expr}
    (h : ∀ e ∈ rest, ∀ {d d'}, R d d' → Matching R (emit scope d e) (emit scope d' e))
    (type : Ty) (hd : R d d') :
    Matching R (Draft.emitRest scope op type d rest) (Draft.emitRest scope op type d' rest) := by
  induction rest generalizing type d d' with
  | nil =>
      rw [Draft.emitRest, Draft.emitRest]
      exact ⟨_, _, _, rfl, rfl, hd⟩
  | cons operand rest ih =>
      obtain ⟨result, d₁, d₁', hemit, hemit', hd₁⟩ := h operand List.mem_cons_self hd
      rw [Draft.emitRest, Draft.emitRest, hemit, hemit']
      cases result with
      | error fault => exact ⟨_, _, _, rfl, rfl, hd₁⟩
      | ok right => exact ih (fun e he => h e (List.mem_cons_of_mem _ he)) _ (hR.operator op hd₁)

/-- Compiling a form keeps a relation if compiling each operand does. -/
theorem Respected.emit_form (hR : Respected R) (name : String) {operands : List Expr}
    (h : ∀ e ∈ operands, ∀ {d d'}, R d d' → Matching R (emit scope d e) (emit scope d' e))
    (hd : R d d') :
    Matching R (emit scope d (.node .parenthesis name operands))
      (emit scope d' (.node .parenthesis name operands)) := by
  cases hresolve : scope.registry.resolve name operands.length with
  | none =>
      rw [emit_form_of_unknown (.inl hresolve), emit_form_of_unknown (.inl hresolve)]
      exact ⟨_, _, _, rfl, rfl, hd⟩
  | some op =>
      cases operands with
      | nil =>
          rw [emit_form_of_unknown (.inr rfl), emit_form_of_unknown (.inr rfl)]
          exact ⟨_, _, _, rfl, rfl, hd⟩
      | cons first rest =>
          obtain ⟨result, d₁, d₁', hemit, hemit', hd₁⟩ := h first List.mem_cons_self hd
          rw [emit_form_cons hresolve, emit_form_cons hresolve, hemit, hemit']
          have hrest (e : Expr) (he : e ∈ rest) := @h e (List.mem_cons_of_mem _ he)
          cases result with
          | error fault => exact ⟨_, _, _, rfl, rfl, hd₁⟩
          | ok type =>
              by_cases harity : op.arity = 1
              · simp only [if_pos harity]
                exact hR.emitRest hrest _ (hR.operator op hd₁)
              · simp only [if_neg harity]
                exact hR.emitRest hrest _ hd₁

/-- Compiling an expression keeps a relation, and it succeeds or fails alike. -/
theorem Respected.emit (hR : Respected R) (scope : Scope) (e : Expr) (hd : R d d') :
    Matching R (Draft.emit scope d e) (Draft.emit scope d' e) := by
  induction e using Expr.induction generalizing d d' with
  | h kind text children ih =>
      cases kind with
      | parenthesis => exact hR.emit_form text ih hd
      | bool =>
          rw [Draft.emit, Draft.emit]
          exact ⟨_, _, _, rfl, rfl, hR.operand _ hd⟩
      | int =>
          rw [Draft.emit, Draft.emit, emitInteger, emitInteger]
          rcases Literal.integer text.toList with (_ | _) | bits
          · exact ⟨_, _, _, rfl, rfl, hd⟩
          · exact ⟨_, _, _, rfl, rfl, hd⟩
          · exact ⟨_, _, _, rfl, rfl, hR.operand _ hd⟩
      | float =>
          rw [Draft.emit, Draft.emit, emitFloat, emitFloat]
          rcases Literal.decimal? text.toList with _ | value
          · exact ⟨_, _, _, rfl, rfl, hd⟩
          · exact ⟨_, _, _, rfl, rfl, hR.operand _ hd⟩
      | string =>
          rw [Draft.emit, Draft.emit, emitText, emitText]
          by_cases hsize : textSizeLimit ≤ text.utf8ByteSize
          · rw [if_pos hsize, if_pos hsize]
            exact ⟨_, _, _, rfl, rfl, hd⟩
          · rw [if_neg hsize, if_neg hsize]
            exact ⟨_, _, _, rfl, rfl, hR.text text hd⟩
      | symbol =>
          rw [Draft.emit, Draft.emit, emitSymbol, emitSymbol]
          cases scope.symbols.lookup text with
          | none => exact ⟨_, _, _, rfl, rfl, hd⟩
          | some type => exact ⟨_, _, _, rfl, rfl, hR.symbol text type hd⟩

end Draft

namespace Builder

variable {R : Draft π σ → Draft π' σ' → Prop} {b : Builder π σ} {b' : Builder π' σ'}

/-- Builders that differ in nothing but their drafts, and these are related. -/
structure Related (R : Draft π σ → Draft π' σ' → Prop) (b : Builder π σ) (b' : Builder π' σ') :
    Prop where
  scope : b'.scope = b.scope
  draft : R b.draft b'.draft
  result : b'.result = b.result
  isFinalized : b'.isFinalized = b.isFinalized

/-- An expression is appended to related builders with the same result. -/
theorem Related.append (h : Related R b b') (hR : Draft.Respected R) (e : Expr) :
    (b'.append e).1 = (b.append e).1 ∧ Related R (b.append e).2 (b'.append e).2 := by
  obtain ⟨result, d, d', hemit, hemit', hdraft⟩ := hR.emit b.scope e h.draft
  rw [Builder.append, Builder.append, h.isFinalized, h.scope, hemit, hemit']
  split_ifs
  · exact ⟨rfl, h⟩
  · cases result with
    | error fault => exact ⟨rfl, rfl, hdraft, h.result, rfl⟩
    | ok type => exact ⟨rfl, rfl, hdraft, rfl, rfl⟩

/-- Related builders are finalized alike. -/
theorem Related.finalize (h : Related R b b') (hR : Draft.Respected R) :
    Related R b.finalize b'.finalize := by
  have hfloat : b'.returnsFloat = b.returnsFloat := by rw [returnsFloat, h.result, returnsFloat]
  rw [Builder.finalize, Builder.finalize, h.isFinalized, hfloat]
  split_ifs
  · exact h
  · exact ⟨h.scope, hR.mark h.draft, h.result, rfl⟩
  · exact ⟨h.scope, h.draft, h.result, rfl⟩

/-- Builders stay related over a run. -/
theorem Related.run (h : Related R b b') (hR : Draft.Respected R) (actions : List Action) :
    Related R (b.run actions) (b'.run actions) := by
  induction actions generalizing b b' with
  | nil => exact h
  | cons action actions ih =>
      cases action with
      | append e => exact ih (h.append hR e).2
      | finalize => exact ih (h.finalize hR)

end Builder

end Related

/-! ## Slot tables -/

/-- A table in which the parameters of a list have their slots. -/
structure SlotTable.Lists (table : SlotTable) (params : Array (String × Ty)) : Prop where
  slots : ∀ name, table.indices[name]? = params.toList.findIdx? (·.1 == name)
  types : table.types.toList = params.toList.map Prod.snd

namespace SlotTable.Lists

variable {table : SlotTable} {params : Array (String × Ty)} {d : Draft}

theorem empty : SlotTable.empty.Lists #[] :=
  ⟨fun _ => Std.HashMap.getElem?_empty, rfl⟩

theorem size_eq (h : table.Lists params) : table.types.size = params.size := by
  simpa using congrArg List.length h.types

/-- A new name gets the next slot in both. -/
theorem push (h : table.Lists params) {name : String}
    (hnew : params.toList.findIdx? (·.1 == name) = none) (type : Ty) :
    SlotTable.Lists ⟨table.indices.insert name table.types.size, table.types.push type⟩
      (params.push (name, type)) := by
  refine ⟨fun other => ?_, by simp [h.types]⟩
  rw [Std.HashMap.getElem?_insert, h.slots, h.size_eq, Array.toList_push, List.findIdx?_append]
  by_cases hother : name = other
  · subst hother
    simp [hnew]
  · simp [hother]

/-- The table and the list hold the same slots, in whatever order. -/
theorem perm (h : table.Lists d.params) (hnames : (d.params.toList.map Prod.fst).Nodup) :
    table.indices.toList.Perm d.slots := by
  have hkeys : table.indices.toList.Nodup := by
    refine Std.HashMap.distinct_keys_toList.imp ?_
    rintro x y hne rfl
    simp at hne
  have hslots : d.slots.Nodup := d.pairwise_slots.imp fun hlt hsame => by simp [hsame] at hlt
  refine (List.perm_ext_iff_of_nodup hkeys hslots).mpr ?_
  rintro ⟨name, slot⟩
  rw [Std.HashMap.mem_toList_iff_getElem?_eq_some, h.slots, ← Draft.lookup_slots,
    Draft.lookup_slots_eq_some_iff hnames, List.getElem?_map, Draft.slots_eq, List.mem_map]
  constructor
  · intro hname
    obtain ⟨param, hparam, rfl⟩ := Option.map_eq_some_iff.mp hname
    exact ⟨(param, slot), List.mem_zipIdx_iff_getElem?.mpr hparam, rfl⟩
  · rintro ⟨⟨param, slot'⟩, hmem, heq⟩
    cases heq
    rw [List.mem_zipIdx_iff_getElem?.mp hmem]
    rfl

/-- Sorting puts the slots of a table into the order of the list. -/
theorem mergeSort_eq (h : table.Lists d.params) (hnames : (d.params.toList.map Prod.fst).Nodup) :
    (table.indices.toList.mergeSort fun a b => a.2 ≤ b.2) = d.slots := by
  have hperm := (List.mergeSort_perm _ fun a b => decide (a.2 ≤ b.2)).trans (h.perm hnames)
  have hsorted := d.pairwise_slots.imp fun hlt => decide_eq_true (Nat.le_of_lt hlt)
  -- No two slots have the same number, so that there is only one order.
  have hunique : (d.slots.map Prod.snd).Nodup := by
    rw [d.map_snd_slots]
    exact List.nodup_range'
  refine List.Perm.eq_of_pairwise ?_ (List.pairwise_mergeSort ?_ ?_ _) hsorted hperm
  · intro a b ha hb hab hba
    have hsame : a.2 = b.2 := Nat.le_antisymm (of_decide_eq_true hab) (of_decide_eq_true hba)
    exact List.inj_on_of_nodup_map hunique (hperm.subset ha) hb hsame
  · intro a b c hab hbc
    exact decide_eq_true ((of_decide_eq_true hab).trans (of_decide_eq_true hbc))
  · intro a b
    simpa using Nat.le_total a.2 b.2

end SlotTable.Lists

/-! ## Records with other addresses -/

namespace Record

/-- Records that differ at most in the address of a text. -/
inductive SameButAddress : Record → Record → Prop
  | other {r : Record} (hr : r.kind? ≠ some .string) : SameButAddress r r
  | text {tag address address' : UInt64} (hr : kind? ⟨tag, address⟩ = some .string) :
      SameButAddress ⟨tag, address⟩ ⟨tag, address'⟩

/-- Records that differ at most in the address of a text, with the same text behind it. -/
structure ReadAlike (read read' : UInt64 → Option String) (r r' : Record) : Prop where
  same : SameButAddress r r'
  texts : r.textAddress?.map read = r'.textAddress?.map read'

variable {read read' : UInt64 → Option String} {r r' : Record} {records records' : List Record}

theorem SameButAddress.refl (r : Record) : SameButAddress r r := by
  by_cases hr : r.kind? = some .string
  · exact .text hr
  · exact .other hr

theorem SameButAddress.tag_eq (h : SameButAddress r r') : r'.tag = r.tag := by
  cases h <;> rfl

/-- The mark does not bear on the address. -/
theorem SameButAddress.markFloat (h : SameButAddress r r') :
    SameButAddress r.markFloat r'.markFloat := by
  cases h with
  | other hr => exact .refl _
  | text hr => exact .text ((kind?_markFloat _).trans hr)

/-- The mark on the first record makes no difference. -/
theorem forall₂_modify (h : List.Forall₂ SameButAddress records records') :
    List.Forall₂ SameButAddress (records.modify 0 markFloat) (records'.modify 0 markFloat) := by
  cases h with
  | nil => exact .nil
  | cons hfirst hrest => exact .cons hfirst.markFloat hrest

/-- Records are read alike also without the mark. -/
theorem ReadAlike.clearMark (h : ReadAlike read read' r r') :
    ReadAlike read read' r.clearMark r'.clearMark := by
  refine ⟨?_, by simpa using h.texts⟩
  cases h.same with
  | other hr => exact .refl _
  | text hr => exact .text ((kind?_clearMark _).trans hr)

/-- Records are read alike, one after another, if the same texts are behind their addresses. -/
theorem forall₂_readAlike (h : List.Forall₂ SameButAddress records records')
    (hread : (records.filterMap textAddress?).map read =
      (records'.filterMap textAddress?).map read') :
    List.Forall₂ (ReadAlike read read') records records' := by
  induction h with
  | nil => exact .nil
  | @cons r r' records records' hr _ ih =>
      cases hr with
      | other hkind =>
          have hnone : r.textAddress? = none := if_neg hkind
          rw [List.filterMap_cons_none hnone, List.filterMap_cons_none hnone] at hread
          exact .cons ⟨.other hkind, by rw [hnone]; rfl⟩ (ih hread)
      | @text tag address address' hkind =>
          have hsome : textAddress? ⟨tag, address⟩ = some address := if_pos hkind
          have hsome' : textAddress? ⟨tag, address'⟩ = some address' := if_pos hkind
          rw [List.filterMap_cons_some hsome, List.filterMap_cons_some hsome', List.map_cons,
            List.map_cons, List.cons.injEq] at hread
          exact .cons ⟨.text hkind, by rw [hsome, hsome']; exact congrArg some hread.1⟩ (ih hread.2)

end Record

/-! ## Checking -/

section Checking

variable {read read' : UInt64 → Option String} {r r' : Record} {records records' : List Record}

/-- Records that are read alike pass the checker alike. -/
theorem Checker.step_of_readAlike (h : r.ReadAlike read read' r') (registry : Registry)
    (params : Array Ty) (s : Checker) :
    step registry read params s r = step registry read' params s r' := by
  obtain ⟨hsame, htexts⟩ := h
  unfold step
  rw [hsame.tag_eq]
  cases hkind : exactKind? r.tag with
  | none => rfl
  | some kind =>
      have hr : r.kind? = some kind := by
        rw [eq_ofKind_of_exactKind? hkind, Record.kind?_ofKind]
      cases hsame with
      | other hne =>
          cases kind with
          | string => exact absurd hr hne
          | parenthesis | bool | int | float | symbol => rfl
      | @text tag address address' hstring =>
          obtain rfl : kind = .string := Option.some.inj (hr.symm.trans hstring)
          have hsome : Record.textAddress? ⟨tag, address⟩ = some address := if_pos hstring
          have hsome' : Record.textAddress? ⟨tag, address'⟩ = some address' := if_pos hstring
          rw [hsome, hsome'] at htexts
          simp only [Option.some.inj htexts]

/-- Codes that are read alike pass the checker alike. -/
theorem Checker.steps_of_readAlike (h : List.Forall₂ (Record.ReadAlike read read') records records')
    (registry : Registry) (params : Array Ty) (s : Checker) :
    steps registry read params s records = steps registry read' params s records' := by
  induction h generalizing s with
  | nil => rfl
  | @cons r r' records records' hr _ ih =>
      rw [steps, steps, step_of_readAlike hr]
      cases step registry read' params s r' with
      | error fault => rfl
      | ok s => exact ih s

/-- Codes that are read alike have the same script. -/
theorem Script.check_of_readAlike (h : List.Forall₂ (Record.ReadAlike read read') records records')
    (registry : Registry) (slotTags : List Nat) :
    check registry read (Record.toWords records) slotTags =
      check registry read' (Record.toWords records') slotTags := by
  unfold check
  rw [Record.ofWords?_toWords, Record.ofWords?_toWords]
  cases h with
  | nil => rfl
  | @cons first first' rest rest' hfirst hrest =>
      have hfloat : first'.returnsFloat = first.returnsFloat := by
        rw [Record.returnsFloat, hfirst.same.tag_eq, Record.returnsFloat]
      simp only [Checker.steps_of_readAlike (.cons hfirst.clearMark hrest), hfloat]

end Checking

/-! ## Drafts with a table and an arena -/

namespace Draft

/-- A draft with a slot table and an arena that stands for a plain draft. -/
structure Represents (d : Draft) (c : Draft SlotTable Arena) : Prop where
  params : c.params.Lists d.params
  textSlotCount : c.textSlotCount = d.textSlotCount
  depth : c.depth = d.depth
  maxDepth : c.maxDepth = d.maxDepth
  code : List.Forall₂ Record.SameButAddress d.code.toList c.code.toList

variable {d : Draft} {c : Draft SlotTable Arena}

/-- A record more, the same or one of a text, is a record more in both. -/
theorem Represents.forall₂_push (h : Represents d c) {r r' : Record} (hr : r.SameButAddress r') :
    List.Forall₂ Record.SameButAddress (d.code.push r).toList (c.code.push r').toList := by
  rw [Array.toList_push, Array.toList_push]
  exact List.rel_append h.code (.cons hr .nil)

/-- A name has the same slot in both. -/
theorem Represents.slotOf (h : Represents d c) (name : String) (type : Ty) :
    (c.slotOf name type).1 = (d.slotOf name type).1 ∧
      Represents (d.slotOf name type).2 (c.slotOf name type).2 := by
  have hslot : SlotStore.slot? c.params name = d.params.toList.findIdx? (·.1 == name) :=
    h.params.slots name
  rw [slotOf_eq, Draft.slotOf, hslot]
  cases hfound : d.params.toList.findIdx? (·.1 == name) with
  | some slot => exact ⟨rfl, h⟩
  | none =>
      refine ⟨h.params.size_eq, h.params.push hfound type, ?_, h.depth, h.maxDepth, h.code⟩
      simp only [h.textSlotCount]

/-- The steps of the compiler do the same to both. -/
theorem respected_represents : Respected Represents where
  operand r h := ⟨h.params, h.textSlotCount, by simp [h.depth], by simp [h.depth, h.maxDepth],
    h.forall₂_push (.refl r)⟩
  operator op h := ⟨h.params, h.textSlotCount, by simp [h.depth], h.maxDepth,
    h.forall₂_push (.refl _)⟩
  text text h := ⟨h.params, h.textSlotCount, by simp [h.depth], by simp [h.depth, h.maxDepth],
    h.forall₂_push (.text (Record.kind?_ofKind ..))⟩
  symbol name type h := by
    obtain ⟨hslot, h'⟩ := h.slotOf name type
    refine ⟨h'.params, h'.textSlotCount, by simp [h.depth], by simp [h.depth, h.maxDepth], ?_⟩
    rw [code_pushSymbol, code_pushSymbol, hslot]
    exact h.forall₂_push (.refl _)
  mark h := by
    refine ⟨h.params, h.textSlotCount, h.depth, h.maxDepth, ?_⟩
    rw [toList_code_mark, toList_code_mark]
    exact Record.forall₂_modify h.code

end Draft

/-! ## Pools and arenas -/

namespace TextPool

open TextStore

/-- Texts are added at the end of a pool. -/
@[simp]
theorem texts_retainAll (p : TextPool) (texts : List String) :
    (retainAll p texts).texts.toList = p.texts.toList ++ texts := by
  induction texts generalizing p with
  | nil => simp
  | cons text texts ih => simp [ih]

/-- A pool gives out addresses by the places of the texts. -/
theorem returned_eq (p : TextPool) (texts : List String) :
    returned p texts = (List.range' p.size texts.length).map addressOf := by
  induction texts generalizing p with
  | nil => rfl
  | cons text texts ih =>
      rw [returned_cons, retain_eq, ih, size_add, List.length_cons, List.range'_succ, List.map_cons]
      rfl

/-- Behind the addresses that a pool gave out are the texts that were kept, in the same order. -/
theorem map_text?_returned {texts : List String} (h : firstAddress + texts.length ≤ UInt64.size) :
    (returned empty texts).map (retainAll empty texts).text? = texts.map some := by
  have htexts : (retainAll empty texts).texts.toList = texts := texts_retainAll empty texts
  have hsize : (retainAll empty texts).size = texts.length := by
    rw [size, ← Array.length_toList, htexts]
  refine List.ext_getElem? fun k => ?_
  rw [returned_eq, List.map_map, List.getElem?_map, List.getElem?_map]
  by_cases hk : k < texts.length
  · have hread : (retainAll empty texts).text? (addressOf k) = (retainAll empty texts).texts[k]? :=
      text?_addressOf (by omega) (by omega)
    have hplace : (List.range' empty.size texts.length)[k]? = some k := by
      rw [List.getElem?_range' hk]
      simp [empty, size]
    rw [hplace, Option.map_some, Function.comp_apply, hread, ← Array.getElem?_toList, htexts,
      List.getElem?_eq_getElem hk, Option.map_some]
  · rw [List.getElem?_eq_none (by simpa using hk), List.getElem?_eq_none (by omega)]
    rfl

end TextPool

/-- Behind the addresses in the code of a plain draft are the texts that were taken. -/
theorem Draft.Embeds.map_text? {d : Draft} {texts : List String}
    (hd : d.Embeds TextPool.empty texts) (h : firstAddress + d.constants.size ≤ UInt64.size) :
    (d.code.toList.filterMap Record.textAddress?).map d.constants.text? = texts.map some := by
  have hsize : d.constants.size = texts.length := by
    rw [hd.kept, TextPool.size, ← Array.length_toList, TextPool.texts_retainAll]
    rfl
  rw [hd.records, hd.kept]
  exact TextPool.map_text?_returned (by rwa [← hsize])

/-! ## Programs -/

namespace Builder

theorem related_start (scope : Scope) (allocator : Allocator) :
    Related Draft.Represents (ofScope scope) (ofStores scope .empty (.empty allocator)) :=
  ⟨rfl, ⟨.empty, rfl, rfl, rfl, .nil⟩, rfl, rfl⟩

/-- The parameters of related builders have the same names in the same order. -/
theorem slotNames_of_represents {b : Builder} {c : Builder SlotTable Arena}
    (h : Related Draft.Represents b.finalize c.finalize)
    (hnames : (b.draft.params.toList.map Prod.fst).Nodup) :
    c.toProgram.slotNames = b.toProgram.slotNames := by
  have hparams := h.draft.params
  rw [← params_finalize] at hnames
  have hsorted : c.toProgram.slotNames = b.finalize.draft.slots.map Prod.fst :=
    congrArg (List.map Prod.fst) (hparams.mergeSort_eq hnames)
  rw [hsorted, Draft.map_fst_slots, params_finalize, b.slotNames_toProgram.1]

/-- **Tables and arenas make the same programs as lists.** After every run, also where expressions
failed, a builder that finds slots in a table and keeps texts in an arena takes and refuses the same
expressions as the plain one. Its program has the same parameters, the same stack and the same texts.
If the boxes of the arena are apart, and the texts of the pool are not too many for addresses, then
the checker makes the same script of both programs, or refuses both for the same reason. -/
theorem boxed_agrees (scope : Scope) (allocator : Allocator) (actions : List Action) :
    let b := (ofScope scope).run actions
    let c := (ofStores scope SlotTable.empty (Arena.empty allocator)).run actions
    (∀ e, (c.append e).1 = (b.append e).1) ∧
    c.toProgram.slotNames = b.toProgram.slotNames ∧
    c.toProgram.slotTypes = b.toProgram.slotTypes ∧
    c.toProgram.maxStackBytes = b.toProgram.maxStackBytes ∧
    c.toProgram.returnsFloat = b.toProgram.returnsFloat ∧
    c.toProgram.constants.texts.toList.map Boxed.value = b.toProgram.constants.texts.toList ∧
    (c.toProgram.constants.Apart → firstAddress + b.toProgram.constants.size ≤ UInt64.size →
      ∀ registry, Script.check registry c.toProgram.constants.text? c.toProgram.words
          c.toProgram.slotTags =
        Script.check registry b.toProgram.constants.text? b.toProgram.words
          b.toProgram.slotTags) := by
  intro b c
  have hR := Draft.respected_represents
  have hrelated : Related Draft.Represents b c := (related_start scope allocator).run hR actions
  have hfinal : Related Draft.Represents b.finalize c.finalize := hrelated.finalize hR
  have hnames : (b.draft.params.toList.map Prod.fst).Nodup := by
    rw [(slotted_run scope actions).params]
    exact nodup_eraseDups _
  have htypes : c.toProgram.slotTypes = b.toProgram.slotTypes := hfinal.draft.params.types
  have hb : b.finalize.draft.Embeds TextPool.empty (takenTexts scope actions) :=
    embeds_finalize (embeds_run scope _ _ actions)
  have hc : c.finalize.draft.Embeds (Arena.empty allocator) (takenTexts scope actions) :=
    embeds_finalize (embeds_run scope _ _ actions)
  refine ⟨fun e => (hrelated.append hR e).1, slotNames_of_represents hfinal hnames, htypes,
    congrArg (· * 8) hfinal.draft.maxDepth, congrArg (· == some Ty.float) hfinal.result, ?_, ?_⟩
  · show c.finalize.draft.constants.texts.toList.map _ = b.finalize.draft.constants.texts.toList
    rw [hb.kept, hc.kept, Arena.texts_retainAll, TextPool.texts_retainAll]
    rfl
  · intro hapart hsize registry
    have htags : c.toProgram.slotTags = b.toProgram.slotTags := congrArg (List.map Ty.tag) htypes
    rw [htags]
    refine (Script.check_of_readAlike (Record.forall₂_readAlike hfinal.draft.code ?_) _ _).symm
    exact (hb.map_text? hsize).trans (hc.map_read hapart fun _ _ h => h).symm

end Builder

end Formula
