import Formula.Proofs.Agreement
import Formula.Proofs.Alike
import Formula.Proofs.Frames
import Formula.Proofs.Numerals

/-!
# Parameters and constants

An argument of a call may as well be written into the expression. The two ways differ in what is
compiled, in what the generator sees and in where the code finds the value, but record for record
the code of the one does what the code of the other does (`Record.Alike`). So the bound expression
compiles whenever the other one does, and a call without arguments has the outcome of the call
with them.
-/

namespace Formula

/-! ## Literals for arguments -/

/-- What a slot holds, read at a type. -/
def Slot.cell? (type : Ty) : Slot → Option Cell
  | .word w => Script.argumentCell? (fun _ => none) w type
  | .text s => some (.str s)

/-- Slots of texts hold texts, and all others words. -/
def Slot.Suits (type : Ty) : Slot → Prop
  | .word _ => type ≠ .string
  | .text _ => type = .string

/-- Literals of a type that denote what a slot holds. An integer is written in decimal and without
a sign, and a decimal number in any way. -/
inductive Slot.WrittenAs : Ty → Slot → Kind × String → Prop
  | bool (b : Bool) : WrittenAs .bool (.word b.toUInt64) (.bool, if b then "true" else "false")
  | int (w : UInt64) : WrittenAs .int (.word w) (.int, toString w.toNat)
  | float {w : UInt64} {text : String} (h : Literal.decimal? text.toList = some ⟨w⟩) :
      WrittenAs .float (.word w) (.float, text)
  | text {s : String} (h : s.utf8ByteSize < textSizeLimit) :
      WrittenAs .string (.text s) (.string, s)

/-- Only slots of the right sort are written. -/
theorem Slot.WrittenAs.suits {type : Ty} {slot : Slot} {leaf : Kind × String}
    (h : slot.WrittenAs type leaf) : slot.Suits type := by
  cases h with
  | bool | int | float => nofun
  | text => exact rfl

/-- What suits a type has a value of the type. -/
theorem Slot.Suits.exists_cell {type : Ty} {slot : Slot} (h : slot.Suits type) :
    ∃ cell, slot.cell? type = some cell := by
  cases slot with
  | text s => exact ⟨_, rfl⟩
  | word w =>
      cases type with
      | bool | int | float => exact ⟨_, rfl⟩
      | string => exact absurd rfl h

/-- Code that reads a slot of a frame finds what the slot holds. -/
theorem Slot.WrittenAs.argumentCell?_ofSlots {type : Ty} {slot : Slot} {leaf : Kind × String}
    {slots : List Slot} {k : Nat} (h : slot.WrittenAs type leaf) (hslot : slots[k]? = some slot)
    (hcount : firstAddress + 3 * slots.length ≤ UInt64.size) :
    Script.argumentCell? (Frame.ofSlots slots).text? ((Frame.ofSlots slots).words.getD k 0) type =
      slot.cell? type := by
  cases h with
  | bool | int | float =>
      rw [Frame.getD_words_ofSlots hslot]
      rfl
  | @text s hs =>
      have hlt : s.utf8ByteSize < UInt64.size := Nat.lt_trans hs (by decide)
      rw [Script.argumentCell?, Frame.text?_ofSlots hslot hcount hlt]
      rfl

namespace Expr

mutual

/-- The expression with the literal for its name in place of every symbol. -/
def bind (literal : String → Kind × String) : Expr → Expr
  | node .parenthesis operator operands => node .parenthesis operator (bindAll literal operands)
  | node .symbol name _ => atom (literal name).1 (literal name).2
  | node kind text children => node kind text children

/-- Several expressions with literals in place of their symbols. -/
def bindAll (literal : String → Kind × String) : List Expr → List Expr
  | [] => []
  | e :: es => bind literal e :: bindAll literal es

end

variable (literal : String → Kind × String)

@[simp]
theorem length_bindAll (es : List Expr) : (bindAll literal es).length = es.length := by
  induction es with
  | nil => rfl
  | cons e es ih => rw [bindAll, List.length_cons, List.length_cons, ih]

/-- Literals need as much room as symbols. -/
@[simp]
theorem need_bind (e : Expr) : (e.bind literal).need = e.need := by
  induction e using Expr.induction with
  | h kind text children ih =>
      have hrest (es : List Expr) (hes : ∀ e ∈ es, (e.bind literal).need = e.need) :
          needRest (bindAll literal es) = needRest es := by
        induction es with
        | nil => rfl
        | cons e es ihes =>
            obtain ⟨he, hes⟩ := List.forall_mem_cons.mp hes
            rw [bindAll, needRest, needRest, he, ihes hes]
      cases kind with
      | parenthesis =>
          cases children with
          | nil => rfl
          | cons first rest =>
              obtain ⟨hfirst, hrests⟩ := List.forall_mem_cons.mp ih
              rw [bind, bindAll, need, need, hfirst, hrest rest hrests]
      | symbol =>
          have hone : (atom (literal text).1 (literal text).2).need = 1 := by
            cases (literal text).1 <;> rfl
          rw [bind, hone]
          rfl
      | bool | int | float | string => rfl

end Expr

namespace Draft

variable {scope : Scope} {d d' d₀ d₀' : Draft} {op : Operator} {type type' : Ty} {slot : Slot}

/-- Puts what a slot holds on the stack as a constant. -/
def pushSlot (d : Draft) (type : Ty) : Slot → Draft
  | .word w => d.pushOperand (.ofKind type.kind w)
  | .text s => { d with constants := d.constants.add s }.pushOperand
      (.ofKind .string d.constants.nextAddress)

/-- A literal compiles to the constant that it denotes. -/
theorem emit_literal {leaf : Kind × String} (h : slot.WrittenAs type leaf) (scope : Scope)
    (d : Draft) : emit scope d (.atom leaf.1 leaf.2) = (.ok type, d.pushSlot type slot) := by
  cases h with
  | bool b =>
      rw [Expr.atom, emit, emitBool]
      cases b <;> rfl
  | int w =>
      have hdigits : (toString w.toNat).toList = Nat.toDigits 10 w.toNat := by
        rw [Nat.toString_eq_repr, Nat.repr_eq_ofList_toDigits, String.toList_ofList]
      rw [Expr.atom, emit, emitInteger, hdigits, Literal.integer_toDigits]
      rfl
  | float h =>
      rw [Expr.atom, emit, emitFloat, h]
      rfl
  | text h =>
      rw [Expr.atom, emit, emitText, if_neg (Nat.not_le.mpr h)]
      rfl

/-- Every atom but a symbol compiles to a constant, the same in every draft. -/
theorem exists_slot_of_emit {kind : Kind} {text : String} {children : List Expr}
    (hform : kind ≠ .parenthesis) (hsymbol : kind ≠ .symbol)
    (h : emit scope d (.node kind text children) = (.ok type, d')) :
    ∃ slot : Slot, slot.Suits type ∧
      ∀ d, emit scope d (.node kind text children) = (.ok type, d.pushSlot type slot) := by
  cases kind with
  | parenthesis => exact absurd rfl hform
  | symbol => exact absurd rfl hsymbol
  | bool =>
      rw [emit, emitBool] at h
      cases h
      have hne : Ty.bool ≠ .string := by decide
      exact ⟨.word (if text = "true" then 1 else 0), hne, fun d => by rw [emit]; rfl⟩
  | int =>
      rw [emit, emitInteger] at h
      rcases hint : Literal.integer text.toList with (_ | _) | bits <;> rw [hint] at h <;> cases h
      have hne : Ty.int ≠ .string := by decide
      exact ⟨.word bits, hne, fun d => by rw [emit, emitInteger, hint]; rfl⟩
  | float =>
      rw [emit, emitFloat] at h
      rcases hfloat : Literal.decimal? text.toList with _ | value <;> rw [hfloat] at h <;> cases h
      have hne : Ty.float ≠ .string := by decide
      exact ⟨.word value.bits, hne, fun d => by rw [emit, emitFloat, hfloat]; rfl⟩
  | string =>
      rw [emit, emitText] at h
      split at h <;> cases h
      rename_i hsize
      exact ⟨.text text, rfl, fun d => by rw [emit, emitText, if_neg hsize]; rfl⟩

/-! ## Code with literals for symbols -/

/-- What the code of a draft finds when it runs on arguments. -/
def store (d : Draft) (readArg : UInt64 → Option String) (args : Array UInt64) : Store :=
  ⟨d.constants.text?, d.slotTypes.map Ty.tag, readArg, args⟩

/-- The code that was added to the draft `d`, up to `d'`, does in the store `m` what the code added
to `d₀`, up to `d₀'`, does in every draft that it becomes. The latter has no new parameters. -/
structure Mirrors (m : Store) (d d' d₀ d₀' : Draft) : Prop where
  grows : Extends d₀ d₀'
  params : d₀'.params = d₀.params
  code : ∃ records records₀, d'.code.toList = d.code.toList ++ records ∧
    d₀'.code.toList = d₀.code.toList ++ records₀ ∧ records₀.length = records.length ∧
    ∀ later readArg args, Extends d₀' later → firstAddress + later.constants.size ≤ UInt64.size →
      List.Forall₂ (Record.Alike m (later.store readArg args)) records records₀

variable {m : Store}

theorem Mirrors.refl (m : Store) (d d₀ : Draft) : Mirrors m d d d₀ d₀ :=
  ⟨.refl d₀, rfl, [], [], by simp, by simp, rfl, fun _ _ _ _ _ => .nil⟩

/-- Code may be added in several steps. -/
theorem Mirrors.trans {d₁ d₂ : Draft} (h : Mirrors m d d' d₀ d₀') (h' : Mirrors m d' d₁ d₀' d₂) :
    Mirrors m d d₁ d₀ d₂ := by
  obtain ⟨records, records₀, hcode, hcode₀, hlength, halike⟩ := h.code
  obtain ⟨records', records₀', hcode', hcode₀', hlength', halike'⟩ := h'.code
  refine ⟨h.grows.trans h'.grows, h'.params.trans h.params, records ++ records',
    records₀ ++ records₀', by simp [hcode', hcode], by simp [hcode₀', hcode₀],
    by simp [hlength, hlength'], ?_⟩
  intro later readArg args hextends haddress
  exact List.rel_append (halike later readArg args (h'.grows.trans hextends) haddress)
    (halike' later readArg args hextends haddress)

/-- An operator is applied in both. -/
theorem mirrors_pushOperator (m : Store) (d d₀ : Draft) (op : Operator) :
    Mirrors m d (d.pushOperator op) d₀ (d₀.pushOperator op) := by
  refine ⟨⟨by simp, List.prefix_refl _, List.prefix_refl _⟩, rfl,
    [.apply op.opcode], [.apply op.opcode], by simp, by simp, rfl, ?_⟩
  intro later readArg args _ _
  exact .cons (.operator op.opcode) .nil

/-- A constant is put on the stack with the value of the slot. -/
theorem holds_pushSlot (d : Draft) (hsuits : slot.Suits type) {cell : Cell}
    (hcell : slot.cell? type = some cell) :
    Extends d (d.pushSlot type slot) ∧ (d.pushSlot type slot).params = d.params ∧
      ∃ r, (d.pushSlot type slot).code.toList = d.code.toList ++ [r] ∧
        ∀ later readArg args, Extends (d.pushSlot type slot) later →
          firstAddress + later.constants.size ≤ UInt64.size →
          (later.store readArg args).Holds r type cell := by
  cases slot with
  | word w =>
      refine ⟨⟨by simp [pushSlot], List.prefix_refl _, List.prefix_refl _⟩, rfl,
        .ofKind type.kind w, by simp [pushSlot], ?_⟩
      intro later readArg args _ _
      refine .constant ?_
      cases type with
      | bool | int | float => exact hcell
      | string => exact absurd rfl hsuits
  | text s =>
      obtain rfl : type = .string := hsuits
      refine ⟨⟨by simp [pushSlot], List.prefix_refl _, ?_⟩, rfl,
        .ofKind .string d.constants.nextAddress, by simp [pushSlot], ?_⟩
      · simp [pushSlot, TextPool.add]
      · intro later readArg args hextends haddress
        have htext := TextPool.text?_nextAddress hextends.texts haddress
        refine @Store.Holds.constant _ .string _ _ ?_
        show (later.constants.text? d.constants.nextAddress).map Cell.str = some cell
        rw [htext]
        exact hcell

/-- A value is put on the stack in both, in the one as a constant. -/
theorem mirrors_pushSlot {r : Record} {cell : Cell} (hcode : d'.code.toList = d.code.toList ++ [r])
    (hholds : m.Holds r type cell) (hsuits : slot.Suits type)
    (hcell : slot.cell? type = some cell) (d₀ : Draft) :
    Mirrors m d d' d₀ (d₀.pushSlot type slot) := by
  obtain ⟨hgrows, hparams, r₀, hcode₀, hholds₀⟩ := holds_pushSlot d₀ hsuits hcell
  refine ⟨hgrows, hparams, [r], [r₀], hcode, hcode₀, rfl, ?_⟩
  intro later readArg args hextends haddress
  exact .cons (.operand hholds (hholds₀ later readArg args hextends haddress)) .nil

/-- Literals denote the arguments of a draft: the literal for the name of a parameter denotes what
is in its slot. -/
structure Bound (scope : Scope) (literal : String → Kind × String)
    (readArg : UInt64 → Option String) (args : Array UInt64) (d : Draft) : Prop where
  loadable : d.Loadable scope
  written : ∀ k name type, d.params.toList[k]? = some (name, type) → ∃ slot : Slot,
    slot.WrittenAs type (literal name) ∧
      Script.argumentCell? readArg (args.getD k 0) type = slot.cell? type

variable {literal : String → Kind × String} {readArg : UInt64 → Option String}
  {args : Array UInt64} {final : Draft}

/-- A symbol has the value of the literal for it. -/
theorem Bound.mirrors_symbol (hfinal : Bound scope literal readArg args final) {name : String}
    (hname : scope.symbols.lookup name = some type)
    (hextends : Extends ((d.slotOf name type).2.pushOperand
      (.ofKind .symbol (UInt64.ofNat (d.slotOf name type).1))) final) (d₀ : Draft) :
    ∃ d₀', emit scope d₀ (.atom (literal name).1 (literal name).2) = (.ok type, d₀') ∧
      Mirrors (final.store readArg args) d ((d.slotOf name type).2.pushOperand
        (.ofKind .symbol (UInt64.ofNat (d.slotOf name type).1))) d₀ d₀' := by
  obtain ⟨k, d₁, hslot⟩ : ∃ k d₁, d.slotOf name type = (k, d₁) := ⟨_, _, rfl⟩
  have hcode : d₁.code = d.code := by simpa [hslot] using d.code_slotOf name type
  rw [hslot] at hextends ⊢
  -- The slot is still that of the name in the final draft, and has the declared type.
  have hparams : d₁.params.toList <+: final.params.toList := hextends.params
  have hfound := hparams.findIdx?_eq_some (findIdx?_slotOf hslot)
  obtain ⟨hlt, hsame, _⟩ := List.findIdx?_eq_some_iff_getElem.mp hfound
  have hparam : final.params.toList[k]? = some (name, type) := by
    have hdeclared := hfinal.loadable.valid.declared _ (List.getElem_mem hlt)
    rw [beq_iff_eq.mp hsame, hname] at hdeclared
    rw [List.getElem?_eq_getElem hlt, Option.some.injEq, Prod.ext_iff]
    exact ⟨beq_iff_eq.mp hsame, (Option.some.inj hdeclared).symm⟩
  have hindex : (UInt64.ofNat k).toNat = k := by
    have hslots := hfinal.loadable.slots
    rw [slotTypes_eq, List.length_map] at hslots
    exact UInt64.toNat_ofNat_of_lt' (by omega)
  obtain ⟨slot, hwritten, hvalue⟩ := hfinal.written k name type hparam
  obtain ⟨cell, hcell⟩ := hwritten.suits.exists_cell
  refine ⟨_, emit_literal hwritten scope d₀,
    mirrors_pushSlot (r := .ofKind .symbol (UInt64.ofNat k)) ?_ ?_ hwritten.suits hcell d₀⟩
  · simp [hcode]
  · refine .parameter ?_ ?_
    · rw [hindex, store, List.getElem?_map, slotTypes_eq, List.getElem?_map, hparam]
      rfl
    · rw [hindex]
      exact hvalue.trans hcell

/-- Compiling operands keeps what was there before. -/
theorem extends_of_emitRest (hop : op ∈ scope.registry.operators) {rest : List Expr}
    (h : emitRest scope op type d rest = (.ok type', d')) : Extends d d' := by
  have hsteps : Steps scope d (emitRest scope op type d rest).2 :=
    emitRest_steps hop (fun e _ d => emit_steps scope e d) type d
  rw [h] at hsteps
  exact extends_of_steps hsteps

/-- The operands after the first compile with literals as they do with symbols, if each of them
does. -/
theorem exists_mirrors_rest (hop : op ∈ scope.registry.operators) {rest : List Expr}
    (ih : ∀ e ∈ rest, ∀ {d type d'}, emit scope d e = (.ok type, d') → Extends d' final → ∀ d₀,
      ∃ d₀', emit scope d₀ (e.bind literal) = (.ok type, d₀') ∧ Mirrors m d d' d₀ d₀')
    (h : emitRest scope op type d rest = (.ok type', d')) (hextends : Extends d' final)
    (d₀ : Draft) :
    ∃ d₀', emitRest scope op type d₀ (Expr.bindAll literal rest) = (.ok type', d₀') ∧
      Mirrors m d d' d₀ d₀' := by
  induction rest generalizing d type d₀ with
  | nil =>
      rw [emitRest] at h
      cases h
      exact ⟨d₀, by rw [Expr.bindAll, emitRest], .refl m _ d₀⟩
  | cons operand rest ihrest =>
      obtain ⟨right, d₁, hemit, hrest⟩ := emitRest_cons_eq_ok_iff.mp h
      have hgrows := extends_of_emitRest hop hrest
      have hoperator : Step scope d₁ (d₁.pushOperator op) := .operator hop
      obtain ⟨d₂, hemit₀, hmirrors⟩ := ih operand List.mem_cons_self hemit
        (hoperator.extends.trans (hgrows.trans hextends)) d₀
      obtain ⟨d₀', hrest₀, hmirrors'⟩ := ihrest (fun e he => ih e (List.mem_cons_of_mem _ he)) hrest
        (d₂.pushOperator op)
      refine ⟨d₀', emitRest_cons_eq_ok_iff.mpr ⟨right, d₂, hemit₀, hrest₀⟩, ?_⟩
      exact (hmirrors.trans (mirrors_pushOperator m d₁ d₂ op)).trans hmirrors'

/-- An expression compiles with literals as it does with symbols. -/
theorem Bound.exists_mirrors (hfinal : Bound scope literal readArg args final) {e : Expr}
    (h : emit scope d e = (.ok type, d')) (hextends : Extends d' final) (d₀ : Draft) :
    ∃ d₀', emit scope d₀ (e.bind literal) = (.ok type, d₀') ∧
      Mirrors (final.store readArg args) d d' d₀ d₀' := by
  induction e using Expr.induction generalizing d type d' d₀ with
  | h kind text children ih =>
      by_cases hform : kind = .parenthesis
      · subst hform
        obtain ⟨op, first, rest, type₁, d₁, rfl, hresolve, hemit, hcases⟩ := emit_form_eq_ok h
        obtain ⟨hop, _, _⟩ := Registry.resolve_eq_some hresolve
        have hlength := Expr.length_bindAll literal rest
        have hresolve₀ : scope.registry.resolve text ((Expr.bindAll literal rest).length + 1) =
            some op := by rw [hlength]; exact hresolve
        rcases hcases with ⟨harity, rfl, rfl, rfl⟩ | ⟨harity, hrest, hemitRest⟩
        · have hoperator : Step scope d₁ (d₁.pushOperator op) := .operator hop
          obtain ⟨d₂, hemit₀, hmirrors⟩ :=
            ih first List.mem_cons_self hemit (hoperator.extends.trans hextends) d₀
          refine ⟨d₂.pushOperator op, ?_, hmirrors.trans (mirrors_pushOperator _ d₁ d₂ op)⟩
          rw [Expr.bind, Expr.bindAll, emit_form_cons hresolve₀, hemit₀]
          simp only [if_pos harity, Expr.bindAll, emitRest]
        · have hgrows := extends_of_emitRest hop hemitRest
          obtain ⟨d₂, hemit₀, hmirrors⟩ :=
            ih first List.mem_cons_self hemit (hgrows.trans hextends) d₀
          obtain ⟨d₀', hrest₀, hmirrors'⟩ := exists_mirrors_rest hop
            (fun e he => ih e (List.mem_cons_of_mem _ he)) hemitRest hextends d₂
          refine ⟨d₀', ?_, hmirrors.trans hmirrors'⟩
          rw [Expr.bind, Expr.bindAll, emit_form_cons hresolve₀, hemit₀]
          simp only [harity, if_neg (by decide : ¬(2 = 1)), hrest₀]
      · by_cases hsymbol : kind = .symbol
        · subst hsymbol
          rw [emit, emitSymbol] at h
          cases hname : scope.symbols.lookup text with
          | none =>
              rw [hname] at h
              cases h
          | some declared =>
              rw [hname] at h
              cases h
              exact hfinal.mirrors_symbol hname hextends d₀
        · -- Other atoms are compiled as they stand.
          have hsame : (Expr.node kind text children).bind literal = .node kind text children := by
            cases kind <;> first | contradiction | rfl
          obtain ⟨slot, hsuits, hemit⟩ := exists_slot_of_emit hform hsymbol h
          obtain ⟨cell, hcell⟩ := hsuits.exists_cell
          obtain rfl : d.pushSlot type slot = d' := by
            rw [hemit d] at h
            exact (Prod.mk.inj h).2
          obtain ⟨_, _, r, hcode, hholds⟩ := holds_pushSlot d hsuits hcell
          refine ⟨_, by rw [hsame]; exact hemit d₀, mirrors_pushSlot hcode ?_ hsuits hcell d₀⟩
          exact hholds final readArg args hextends hfinal.loadable.texts

/-- A draft has no more texts and no more parameters than records. -/
theorem sizes_of_steps (h : Steps scope .empty d) :
    d.constants.size ≤ d.code.size ∧ d.params.size ≤ d.code.size := by
  induction h with
  | refl => exact ⟨Nat.le_refl 0, Nat.le_refl 0⟩
  | @tail d d' _ hstep ih =>
      cases hstep with
      | value htype word =>
          simp only [constants_pushOperand, params_pushOperand, code_pushOperand, Array.size_push]
          omega
      | @text text hsize =>
          simp only [constants_pushText, params_pushText, code_pushText, Array.size_push,
            TextPool.retain_eq, TextPool.size_add]
          omega
      | @symbol name type hname =>
          have hsize : (d.slotOf name type).2.params.size ≤ d.params.size + 1 := by
            rcases params_slotOf d name type with hparams | hparams <;> simp [hparams]
          simp only [constants_pushSymbol, params_pushSymbol, code_pushSymbol, Array.size_push]
          omega
      | @operator op hop =>
          simp only [constants_pushOperator, params_pushOperator, code_pushOperator,
            Array.size_push]
          omega

/-- Slots that were filled with arguments hold what the literals denote. -/
theorem bound_ofSlots (hfinal : final.Loadable scope)
    (hsize : firstAddress + 3 * final.params.size ≤ UInt64.size) {slots : List Slot}
    (hslots : List.Forall₂ (fun param slot => Slot.WrittenAs param.2 slot (literal param.1))
      final.params.toList slots) :
    Bound scope literal (Frame.ofSlots slots).text? (Frame.ofSlots slots).words final := by
  refine ⟨hfinal, ?_⟩
  intro k name type hparam
  obtain ⟨slot, hslot, hwritten⟩ := exists_getElem?_of_forall₂ hslots hparam
  refine ⟨slot, hwritten, ?_⟩
  have hcount : firstAddress + 3 * slots.length ≤ UInt64.size := by
    rw [← hslots.length_eq, Array.length_toList]
    exact hsize
  exact hwritten.argumentCell?_ofSlots hslot hcount

/-- Code that fits into memory has words for its slots and texts. -/
theorem loadable_of_emit {e : Expr} (h : emit scope .empty e = (.ok type, d))
    (hmemory : 16 * d.code.size ≤ UInt64.size) :
    d.Loadable scope ∧ firstAddress + 3 * d.params.size ≤ UInt64.size := by
  have hsteps : Steps scope .empty d := by
    simpa [h] using emit_steps scope e .empty
  obtain ⟨htexts, hparams⟩ := sizes_of_steps hsteps
  have hfirst : firstAddress = 0x600000000000 := rfl
  have hsize : UInt64.size = 0x10000000000000000 := rfl
  refine ⟨⟨valid_of_steps hsteps (valid_empty scope), ?_, ?_⟩, ?_⟩
  · rw [slotTypes_eq, List.length_map, Array.length_toList]
    omega
  · omega
  · omega

/-- The expression with literals compiles to code without parameters that does the same in the same
space. -/
theorem Bound.exists_emit (hfinal : Bound scope literal readArg args final) {e : Expr}
    (h : emit scope .empty e = (.ok type, final)) (hmemory : 16 * final.code.size ≤ UInt64.size) :
    ∃ d₀, emit scope .empty (e.bind literal) = (.ok type, d₀) ∧ d₀.params = #[] ∧
      d₀.maxDepth = final.maxDepth ∧ ∀ readArg₀ args₀,
        List.Forall₂ (Record.Alike (final.store readArg args) (d₀.store readArg₀ args₀))
          final.code.toList d₀.code.toList := by
  obtain ⟨d₀, hemit, hmirrors⟩ := hfinal.exists_mirrors h (.refl final) .empty
  obtain ⟨records, records₀, hcode, hcode₀, hlength, halike⟩ := hmirrors.code
  have hcode : final.code.toList = records := hcode
  have hcode₀ : d₀.code.toList = records₀ := hcode₀
  have hmemory₀ : 16 * d₀.code.size ≤ UInt64.size := by
    rw [← Array.length_toList, hcode₀, hlength, ← hcode, Array.length_toList]
    exact hmemory
  refine ⟨d₀, hemit, hmirrors.params, ?_, ?_⟩
  · rw [(depth_of_emit hemit).2, (depth_of_emit h).2, Expr.need_bind]
  · intro readArg₀ args₀
    rw [hcode, hcode₀]
    exact halike d₀ readArg₀ args₀ (.refl d₀) (loadable_of_emit hemit hmemory₀).1.texts

/-- Code that does the same as accepted code is accepted, and computes the same. -/
theorem exists_check_of_alike {registry : Registry} {script : Script} {t : Term}
    {readArg₀ : UInt64 → Option String} {args₀ : Array UInt64} (hcode : d.code.toList = t.listing)
    (hcheck : Script.check registry d.constants.text? (d.toProgram type).words
      (d.toProgram type).slotTags = .ok script)
    (halike : List.Forall₂ (Record.Alike (d.store readArg args) (d₀.store readArg₀ args₀))
      d.code.toList d₀.code.toList) :
    ∃ script₀, Script.check registry d₀.constants.text? (d₀.toProgram type).words
        (d₀.toProgram type).slotTags = .ok script₀ ∧
      script₀.run readArg₀ args₀ = script.run readArg args := by
  obtain ⟨hunmarked, hmarked⟩ := unmarked_toProgram hcode type
  -- The generator may know other operators, so that its term is not the one compiled.
  obtain ⟨_, u, hu⟩ := Script.exists_describes_of_check hcheck
  obtain ⟨result, htyped, hresult⟩ := hu.typed
  have hlisting : u.listing = d.code.toList := (hu.listing.trans hunmarked).trans hcode.symm
  rw [← hlisting] at halike
  obtain ⟨u₀, hlisting₀, htyped₀, hvalue⟩ := Store.exists_term_of_forall₂ htyped halike
  obtain ⟨hunmarked₀, hmarked₀⟩ := unmarked_toProgram hlisting₀.symm type
  have hu₀ : u₀.Describes registry (d₀.toProgram type).words (d₀.toProgram type).slotTags :=
    ⟨hunmarked₀.symm, result, htyped₀, hresult⟩
  have heven : (d₀.toProgram type).words.length % 2 = 0 := by
    rw [Program.words, Record.length_toWords]
    omega
  have hread : Record.AreReadable d₀.constants.text?
      (Record.unmarked (Record.pairWords (d₀.toProgram type).words)) := by
    rw [hunmarked₀, hlisting₀]
    exact Store.areReadable_of_forall₂ halike
  obtain ⟨script₀, hcheck₀⟩ := Script.exists_check_of_describes heven rfl hread hu₀
  refine ⟨script₀, hcheck₀, ?_⟩
  have hvalue : u₀.eval d₀.constants.text? readArg₀ args₀ =
      u.eval d.constants.text? readArg args := hvalue
  rw [Script.run_eq_eval_of_describes hcheck₀ hu₀, Script.run_eq_eval_of_describes hcheck hu,
    hmarked₀, hmarked, hvalue]
  rfl

end Draft

/-! ## Calls without arguments -/

variable {engine : Engine} {backend : Registry} {isNative : Bool} {p : Program} {f : Function}
  {args : Arguments} {outcome : Outcome} {handle : Nat}

/-- An engine that checks code makes the functions whose code is accepted. -/
theorem Engine.load_eq_ok_iff (hgenerator : engine.generator = .checking backend isNative) :
    engine.load handle p = .ok f ↔
      ∃ script, Script.check backend p.constants.text? p.words p.slotTags = .ok script ∧
        f = ⟨some handle, p, script, engine.requiredStack p⟩ := by
  have hgenerate : engine.generator.generate p.words p.slotTags p.constants.text? =
      (Script.check backend p.constants.text? p.words p.slotTags).toOption := by
    rw [hgenerator]
    rfl
  rw [load_eq, hgenerate]
  cases Script.check backend p.constants.text? p.words p.slotTags with
  | error fault => simp [Except.toOption]
  | ok script => simp [Except.toOption, eq_comm]

/-- A call succeeds if it finds arguments for all parameters, and runs the script on them. -/
theorem Function.call_eq_ok_iff :
    f.call args = .ok outcome ↔ f.isReleased = false ∧ ∃ slots,
      slotsFor args (f.program.slotNames.zip f.program.slotTypes) = .ok slots ∧
        outcome = f.invoke (Frame.ofSlots slots).text? (Frame.ofSlots slots).words := by
  unfold call
  cases f.isReleased with
  | true => simp
  | false =>
      cases slotsFor args (f.program.slotNames.zip f.program.slotTypes) with
      | error fault => simp
      | ok slots => simp [eq_comm]

/-- Literals for the arguments of a call: the literal for the name of a parameter has the type that
the symbol is declared with and denotes what the argument becomes at that type. -/
def Function.Literals (f : Function) (symbols : Declarations) (args : Arguments)
    (literal : String → Kind × String) : Prop :=
  ∀ name type argument slot, symbols.typed.lookup name = some type → f.slotOf? name ≠ none →
    args.lookup name = some argument → argument.toSlot type = .ok slot →
    slot.WrittenAs type (literal name)

/-- **Parameters and constants are interchangeable.** If an expression compiles and a call succeeds
on arguments, then the expression with a literal in place of every symbol compiles too, to a
function that has no parameters, yields a float if the other one does and needs as much of the
stack. The call without arguments has the same outcome. Code is taken to fit into memory, with
sixteen bytes for each record. -/
theorem Engine.call_bind {e : Expr} {symbols : Declarations} {literal : String → Kind × String}
    (hgenerator : engine.generator = .checking backend isNative)
    (hcompile : Program.compile e symbols engine.registry = .ok p)
    (hmemory : 16 * p.code.size ≤ UInt64.size) (hload : engine.load handle p = .ok f)
    (hcall : f.call args = .ok outcome) (hliterals : f.Literals symbols args literal)
    (handle' : Nat) :
    ∃ p' f', Program.compile (e.bind literal) symbols engine.registry = .ok p' ∧
      engine.load handle' p' = .ok f' ∧ p'.slotNames = [] ∧ p'.slotTypes = [] ∧
      p'.returnsFloat = p.returnsFloat ∧ p'.maxStackBytes = p.maxStackBytes ∧
      f'.call [] = .ok outcome := by
  obtain ⟨hsymbols, type, d, hemit, rfl⟩ := Program.compile_eq_ok_iff.mp hcompile
  obtain ⟨script, hcheck, rfl⟩ := (Engine.load_eq_ok_iff hgenerator).mp hload
  obtain ⟨_, slots, hslots, rfl⟩ := Function.call_eq_ok_iff.mp hcall
  have hsize : (d.toProgram type).code.size = d.code.size := by
    unfold Draft.toProgram
    split <;> simp
  rw [hsize] at hmemory
  obtain ⟨hloadable, hcount⟩ := Draft.loadable_of_emit hemit hmemory
  -- Each parameter has found an argument, and the literal for its name denotes it.
  have hwritten : List.Forall₂ (fun param slot => Slot.WrittenAs param.2 slot (literal param.1))
      d.params.toList slots := by
    have hfound := Function.forall₂_of_slotsFor hslots
    rw [Draft.zip_slotNames] at hfound
    refine ((List.forall₂_and_left _ _).mpr ⟨fun param hparam => hparam, hfound⟩).imp ?_
    rintro ⟨name, declared⟩ slot ⟨hparam, argument, hargument, hslot⟩
    have hdeclared := hloadable.valid.declared _ hparam
    refine hliterals name declared argument slot hdeclared ?_ hargument hslot
    show d.slots.lookup name ≠ none
    rw [Draft.lookup_slots, ne_eq, List.findIdx?_eq_none_iff]
    intro hnone
    simpa using hnone _ hparam
  have hbound := Draft.bound_ofSlots hloadable hcount hwritten
  obtain ⟨d₀, hemit₀, hparams, hdepth, halike⟩ := hbound.exists_emit hemit hmemory
  obtain ⟨⟨t, hcode⟩, _⟩ := Draft.exists_listing_of_emit hemit
  obtain ⟨script₀, hcheck₀, hrun⟩ := Draft.exists_check_of_alike hcode hcheck
    (halike (Frame.ofSlots []).text? (Frame.ofSlots []).words)
  have hnames : (d₀.toProgram type).slotNames = [] := by
    rw [Draft.slotNames_toProgram, hparams]
    rfl
  have htypes : (d₀.toProgram type).slotTypes = [] := by
    show d₀.params.toList.map Prod.snd = []
    rw [hparams]
    rfl
  refine ⟨d₀.toProgram type, _, Program.compile_eq_ok_iff.mpr ⟨hsymbols, type, d₀, hemit₀, rfl⟩,
    (Engine.load_eq_ok_iff hgenerator).mpr ⟨script₀, hcheck₀, rfl⟩, hnames, htypes, rfl, ?_, ?_⟩
  · show d₀.maxDepth * 8 = d.maxDepth * 8
    rw [hdepth]
  · have hentry : script₀.entry (Frame.ofSlots []).text? (Frame.ofSlots []).words =
        script.entry (Frame.ofSlots slots).text? (Frame.ofSlots slots).words := by
      rw [Script.entry, Script.entry, hrun]
    have hnone : Function.slotsFor [] ((d₀.toProgram type).slotNames.zip
        (d₀.toProgram type).slotTypes) = .ok [] := by
      rw [hnames]
      rfl
    refine Function.call_eq_ok_iff.mpr ⟨rfl, [], hnone, ?_⟩
    show Outcome.ofWord (type == .float) _ = Outcome.ofWord (type == .float) _
    rw [hentry]

/-- A sum of an integer above the signed ones, taken twice, the length of a text, a decimal number
and a truth value, with the literals in place of the symbols. -/
theorem Engine.call_bind_sum :
    ∃ p' f', Program.compile (.form "+" [.atom .int "18446744073709551615",
        .form "len" [.atom .string "ab"], .atom .int "18446744073709551615", .atom .float "0.5",
        .atom .bool "true"]) [("x", .int), ("s", .string), ("y", .float), ("b", .bool)] .builtin =
          .ok p' ∧
      Engine.standard.load 2 p' = .ok f' ∧ p'.slotNames = [] ∧ p'.slotTypes = [] ∧
      p'.returnsFloat = true ∧ p'.maxStackBytes = 16 ∧
      f'.call [] = .ok (.float ⟨0x3ff8000000000000⟩) := by
  let literal : String → Kind × String := fun name =>
    if name = "x" then (.int, "18446744073709551615") else if name = "s" then (.string, "ab")
    else if name = "y" then (.float, "0.5") else (.bool, "true")
  let args : Arguments := [("x", .uint 18446744073709551615), ("s", .str "ab"),
    ("y", .float ⟨0x3fe0000000000000⟩), ("b", .int 7)]
  let p : Program := ⟨#[⟨0xff05, 0⟩, ⟨5, 1⟩, ⟨0, 0x80⟩, ⟨0, 1⟩, ⟨5, 0⟩, ⟨0, 1⟩, ⟨5, 2⟩, ⟨0, 1⟩,
    ⟨5, 3⟩, ⟨0, 1⟩], [("x", 0), ("s", 1), ("y", 2), ("b", 3)], [.int, .string, .float, .bool], 16,
    true, .empty⟩
  have hcompile : Program.compile (.form "+" [.atom .symbol "x", .form "len" [.atom .symbol "s"],
      .atom .symbol "x", .atom .symbol "y", .atom .symbol "b"])
      [("x", .int), ("s", .string), ("y", .float), ("b", .bool)] Engine.standard.registry =
        .ok p := by decide +kernel
  let script : Script := ⟨#[.argument 0 .int, .argument 1 .string, .apply (.unary .textLength),
    .apply (.binary .add), .argument 0 .int, .apply (.binary .add), .argument 2 .float,
    .apply (.binary .add), .argument 3 .bool, .apply (.binary .add)], #[], 2, true⟩
  let f : Function := ⟨some 1, p, script, Engine.standard.requiredStack p⟩
  have hload : Engine.standard.load 1 p = .ok f :=
    (load_eq_ok_iff rfl).mpr ⟨script, by decide +kernel, rfl⟩
  have hnames : p.slotNames = ["x", "s", "y", "b"] := by
    rw [Program.slotNames, List.mergeSort_of_pairwise (by decide)]
    rfl
  have hslots : Function.slotsFor args (p.slotNames.zip p.slotTypes) =
      .ok [.word 18446744073709551615, .text "ab", .word 0x3fe0000000000000, .word 1] := by
    rw [hnames]
    decide +kernel
  have hcall : f.call args = .ok (.float ⟨0x3ff8000000000000⟩) :=
    Function.call_eq_ok_iff.mpr ⟨rfl, _, hslots, by decide +kernel⟩
  have hliterals : f.Literals [("x", .int), ("s", .string), ("y", .float), ("b", .bool)] args
      literal := by
    intro name type argument slot hname _ hargument hslot
    have hcases : name = "x" ∨ name = "s" ∨ name = "y" ∨ name = "b" := by
      by_contra hother
      simp only [not_or] at hother
      obtain ⟨hx, hs, hy, hb⟩ := hother
      simp [Declarations.typed, Kind.ty?, List.lookup_cons, beq_eq_false_iff_ne.mpr, *] at hname
    rcases hcases with rfl | rfl | rfl | rfl <;> cases hname <;> cases hargument <;> cases hslot
    · exact .int _
    · exact .text (by decide)
    · exact .float (by decide +kernel)
    · exact .bool true
  exact call_bind rfl hcompile (by decide) hload hcall hliterals 2

end Formula
