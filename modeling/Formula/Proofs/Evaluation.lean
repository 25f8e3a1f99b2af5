import Formula.Proofs.Acceptance
import Formula.Proofs.Draft

/-!
# Values of expressions

An expression has a value by recursion over the tree (`Expr.eval`). Compiling an expression adds
the listing of a term to the draft, and the term has the value of the expression in every program
that the draft becomes (`emit_endsWith`). A compiled expression that passes the check therefore
computes the value of the expression (`run_eq_eval_of_compile`).
-/

namespace Formula

/-! ## Values -/

namespace Expr

mutual

/-- The value of an expression in a registry and an environment. A form applies its operator to
as many operands as it takes, and then to the value so far and each further operand. -/
def eval (registry : Registry) (env : String → Option Cell) : Expr → Option Cell
  | node .bool word _ => some (.bool (word == "true"))
  | node .int word _ => (Literal.integer word.toList).toOption.map (.int ·.toInt64)
  | node .float word _ => (Literal.decimal? word.toList).map .float
  | node .string text _ => some (.str text)
  | node .symbol name _ => env name
  | node .parenthesis name operands => do
    let op ← registry.resolve name operands.length
    let cells ← evalAll registry env operands
    let first ← op.apply (cells.take op.arity)
    (cells.drop op.arity).foldlM (fun value cell => op.apply [value, cell]) first

/-- The values of expressions, all of which must have one. -/
def evalAll (registry : Registry) (env : String → Option Cell) : List Expr → Option (List Cell)
  | [] => some []
  | e :: es => do
    let cell ← eval registry env e
    let cells ← evalAll registry env es
    some (cell :: cells)

end

variable {registry : Registry} {env : String → Option Cell} {op : Operator} {name : String}
  {first : Expr} {rest : List Expr}

/-- A unary operator is applied to the value of its operand. -/
theorem eval_form_unary (hresolve : registry.resolve name 1 = some op) (harity : op.arity = 1) :
    (node .parenthesis name [first]).eval registry env =
      (first.eval registry env).bind fun x => op.apply [x] := by
  have hop : registry.resolve name [first].length = some op := hresolve
  rw [eval, hop, evalAll, evalAll]
  cases first.eval registry env with
  | none => rfl
  | some x => simp [harity]

/-- A binary operator is applied to the value of the first operand and then to the values of the
others in turn. -/
theorem eval_form_binary (hresolve : registry.resolve name (rest.length + 1) = some op)
    (harity : op.arity = 2) (hrest : rest ≠ []) :
    (node .parenthesis name (first :: rest)).eval registry env =
      (first.eval registry env).bind fun x =>
        (evalAll registry env rest).bind
          (List.foldlM (fun value cell => op.apply [value, cell]) x) := by
  have hop : registry.resolve name (first :: rest).length = some op := hresolve
  rw [eval, hop, evalAll]
  cases rest with
  | nil => exact absurd rfl hrest
  | cons second rest =>
      rw [evalAll]
      cases first.eval registry env with
      | none => rfl
      | some x =>
          cases second.eval registry env with
          | none => rfl
          | some y => cases evalAll registry env rest <;> simp [harity]

end Expr

/-- The value of a symbol: the argument word in its slot, read at the type of the slot. Slots are
numbered by words. -/
def Script.symbolCell? (slots : List (String × Nat)) (slotTypes : List Ty)
    (readArg : UInt64 → Option String) (args : Array UInt64) (name : String) : Option Cell := do
  let slot ← slots.lookup name
  let index := (UInt64.ofNat slot).toNat
  let type ← slotTypes[index]?
  argumentCell? readArg (args.getD index 0) type

/-! ## Addresses -/

/-- The text at an index is behind the address of the index, as long as addresses are words. -/
theorem TextPool.text?_addressOf {pool : TextPool} {k : Nat}
    (hsize : firstAddress + pool.size ≤ UInt64.size) (hk : k < pool.size) :
    pool.text? (addressOf k) = pool.texts[k]? := by
  have haddress : (addressOf k).toNat = firstAddress + k :=
    UInt64.toNat_ofNat_of_lt' (by omega)
  rw [text?, atAddress?, haddress, if_neg (by omega), Nat.add_sub_cancel_left]

/-- A text that is added is behind the next address, and stays there when more texts follow. -/
theorem TextPool.text?_nextAddress {pool later : TextPool} {text : String}
    (h : (pool.add text).texts.toList <+: later.texts.toList)
    (hsize : firstAddress + later.size ≤ UInt64.size) :
    later.text? pool.nextAddress = some text := by
  obtain ⟨rest, hrest⟩ := h
  have htext : later.texts[pool.size]? = some text := by
    rw [← Array.getElem?_toList, ← hrest]
    simp [TextPool.add, TextPool.size]
  obtain ⟨hlt, _⟩ := Array.getElem?_eq_some_iff.mp htext
  rw [TextPool.nextAddress, TextPool.text?_addressOf hsize hlt, htext]

/-- The address that is no word any more comes out as zero, and no text is there. -/
theorem TextPool.text?_addressOf_overflow (pool : TextPool) :
    pool.text? (addressOf (UInt64.size - firstAddress)) = none := by
  have haddress : addressOf (UInt64.size - firstAddress) = 0 := by decide
  rw [haddress]
  rfl

namespace Draft

variable {scope : Scope} {d d' : Draft} {op : Operator} {type type' : Ty} {name : String}

/-- A term of a draft stands for a value: in every draft that this one becomes, its parameters
and operators are there and it has that value, as long as texts have words for addresses. -/
def Denotes (scope : Scope) (d : Draft) (t : Term)
    (value : (String → Option Cell) → Option Cell) : Prop :=
  ∀ d', Extends d d' → firstAddress + d'.constants.size ≤ UInt64.size →
    t.Fits scope.registry (d'.slotTypes.map Ty.tag) ∧
    ∀ readArg args, t.eval d'.constants.text? readArg args =
      value (Script.symbolCell? d'.slots d'.slotTypes readArg args)

/-- What a term stands for does not change when the draft grows. -/
theorem Denotes.mono {t : Term} {value : (String → Option Cell) → Option Cell}
    (h : Denotes scope d t value) (hextends : Extends d d') : Denotes scope d' t value :=
  fun _ hlater haddress => h _ (hextends.trans hlater) haddress

/-- The code ends with the listing of a term that stands for a value; before it stand other
records. -/
def EndsWith (scope : Scope) (before : List Record) (d : Draft)
    (value : (String → Option Cell) → Option Cell) : Prop :=
  ∃ t : Term, d.code.toList = before ++ t.listing ∧ Denotes scope d t value

variable {before : List Record} {value value' : (String → Option Cell) → Option Cell}

/-- An operator applied to a value that was left last. -/
theorem EndsWith.unary (h : EndsWith scope before d value) (hop : op ∈ scope.registry.operators)
    (harity : op.arity = 1) :
    EndsWith scope before (d.pushOperator op) fun env =>
      (value env).bind fun x => op.apply [x] := by
  obtain ⟨t, hcode, hdenotes⟩ := h
  refine ⟨.unary op t, by simp [hcode, Term.listing], ?_⟩
  intro d' hextends haddress
  obtain ⟨hfits, heval⟩ := hdenotes.mono (Step.operator hop).extends d' hextends haddress
  refine ⟨⟨hop, harity, hfits⟩, ?_⟩
  intro readArg args
  rw [Term.eval, heval]
  rfl

/-- An operator applied to two values that were left last. -/
theorem EndsWith.binary (h : EndsWith scope before d value)
    (h' : EndsWith scope d.code.toList d' value') (hextends : Extends d d')
    (hop : op ∈ scope.registry.operators) (harity : op.arity = 2) :
    EndsWith scope before (d'.pushOperator op) fun env =>
      (value env).bind fun x => (value' env).bind fun y => op.apply [x, y] := by
  obtain ⟨t, hcode, hdenotes⟩ := h
  obtain ⟨t', hcode', hdenotes'⟩ := h'
  refine ⟨.binary op t t', by simp [hcode', hcode, Term.listing], ?_⟩
  intro d'' hlater haddress
  have hlater' := (Step.operator hop).extends.trans hlater
  obtain ⟨hfits, heval⟩ := hdenotes d'' (hextends.trans hlater') haddress
  obtain ⟨hfits', heval'⟩ := hdenotes' d'' hlater' haddress
  refine ⟨⟨hop, harity, hfits, hfits'⟩, ?_⟩
  intro readArg args
  rw [Term.eval, heval, heval']
  rfl

/-- A number or a truth value. -/
theorem endsWith_value {word : UInt64} {cell : Cell}
    (hcell : ∀ read, Script.argumentCell? read word type = some cell) :
    EndsWith scope d.code.toList (d.pushOperand (.ofKind type.kind word)) fun _ => some cell :=
  ⟨.constant type word, by simp [Term.listing], fun _ _ _ =>
    ⟨trivial, fun _ _ => hcell _⟩⟩

/-- A text. -/
theorem endsWith_text (text : String) :
    EndsWith scope d.code.toList (d.pushText text) fun _ => some (.str text) := by
  refine ⟨.constant .string d.constants.nextAddress, by simp [Term.listing, Ty.kind], ?_⟩
  intro d' hextends haddress
  refine ⟨trivial, ?_⟩
  intro readArg args
  rw [Term.eval, Script.argumentCell?, TextPool.text?_nextAddress hextends.texts haddress]
  rfl

/-- A parameter. -/
theorem endsWith_symbol (d : Draft) (name : String) (type : Ty) :
    EndsWith scope d.code.toList (d.pushSymbol name type) fun env => env name := by
  obtain ⟨slot, d₁, hslot⟩ : ∃ slot d₁, d.slotOf name type = (slot, d₁) := ⟨_, _, rfl⟩
  have hfound := findIdx?_slotOf hslot
  have hcode : d₁.code = d.code := by simpa [hslot] using d.code_slotOf name type
  -- The number of the slot is a word that does not exceed it, so that there is a type for it.
  have hindex : (UInt64.ofNat slot).toNat < d₁.slotTypes.length := by
    obtain ⟨hlt, _⟩ := List.findIdx?_eq_some_iff_getElem.mp hfound
    have hle : (UInt64.ofNat slot).toNat ≤ slot := by
      rw [UInt64.toNat_ofNat']
      exact Nat.mod_le _ _
    rw [slotTypes_eq, List.length_map]
    omega
  obtain ⟨slotType, htype⟩ : ∃ slotType,
      d₁.slotTypes[(UInt64.ofNat slot).toNat]? = some slotType :=
    ⟨_, List.getElem?_eq_getElem hindex⟩
  rw [pushSymbol, hslot]
  refine ⟨.parameter (UInt64.ofNat slot) slotType,
    by simp only [pushOperand, hcode, Array.toList_push, Term.listing], ?_⟩
  intro d' hextends haddress
  have hparams : d₁.params.toList <+: d'.params.toList := hextends.params
  have htype' : d'.slotTypes[(UInt64.ofNat slot).toNat]? = some slotType := by
    have htypes : d₁.slotTypes <+: d'.slotTypes := hparams.map Prod.snd
    obtain ⟨rest, hrest⟩ := htypes
    rw [← hrest, List.getElem?_append_left hindex, htype]
  constructor
  · show (d'.slotTypes.map Ty.tag)[(UInt64.ofNat slot).toNat]? = some slotType.tag
    rw [List.getElem?_map, htype', Option.map_some]
  · intro readArg args
    show Script.argumentCell? readArg (args.getD (UInt64.ofNat slot).toNat 0) slotType =
      Script.symbolCell? d'.slots d'.slotTypes readArg args name
    rw [Script.symbolCell?, lookup_slots, hparams.findIdx?_eq_some hfound]
    simp only [Option.bind_eq_bind, Option.bind_some, htype']

/-- Compiling the operands after the first folds the operator over their values, if compiling each
of them leaves its value. -/
theorem emitRest_endsWith (hop : op ∈ scope.registry.operators) {rest : List Expr}
    (ih : ∀ e ∈ rest, ∀ {d type d'}, emit scope d e = (.ok type, d') →
      EndsWith scope d.code.toList d' (e.eval scope.registry ·))
    (harity : op.arity = 2) (h : emitRest scope op type d rest = (.ok type', d'))
    (hvalue : EndsWith scope before d value) :
    EndsWith scope before d' fun env =>
      (value env).bind fun x => (Expr.evalAll scope.registry env rest).bind
        (List.foldlM (fun value cell => op.apply [value, cell]) x) := by
  induction rest generalizing d type value with
  | nil =>
      rw [emitRest] at h
      cases h
      simpa [Expr.evalAll, Option.bind_fun_some] using hvalue
  | cons operand rest ihrest =>
      obtain ⟨right, d₁, hemit, hrest⟩ := emitRest_cons_eq_ok_iff.mp h
      have hsteps : Steps scope d d₁ := by
        simpa [hemit] using emit_steps scope operand d
      have hoperand := ih operand List.mem_cons_self hemit
      -- The value so far and the operand are now one value, with which the rest goes on.
      have hpair := hvalue.binary hoperand (extends_of_steps hsteps) hop harity
      have hall := ihrest (fun e he => ih e (List.mem_cons_of_mem _ he)) hrest hpair
      convert hall using 2 with env
      rw [Expr.evalAll]
      cases value env with
      | none => rfl
      | some x =>
          cases operand.eval scope.registry env with
          | none => rfl
          | some y => cases Expr.evalAll scope.registry env rest <;> simp

/-- Compiling an expression leaves its value. -/
theorem emit_endsWith {e : Expr} (h : emit scope d e = (.ok type, d')) :
    EndsWith scope d.code.toList d' (e.eval scope.registry ·) := by
  induction e using Expr.induction generalizing d type d' with
  | h kind text children ih =>
      cases kind with
      | parenthesis =>
          obtain ⟨op, first, rest, type₁, d₁, rfl, hresolve, hemit, hcases⟩ := emit_form_eq_ok h
          obtain ⟨hop, _, _⟩ := Registry.resolve_eq_some hresolve
          have hfirst := ih first List.mem_cons_self hemit
          rcases hcases with ⟨harity, rfl, _, rfl⟩ | ⟨harity, hrest, hemitRest⟩
          · simp only [Expr.eval_form_unary hresolve harity]
            exact hfirst.unary hop harity
          · simp only [Expr.eval_form_binary hresolve harity hrest]
            exact emitRest_endsWith hop (fun e he => ih e (List.mem_cons_of_mem _ he)) harity
              hemitRest hfirst
      | bool =>
          rw [emit, emitBool] at h
          cases h
          simp only [Expr.eval]
          refine @endsWith_value _ _ .bool _ _ ?_
          intro read
          by_cases htrue : text = "true" <;> simp [Script.argumentCell?, htrue]
      | int =>
          rw [emit, emitInteger] at h
          simp only [Expr.eval]
          rcases hint : Literal.integer text.toList with (_ | _) | bits <;> rw [hint] at h <;> cases h
          exact @endsWith_value _ _ .int _ _ fun _ => rfl
      | float =>
          rw [emit, emitFloat] at h
          simp only [Expr.eval]
          rcases hfloat : Literal.decimal? text.toList with _ | value <;> rw [hfloat] at h <;> cases h
          exact @endsWith_value _ _ .float _ _ fun _ => rfl
      | string =>
          rw [emit, emitText] at h
          simp only [Expr.eval]
          split at h <;> cases h
          exact endsWith_text text
      | symbol =>
          rw [emit, emitSymbol] at h
          simp only [Expr.eval]
          cases hname : scope.symbols.lookup text with
          | none =>
              rw [hname] at h
              cases h
          | some type₁ =>
              rw [hname] at h
              cases h
              exact endsWith_symbol d text _

end Draft

/-! ## Programs -/

namespace Record

/-- Records of kinds have no mark. -/
theorem unmarked_eq_self {records : List Record}
    (h : ∀ r ∈ records, ∃ kind word, r = ofKind kind word) :
    unmarked records = records ∧ isMarked records = false := by
  cases records with
  | nil => exact ⟨rfl, rfl⟩
  | cons first rest =>
      obtain ⟨kind, word, rfl⟩ := h first List.mem_cons_self
      have htag : (UInt64.ofNat kind.tag &&& ~~~floatMark) = UInt64.ofNat kind.tag ∧
          (UInt64.ofNat kind.tag &&& floatMark == floatMark) = false := by
        cases kind <;> decide
      refine ⟨?_, htag.2⟩
      rw [unmarked, clearMark, ofKind, htag.1]

/-- The mark can be taken off again. -/
theorem unmarked_modify {records : List Record}
    (h : ∀ r ∈ records, ∃ kind word, r = ofKind kind word) (hne : records ≠ []) :
    unmarked (records.modify 0 markFloat) = records ∧
      isMarked (records.modify 0 markFloat) = true := by
  cases records with
  | nil => exact absurd rfl hne
  | cons first rest =>
      obtain ⟨kind, word, rfl⟩ := h first List.mem_cons_self
      have htag : ((UInt64.ofNat kind.tag ||| floatMark) &&& ~~~floatMark) =
            UInt64.ofNat kind.tag ∧
          ((UInt64.ofNat kind.tag ||| floatMark) &&& floatMark == floatMark) = true := by
        cases kind <;> decide
      rw [List.modify_zero_cons]
      refine ⟨?_, htag.2⟩
      rw [unmarked, clearMark, markFloat, ofKind, htag.1]

end Record

/-- A program has the records of its draft, marked if the result is a float. -/
theorem Draft.unmarked_toProgram {d : Draft} {t : Term} (hcode : d.code.toList = t.listing)
    (type : Ty) :
    Record.unmarked (Record.pairWords (d.toProgram type).words) = t.listing ∧
      Record.isMarked (Record.pairWords (d.toProgram type).words) =
        (d.toProgram type).returnsFloat := by
  have hkinds : ∀ r ∈ t.listing, ∃ kind word, r = .ofKind kind word :=
    fun r hr => Term.eq_ofKind_of_mem_listing hr
  rw [Program.words, Record.pairWords_toWords]
  by_cases htype : type = .float
  · subst htype
    have hmarked := Record.unmarked_modify hkinds t.listing_ne_nil
    simpa [toProgram, hcode] using hmarked
  · have hsame := Record.unmarked_eq_self hkinds
    have hfloat : (type == .float) = false := beq_eq_false_iff_ne.mpr htype
    simpa [toProgram, htype, hfloat, hcode] using hsame

/-- The texts of a valid draft can be numbered by words if they can all be read. -/
theorem Draft.Valid.texts_le {scope : Scope} {d : Draft} (hd : d.Valid scope)
    (hread : Record.AreReadable d.constants.text? d.code.toList) :
    firstAddress + d.constants.size ≤ UInt64.size := by
  -- Otherwise the address of some text is zero, and nothing can be read there.
  by_contra hlarge
  have hfirst : firstAddress ≤ UInt64.size := by decide
  have hk : UInt64.size - firstAddress < d.constants.size := by omega
  obtain ⟨text, htext⟩ := hread _ (hd.referred _ hk) rfl
  rw [Record.ofKind, TextPool.text?_addressOf_overflow] at htext
  cases htext

/-- A compiled expression that passes the check computes the value of the expression, or nothing
where it has none. Each symbol is an argument, read at the type that the symbol is declared
with. -/
theorem Script.run_eq_eval_of_compile {e : Expr} {symbols : Declarations} {registry : Registry}
    {p : Program} {script : Script} (hcompile : Program.compile e symbols registry = .ok p)
    (hcheck : check registry p.constants.text? p.words p.slotTags = .ok script) :
    (∀ readArg args,
      script.run readArg args =
          (e.eval registry (symbolCell? p.slots p.slotTypes readArg args)).bind
            (Cell.toWord? p.returnsFloat) ∧
        script.entry readArg args =
          ((e.eval registry (symbolCell? p.slots p.slotTypes readArg args)).bind
            (Cell.toWord? p.returnsFloat)).getD 0) ∧
    ∀ name slot, p.slots.lookup name = some slot →
      ∃ type, symbols.typed.lookup name = some type ∧ p.slotTypes[slot]? = some type := by
  obtain ⟨_, type, d, hemit, rfl⟩ := Program.compile_eq_ok_iff.mp hcompile
  have hvalid : d.Valid ⟨registry, symbols.typed⟩ := by
    refine Draft.valid_of_steps ?_ (Draft.valid_empty _)
    simpa [hemit] using Draft.emit_steps ⟨registry, symbols.typed⟩ e .empty
  refine ⟨?_, fun name slot hslot => hvalid.exists_declared hslot⟩
  intro readArg args
  obtain ⟨t, hcode, hdenotes⟩ := Draft.emit_endsWith hemit
  have hcode : d.code.toList = t.listing := hcode
  obtain ⟨hunmarked, hmarked⟩ := Draft.unmarked_toProgram hcode type
  -- Since the check has read all texts, their addresses are words.
  obtain ⟨hread, t', ht'⟩ := exists_describes_of_check hcheck
  rw [hunmarked, ← hcode] at hread
  obtain ⟨hfits, heval⟩ := hdenotes d (.refl d) (hvalid.texts_le hread)
  -- The listing has only one term, so that the term found by the check is the one compiled.
  obtain rfl : t' = t := by
    obtain ⟨type', htype', _⟩ := ht'.typed
    exact Term.eq_of_listing_eq htype'.fits hfits (ht'.listing.trans hunmarked)
  have hvalue : t'.eval (d.toProgram type).constants.text? readArg args =
      e.eval registry
        (symbolCell? (d.toProgram type).slots (d.toProgram type).slotTypes readArg args) :=
    heval readArg args
  have hrun := run_eq_eval_of_describes hcheck ht' readArg args
  rw [hmarked, hvalue] at hrun
  exact ⟨hrun, by rw [entry, hrun]⟩

/-- A symbol less the length of a text and less two. -/
theorem Script.run_eq_eval_of_compile_difference :
    ∃ p script,
      Program.compile
        (.form "-" [.atom .symbol "x", .form "len" [.atom .symbol "s"], .atom .int "2"])
        [("x", .int), ("s", .string)] .builtin = .ok p ∧
      check .builtin p.constants.text? p.words p.slotTags = .ok script ∧
      script.run (fun _ => some "ab") #[7, 1] = some 3 := by
  refine ⟨⟨#[⟨5, 0⟩, ⟨5, 1⟩, ⟨0, 0x80⟩, ⟨0, 2⟩, ⟨2, 2⟩, ⟨0, 2⟩], [("x", 0), ("s", 1)],
      [.int, .string], 16, false, .empty⟩,
    ⟨#[.argument 0 .int, .argument 1 .string, .apply (.unary .textLength), .apply (.binary .sub),
      .const (.int 2), .apply (.binary .sub)], #[], 2, false⟩, ?compiled, ?accepted,
    ((run_eq_eval_of_compile ?compiled ?accepted).1 _ _).1.trans ?value⟩
  case compiled => decide +kernel
  case accepted => decide +kernel
  case value => decide +kernel

end Formula
