import Formula.Proofs.Binding
import Formula.Proofs.Numerals
import Formula.Proofs.Rendering

/-!
# Integers as formulas

Every word of sixty-four bits has a decimal numeral, which is a formula, and so is a form that
negates a numeral. Both are read back from their text (`Expr.parse_numeral`, `Expr.parse_negated`),
compile to code without parameters that passes the check with the built-in operators, and have the
values that they are written for (`Engine.integers_evaluate`).
-/

namespace Formula

open Text

/-! ## Numerals as words of a source -/

/-- The characters of a decimal numeral are decimal digits. -/
theorem digit_of_mem_toDigits {n : Nat} {c : Char} (h : c ∈ Nat.toDigits 10 n) :
    isDecimal c = true ∧ isWordChar c = true ∧ c ≠ '.' ∧ c ≠ '"' := by
  obtain ⟨d, hd, rfl⟩ := exists_digitChar_of_mem_toDigits (by decide) h
  have hdigits : ∀ d < 10, isDecimal (Nat.digitChar d) = true ∧
      isWordChar (Nat.digitChar d) = true ∧ Nat.digitChar d ≠ '.' ∧ Nat.digitChar d ≠ '"' := by
    decide
  exact hdigits d hd

/-- A decimal numeral is an integer word. -/
theorem wordKind_toDigits (n : Nat) : wordKind (Nat.toDigits 10 n) = .int := by
  obtain ⟨c, cs, hcons⟩ := List.exists_cons_of_ne_nil (Nat.toDigits_ne_nil (n := n) (b := 10))
  have hstart : startsNumber (Nat.toDigits 10 n) = true := by
    have hc := (digit_of_mem_toDigits (hcons ▸ List.mem_cons_self)).1
    simp [hcons, startsNumber, hc]
  have hpoint : '.' ∉ Nat.toDigits 10 n := fun hmem => (digit_of_mem_toDigits hmem).2.2.1 rfl
  rw [wordKind, if_pos hstart, if_neg (by simpa using hpoint)]

/-- A decimal numeral is a word that a reader can yield. -/
theorem isLexeme_numeral (n : Nat) : Word.IsLexeme (.int, toString n) := by
  have hkind := wordKind_toDigits n
  have hchar (c : Char) (hc : c ∈ Nat.toDigits 10 n) := digit_of_mem_toDigits hc
  rw [Nat.toString_eq_repr, Nat.repr_eq_ofList_toDigits]
  obtain ⟨c, cs, hcons⟩ := List.exists_cons_of_ne_nil (Nat.toDigits_ne_nil (n := n) (b := 10))
  rw [hcons] at hchar hkind ⊢
  rw [← hkind]
  exact .bare (hchar c List.mem_cons_self).2.2.2 fun d hd => (hchar d hd).2.1

namespace Expr

variable {e : Expr}

/-- A proper expression is read from its text if its words are words that a reader can yield and
neither truth values nor texts. -/
theorem parse_render_of_plain (he : e.IsProper)
    (hwords : ∀ w ∈ e.words, Word.IsLexeme w ∧ w.1 ≠ .bool ∧ w.1 ≠ .string) :
    parse e.render = .ok e := by
  obtain ⟨cs, hrender, hlaid⟩ := exists_layout he
  have hsource : Reader.ofString e.render = ⟨cs, 0, false⟩ := by
    rw [Reader.ofString, render, hrender]
    rfl
  have hlayout : Laid e.words cs := by simpa using hlaid .nil (by simp)
  refine parse_of_isFirst ⟨he, ?_⟩
  rw [hsource]
  refine (hlayout.prefix_iff (fun w hw => (hwords w hw).1) 0).mpr fun w hw => ?_
  obtain ⟨-, hbool, hstring⟩ := hwords w hw
  exact ⟨hbool, fun h => absurd h hstring⟩

/-- A numeral is read as an integer. -/
theorem parse_numeral (n : Nat) : parse (toString n) = .ok (.atom .int (toString n)) := by
  have hrender : (Expr.atom .int (toString n)).render = toString n := by
    simp [render, atom, renderOnto, renderAtom]
  have hparse := parse_render_of_plain (e := .atom .int (toString n)) (.atom _ (by decide)) ?_
  · rwa [hrender] at hparse
  · simpa [words_atom] using isLexeme_numeral n

/-- A numeral behind a minus in parentheses is read as a form. -/
theorem parse_negated (n : Nat) :
    parse ("(- " ++ toString n ++ ")") = .ok (.form "-" [.atom .int (toString n)]) := by
  have hrender : (Expr.form "-" [.atom .int (toString n)]).render = "(- " ++ toString n ++ ")" := by
    rw [← String.toList_inj]
    simp [render, form, atom, renderOnto, renderOperandsOnto, renderAtom]
  have hminus : Word.IsLexeme (.symbol, "-") :=
    @Word.IsLexeme.bare '-' [] (by decide) (List.all_eq_true.mp (by decide))
  have hparse := parse_render_of_plain (e := .form "-" [.atom .int (toString n)])
    (.form _ (by simpa using .atom _ (by decide))) ?_
  · rwa [hrender] at hparse
  · simpa [form, words, wordsAll, words_atom, hminus, Word.IsLexeme.opening,
      Word.IsLexeme.closing] using isLexeme_numeral n

end Expr

/-! ## Functions of constant expressions -/

variable {source : String} {e : Expr} {t : Term} {d : Draft} {i : Int64}

/-- The program of code without parameters has no slots. -/
theorem Draft.slotTypes_eq_nil (hparams : d.params = #[]) (type : Ty) :
    (d.toProgram type).slotTypes = [] := by
  show d.params.toList.map Prod.snd = []
  rw [hparams]
  rfl

/-- Code without parameters that is the listing of a term with an integer for its value passes the
check and computes this integer. -/
theorem Draft.exists_check_of_term (hparams : d.params = #[]) (hcode : d.code.toList = t.listing)
    (htype : t.HasType .builtin [] .int) (hread : Record.AreReadable d.constants.text? t.listing)
    (heval : ∀ readArg args, t.eval d.constants.text? readArg args = some (.int i)) :
    ∃ script, Script.check .builtin d.constants.text? (d.toProgram .int).words
        (d.toProgram .int).slotTags = .ok script ∧
      ∀ readArg args, script.run readArg args = some i.toUInt64 := by
  have htags : (d.toProgram .int).slotTags = [] := by
    rw [Program.slotTags, slotTypes_eq_nil hparams]
    rfl
  have heven : (d.toProgram .int).words.length % 2 = 0 := by
    rw [Program.words, Record.length_toWords]
    omega
  obtain ⟨hunmarked, hmarked⟩ := unmarked_toProgram hcode .int
  have hdescribes : t.Describes .builtin (d.toProgram .int).words (d.toProgram .int).slotTags :=
    ⟨hunmarked.symm, .int, by rwa [htags], by decide⟩
  rw [hdescribes.listing] at hread
  obtain ⟨script, hcheck⟩ :=
    Script.exists_check_of_describes heven (htags.trans List.map_nil.symm) hread hdescribes
  refine ⟨script, hcheck, fun readArg args => ?_⟩
  rw [Script.run_eq_eval_of_describes hcheck hdescribes, hmarked, heval]
  rfl

/-- A source whose code has no parameters and is the listing of a term with an integer for its
value becomes a function, and all calls of it give back this integer. -/
theorem Engine.exists_build_of_term (hparse : Expr.parse source = .ok e)
    (hemit : Draft.emit ⟨.builtin, []⟩ .empty e = (.ok .int, d)) (hparams : d.params = #[])
    (hcode : d.code.toList = t.listing) (htype : t.HasType .builtin [] .int)
    (hread : Record.AreReadable d.constants.text? t.listing)
    (heval : ∀ readArg args, t.eval d.constants.text? readArg args = some (.int i))
    (handle : Nat) :
    ∃ f, Engine.standard.build handle source [] = .ok f ∧ f.program.returnsFloat = false ∧
      ∀ args, f.call args = .ok (.word i.toUInt64) := by
  have hcompile : Program.compile e [] Engine.standard.registry = .ok (d.toProgram .int) :=
    Program.compile_eq_ok_iff.mpr ⟨rfl, .int, d, hemit, rfl⟩
  obtain ⟨script, hcheck, hrun⟩ := Draft.exists_check_of_term hparams hcode htype hread heval
  let f : Function :=
    ⟨some handle, d.toProgram .int, script, Engine.standard.requiredStack (d.toProgram .int)⟩
  have hload : Engine.standard.load handle (d.toProgram .int) = .ok f :=
    (Engine.load_eq_ok_iff rfl).mpr ⟨script, hcheck, rfl⟩
  refine ⟨f, by simp only [Engine.build_eq, hparse, hcompile, hload], rfl, fun args => ?_⟩
  have hslots : Function.slotsFor args
      ((d.toProgram .int).slotNames.zip (d.toProgram .int).slotTypes) = .ok [] := by
    rw [Draft.slotTypes_eq_nil hparams, List.zip_nil_right]
    rfl
  refine Function.call_eq_ok_iff.mpr ⟨rfl, [], hslots, ?_⟩
  rw [Function.invoke, Script.entry, hrun]
  rfl

/-- The code of a numeral puts its word on the stack. -/
theorem Draft.emit_numeral (scope : Scope) (d : Draft) (w : UInt64) :
    emit scope d (.atom .int (toString w.toNat)) = (.ok .int, d.pushOperand (.ofKind .int w)) := by
  have hword : Literal.integer (toString w.toNat).toList = .ok w := by
    rw [Nat.toString_eq_repr, Nat.repr_eq_ofList_toDigits, String.toList_ofList,
      Literal.integer_toDigits]
  rw [Expr.atom, emit, emitInteger, hword]

/-- A record of an integer refers to no text. -/
theorem Record.areReadable_int (read : UInt64 → Option String) (w : UInt64) :
    AreReadable read [.ofKind .int w] := by
  have hnone : AreReadable read [] := by simp [AreReadable]
  exact hnone.concat_ofKind (by decide) w

/-- The numeral of a word becomes a function that gives back the word. -/
theorem Engine.exists_build_numeral (w : UInt64) (handle : Nat) :
    ∃ f, Engine.standard.build handle (toString w.toNat) [] = .ok f ∧
      f.program.returnsFloat = false ∧ ∀ args, f.call args = .ok (.word w) := by
  have hbuild := exists_build_of_term (i := w.toInt64) (t := .constant .int w)
    (Expr.parse_numeral w.toNat) (Draft.emit_numeral _ _ w) rfl rfl (.constant .int w)
    (Record.areReadable_int _ w) (fun _ _ => rfl) handle
  rwa [UInt64.toUInt64_toInt64] at hbuild

/-- The numeral of a word in a form that negates it becomes a function that gives back the
negative. -/
theorem Engine.exists_build_negated (w : UInt64) (handle : Nat) :
    ∃ f, Engine.standard.build handle ("(- " ++ toString w.toNat ++ ")") [] = .ok f ∧
      f.program.returnsFloat = false ∧
      ∀ args, f.call args = .ok (.word (-w.toInt64).toUInt64) := by
  let minus : Operator := .arithmetic "-" 0x03 1 "neg" .promote
  have hminus : minus ∈ Registry.builtin.operators := by decide +kernel
  have hprimitive : Primitive.ofName? "neg" = some (.unary .neg) := by decide +kernel
  have hresolve : Registry.builtin.resolve "-" 1 = some minus := by decide +kernel
  have hemit : Draft.emit ⟨.builtin, []⟩ .empty (.form "-" [.atom .int (toString w.toNat)]) =
      (.ok .int, (Draft.empty.pushOperand (.ofKind .int w)).pushOperator minus) := by
    rw [Expr.form, Draft.emit_form_cons hresolve, Draft.emit_numeral]
    rfl
  have htype : Term.HasType .builtin [] (.unary minus (.constant .int w)) .int :=
    .unary hminus hprimitive rfl rfl (.constant .int w) (.inr ⟨rfl, .inr (by decide)⟩)
  refine exists_build_of_term (Expr.parse_negated w.toNat) hemit rfl rfl htype ?_ ?_ handle
  · exact (Record.areReadable_int _ w).concat_ofKind (by decide) _
  · intro readArg args
    rfl

/-! ## Main results -/

/-- How a signed integer is written as a formula: by the numeral of its absolute value, which
stands in a form that negates it if the integer is below zero. -/
def integerSource (v : Int64) : String :=
  let numeral := toString v.toInt.natAbs
  if 0 ≤ v.toInt then numeral else "(- " ++ numeral ++ ")"

/-- **Integers evaluate to themselves.** The written form of a signed 64-bit integer becomes a
function that returns no double, and every call of it gives back the integer. The same holds of the
numeral of an unsigned integer. The absolute value of the least signed integer is out of the signed
range: its numeral stands for the integer itself, which is its own negative. -/
theorem Engine.integers_evaluate (handle : Nat) :
    (∀ v : Int64, ∃ f, Engine.standard.build handle (integerSource v) [] = .ok f ∧
      f.program.returnsFloat = false ∧
      ∀ args, ∃ outcome, f.call args = .ok outcome ∧ outcome.toInt64 = v) ∧
    ∀ u : UInt64, ∃ f, Engine.standard.build handle (toString u.toNat) [] = .ok f ∧
      f.program.returnsFloat = false ∧
      ∀ args, ∃ outcome, f.call args = .ok outcome ∧ outcome.toUInt64 = u := by
  constructor
  · intro v
    have hlt : v.toInt < 2 ^ 63 := v.toInt_lt
    have hle : -2 ^ 63 ≤ v.toInt := v.le_toInt
    have hnat : (UInt64.ofNat v.toInt.natAbs).toNat = v.toInt.natAbs :=
      UInt64.toNat_ofNat_of_lt' (show v.toInt.natAbs < 2 ^ 64 by omega)
    by_cases hv : 0 ≤ v.toInt
    · obtain ⟨f, hbuild, hfloat, hcall⟩ := exists_build_numeral (.ofNat v.toInt.natAbs) handle
      rw [hnat] at hbuild
      refine ⟨f, by rwa [integerSource, if_pos hv], hfloat, fun args => ⟨_, hcall args, ?_⟩⟩
      show (UInt64.ofNat v.toInt.natAbs).toInt64 = v
      rw [UInt64.toInt64_ofNat', ← Int64.toInt_inj, Int64.toInt_ofNat_of_lt (by omega)]
      omega
    · obtain ⟨f, hbuild, hfloat, hcall⟩ := exists_build_negated (.ofNat v.toInt.natAbs) handle
      rw [hnat] at hbuild
      refine ⟨f, by rwa [integerSource, if_neg hv], hfloat, fun args => ⟨_, hcall args, ?_⟩⟩
      show (-(UInt64.ofNat v.toInt.natAbs).toInt64).toUInt64.toInt64 = v
      rw [Int64.toInt64_toUInt64, UInt64.toInt64_ofNat', ← Int64.toInt_inj,
        Int64.toInt_neg_ofNat_of_le (by omega)]
      omega
  · intro u
    obtain ⟨f, hbuild, hfloat, hcall⟩ := exists_build_numeral u handle
    exact ⟨f, hbuild, hfloat, fun args => ⟨_, hcall args, rfl⟩⟩

end Formula
