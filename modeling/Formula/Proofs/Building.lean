import Formula.Proofs.Walk

/-!
# Runs of builders

A builder takes expressions one after another, whether they compile or not, until it is finalized;
from then on it takes no more. What compiling an expression keeps, also where it fails, and what the
mark on the first record keeps, is kept over every run (`Builder.run_keeps`). What grows with the
expressions is followed over a run by `Builder.run_induction`.
-/

namespace Formula

/-! ## Kinds of records -/

namespace Record

@[simp]
theorem kind?_ofKind (kind : Kind) (word : UInt64) : (ofKind kind word).kind? = some kind := by
  show Kind.ofTag? (UInt64.ofNat kind.tag &&& kindMask).toNat = some kind
  cases kind <;> decide

@[simp]
theorem isOperator_ofKind (kind : Kind) (word : UInt64) :
    (ofKind kind word).isOperator = (kind == .parenthesis) := by
  show (UInt64.ofNat kind.tag &&& kindMask == 0) = (kind == .parenthesis)
  cases kind <;> decide

/-- The mark lies outside the bits of the kind. -/
theorem tag_markFloat (r : Record) : r.markFloat.tag &&& kindMask = r.tag &&& kindMask := by
  apply UInt64.eq_of_toBitVec_eq
  have hoverlap : floatMark.toBitVec &&& kindMask.toBitVec = 0#64 := by decide
  rw [markFloat, UInt64.toBitVec_and, UInt64.toBitVec_or, BitVec.and_or_distrib_right, hoverlap,
    BitVec.or_zero, UInt64.toBitVec_and]

@[simp]
theorem kind?_markFloat (r : Record) : r.markFloat.kind? = r.kind? := by
  rw [kind?, tag_markFloat, kind?]

@[simp]
theorem isOperator_markFloat (r : Record) : r.markFloat.isOperator = r.isOperator := by
  rw [isOperator, tag_markFloat, isOperator]

/-- Taking the mark off leaves the bits of the kind. -/
theorem tag_clearMark (r : Record) : r.clearMark.tag &&& kindMask = r.tag &&& kindMask := by
  have hbits : (~~~floatMark) &&& kindMask = kindMask := by decide
  rw [clearMark, UInt64.and_assoc, hbits]

@[simp]
theorem kind?_clearMark (r : Record) : r.clearMark.kind? = r.kind? := by
  rw [kind?, tag_clearMark, kind?]

@[simp]
theorem isOperator_clearMark (r : Record) : r.clearMark.isOperator = r.isOperator := by
  rw [isOperator, tag_clearMark, isOperator]

end Record

section Stores

variable {π σ : Type}

/-- The draft with the mark of code that yields a float on its first record. -/
def Draft.mark (d : Draft π σ) : Draft π σ :=
  { d with code := d.code.modify 0 Record.markFloat }

@[simp]
theorem Draft.toList_code_mark (d : Draft π σ) :
    d.mark.code.toList = d.code.toList.modify 0 Record.markFloat := by
  simp [mark]

/-- What is read off records in the same way whether or not they are marked is read off a draft in
the same way. -/
theorem Draft.filterMap_code_mark {α : Type} {f : Record → Option α}
    (hf : ∀ r : Record, f r.markFloat = f r) (d : Draft π σ) :
    d.mark.code.toList.filterMap f = d.code.toList.filterMap f := by
  rw [toList_code_mark]
  cases d.code.toList with
  | nil => rfl
  | cons first rest => rw [List.modify_zero_cons, List.filterMap_cons, List.filterMap_cons, hf]

namespace Builder

variable {b : Builder π σ}

/-! ## Finalizing -/

/-- A builder can be finalized only once. -/
theorem finalize_of_finalized (h : b.isFinalized = true) : b.finalize = b := by
  rw [finalize, if_pos h]

/-- Finalizing a builder marks its first record or does nothing to the draft. -/
theorem draft_finalize (b : Builder π σ) :
    b.finalize.draft = b.draft ∨ b.finalize.draft = b.draft.mark := by
  unfold finalize
  split
  · exact .inl rfl
  · by_cases hfloat : b.returnsFloat = true
    · exact .inr (by simp [hfloat, Draft.mark])
    · exact .inl (by simp [hfloat])

@[simp]
theorem isFinalized_finalize (b : Builder π σ) : b.finalize.isFinalized = true := by
  unfold finalize
  split
  · assumption
  · rfl

/-! ## Actions -/

/-- What can be done with a builder. -/
inductive Action where
  | append (e : Expr)
  | finalize

variable [SlotStore π] [TextStore σ]

/-- The builder after one action. -/
def perform (b : Builder π σ) : Action → Builder π σ
  | .append e => (b.append e).2
  | .finalize => b.finalize

/-- The builder after some actions. -/
def run (b : Builder π σ) (actions : List Action) : Builder π σ :=
  actions.foldl perform b

/-- The expressions that are appended before the builder is finalized. -/
def appended : List Action → List Expr
  | .append e :: actions => e :: appended actions
  | _ => []

/-- A finalized builder takes no expressions. -/
theorem append_of_finalized (h : b.isFinalized = true) (e : Expr) :
    b.append e = (.error .finalized, b) := by
  rw [append, if_pos h]

/-- Appending an expression compiles it, and keeps what was compiled also where it fails. -/
theorem append_of_open (h : b.isFinalized = false) (e : Expr) :
    (b.append e).1 = (b.draft.emit b.scope e).1 ∧
      (b.append e).2.draft = (b.draft.emit b.scope e).2 ∧ (b.append e).2.isFinalized = false := by
  have hopen : ¬(b.isFinalized = true) := by simp [h]
  rw [append, if_neg hopen]
  rcases b.draft.emit b.scope e with ⟨fault | type, d⟩
  · exact ⟨rfl, rfl, h⟩
  · exact ⟨rfl, rfl, h⟩

@[simp]
theorem scope_perform (b : Builder π σ) (action : Action) : (b.perform action).scope = b.scope := by
  cases action with
  | append e =>
      rw [perform, append]
      split
      · rfl
      · rcases b.draft.emit b.scope e with ⟨fault | type, d⟩ <;> rfl
  | finalize =>
      rw [perform, finalize]
      split <;> rfl

/-! ## Runs -/

@[simp]
theorem run_append (b : Builder π σ) (actions later : List Action) :
    b.run (actions ++ later) = (b.run actions).run later :=
  List.foldl_append

@[simp]
theorem scope_run (b : Builder π σ) (actions : List Action) : (b.run actions).scope = b.scope := by
  induction actions generalizing b with
  | nil => rfl
  | cons action actions ih => exact (ih (b.perform action)).trans (scope_perform b action)

/-- Nothing can be done with a finalized builder. -/
theorem run_of_finalized (h : b.isFinalized = true) (actions : List Action) :
    b.run actions = b := by
  induction actions with
  | nil => rfl
  | cons action actions ih =>
      have hsame : b.perform action = b := by
        cases action with
        | append e => rw [perform, append_of_finalized h]
        | finalize => exact finalize_of_finalized h
      show (b.perform action).run actions = b
      rw [hsame, ih]

/-- What holds of a draft and the expressions that went into it holds after a run, if it is kept
when an expression is compiled and when the first record is marked. -/
theorem run_induction {P : List Expr → Draft π σ → Prop}
    (hemit : ∀ es e d, P es d → P (es ++ [e]) (d.emit b.scope e).2)
    (hmark : ∀ es d, P es d → P es d.mark) (hopen : b.isFinalized = false) (es : List Expr)
    (hb : P es b.draft) (actions : List Action) :
    P (es ++ appended actions) (b.run actions).draft := by
  induction actions generalizing b es with
  | nil => simpa [appended, run] using hb
  | cons action actions ih =>
      show P _ ((b.perform action).run actions).draft
      cases action with
      | append e =>
          obtain ⟨_, hdraft, hopen'⟩ := append_of_open hopen e
          have hscope : (b.append e).2.scope = b.scope := scope_perform b (.append e)
          rw [appended, List.append_cons]
          refine ih ?_ hopen' (es ++ [e]) ?_
          · intro es e d hd
            rw [hscope]
            exact hemit es e d hd
          · rw [hdraft]
            exact hemit es e b.draft hb
      | finalize =>
          rw [perform, run_of_finalized (isFinalized_finalize b), appended, List.append_nil]
          · rcases draft_finalize b with hdraft | hdraft
            · rwa [hdraft]
            · rw [hdraft]
              exact hmark es b.draft hb
          · nofun

/-- What holds of a draft holds after a run, if it is kept when an expression is compiled and when
the first record is marked. -/
theorem run_keeps {P : Draft π σ → Prop} (hemit : ∀ e d, P d → P (d.emit b.scope e).2)
    (hmark : ∀ d, P d → P d.mark) (hb : P b.draft) (actions : List Action) :
    P (b.run actions).draft := by
  cases hfinalized : b.isFinalized with
  | true => rwa [run_of_finalized hfinalized]
  | false =>
      exact run_induction (P := fun _ => P) (fun _ => hemit) (fun _ => hmark) hfinalized [] hb
        actions

end Builder

end Stores

end Formula
