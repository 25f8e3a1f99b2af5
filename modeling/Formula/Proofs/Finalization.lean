import Formula.Operator.Builtin
import Formula.Proofs.Building
import Formula.Proofs.Evaluation

/-!
# Finalizing builders

Before a builder is finalized, every record of its code is bare: its tag is that of a kind. When it
is finalized for the first time, the first record is marked if the last expression that compiled
yields a float (`Builder.Seals`), and from then on nothing changes. A mark is never set twice, and
expressions that fail have no influence on it, as the type of the result is that of the last one
that compiled (`Builder.result_run`).
-/

namespace Formula

namespace Record

@[simp]
theorem returnsFloat_markFloat (r : Record) : r.markFloat.returnsFloat = true := by
  have habsorb : (r.tag ||| floatMark) &&& floatMark = floatMark := by
    apply UInt64.eq_of_toBitVec_eq
    ext i
    rw [UInt64.toBitVec_and, UInt64.toBitVec_or, BitVec.getElem_and, BitVec.getElem_or]
    cases floatMark.toBitVec[i] <;> simp
  rw [returnsFloat, markFloat, habsorb]
  rfl

@[simp]
theorem returnsFloat_ofKind (kind : Kind) (word : UInt64) :
    (ofKind kind word).returnsFloat = false := by
  show (UInt64.ofNat kind.tag &&& floatMark == floatMark) = false
  cases kind <;> decide

end Record

/-! ## Bare records -/

namespace Draft

variable {scope : Scope} {d d' : Draft}

/-- Every record of a draft has the tag of a kind and no mark. -/
def IsBare (d : Draft) : Prop :=
  ∀ r ∈ d.code.toList, ∃ kind word, r = Record.ofKind kind word

/-- One more bare record leaves a draft bare. -/
theorem IsBare.push (hd : d.IsBare) {kind : Kind} {word : UInt64}
    (hcode : d'.code = d.code.push (.ofKind kind word)) : d'.IsBare := by
  intro r hr
  rw [hcode, Array.toList_push, List.mem_append, List.mem_singleton] at hr
  rcases hr with hr | rfl
  · exact hd r hr
  · exact ⟨kind, word, rfl⟩

/-- A step leaves a draft bare. -/
theorem Step.isBare (h : Step scope d d') (hd : d.IsBare) : d'.IsBare := by
  cases h with
  | value htype word => exact hd.push rfl
  | text hsize => exact hd.push rfl
  | @symbol name type hname => exact hd.push (code_pushSymbol ..)
  | operator hop => exact hd.push rfl

/-- Compiling an expression leaves a draft bare, also where it fails. -/
theorem IsBare.emit (hd : d.IsBare) (scope : Scope) (e : Expr) : (d.emit scope e).2.IsBare := by
  have hsteps := emit_steps scope e d
  generalize (d.emit scope e).2 = d' at hsteps
  induction hsteps with
  | refl => exact hd
  | tail _ hstep ih => exact hstep.isBare ih

end Draft

namespace Builder

variable {b b' : Builder} {actions : List Action}

/-! ## Outcomes -/

/-- What the appends of a run return, in order. -/
def outcomes (b : Builder) : List Action → List (Except CompileError Ty)
  | [] => []
  | .append e :: actions => (b.append e).1 :: outcomes (b.append e).2 actions
  | .finalize :: actions => outcomes b.finalize actions

/-- The type that the last successful append of a run returned. -/
def lastType? (b : Builder) (actions : List Action) : Option Ty :=
  ((b.outcomes actions).filterMap Except.toOption).getLast?

/-- An append sets the type of the result if it succeeds, and only then. -/
theorem result_append (b : Builder) (e : Expr) :
    (b.append e).2.result = (b.append e).1.toOption.or b.result := by
  rw [append]
  split
  · rfl
  · rcases b.draft.emit b.scope e with ⟨fault | type, d⟩ <;> rfl

@[simp]
theorem result_finalize (b : Builder) : b.finalize.result = b.result := by
  rw [finalize]
  split <;> rfl

/-- The type of the result is what the last successful append returned, or else what it was before
the run. -/
theorem result_run (b : Builder) (actions : List Action) :
    (b.run actions).result = (b.lastType? actions).or b.result := by
  induction actions generalizing b with
  | nil => rfl
  | cons action actions ih =>
      cases action with
      | append e =>
          show ((b.append e).2.run actions).result = _
          rw [ih, result_append, ← Option.or_assoc, lastType?, lastType?, outcomes,
            List.filterMap_cons]
          cases (b.append e).1.toOption with
          | none => rw [Option.or_none]
          | some type =>
              rw [List.getLast?_cons]
              cases (List.filterMap Except.toOption _).getLast? <;> rfl
      | finalize =>
          show (b.finalize.run actions).result = _
          rw [ih, result_finalize, lastType?, lastType?, outcomes]

/-! ## Open builders -/

/-- Builders that have not been finalized: their records are bare, and if an expression has compiled
there are records. -/
structure IsOpen (b : Builder) : Prop where
  isFinalized : b.isFinalized = false
  bare : b.draft.IsBare
  code : b.result ≠ none → b.draft.code.toList ≠ []

theorem isOpen_ofScope (scope : Scope) : (ofScope scope).IsOpen :=
  ⟨rfl, nofun, fun h => absurd rfl h⟩

/-- Appending an expression leaves a builder open, whether or not it compiles. -/
theorem IsOpen.append (hb : b.IsOpen) (e : Expr) : (b.append e).2.IsOpen := by
  obtain ⟨houtcome, hdraft, hopen⟩ := append_of_open hb.isFinalized e
  refine ⟨hopen, ?_, ?_⟩
  · rw [hdraft]
    exact hb.bare.emit b.scope e
  · rw [result_append, hdraft]
    rcases hemit : b.draft.emit b.scope e with ⟨fault | type, d⟩
    · rw [hemit] at houtcome
      rw [houtcome]
      intro hresult
      have hprefix := (Draft.extends_of_steps (Draft.emit_steps b.scope e b.draft)).code
      rw [hemit] at hprefix
      exact fun hnil => hb.code hresult (List.prefix_nil.mp (hnil ▸ hprefix))
    · intro _
      obtain ⟨t, hcode, -⟩ := Draft.emit_endsWith hemit
      rw [hcode]
      simp [t.listing_ne_nil]

/-- A builder is open until it is finalized. -/
theorem IsOpen.run (hb : b.IsOpen) (h : Action.finalize ∉ actions) : (b.run actions).IsOpen := by
  induction actions generalizing b with
  | nil => exact hb
  | cons action actions ih =>
      rw [List.mem_cons, not_or] at h
      obtain ⟨hne, hrest⟩ := h
      cases action with
      | append e => exact ih (hb.append e) hrest
      | finalize => exact absurd rfl hne

/-- A builder is finalized as soon as it has been finalized once. -/
theorem isFinalized_run (b : Builder) (h : Action.finalize ∈ actions) :
    (b.run actions).isFinalized = true := by
  obtain ⟨before, later, rfl⟩ := List.append_of_mem h
  have hfinalized := isFinalized_finalize (b.run before)
  rw [run_append]
  show ((b.run before).finalize.run later).isFinalized = true
  rw [run_of_finalized hfinalized, hfinalized]

/-! ## Finalizing -/

/-- What happens to a builder when it is finalized for the first time: the first record is marked if
the last expression that compiled has the type of floats, and nothing else changes. -/
structure Seals (b : Builder) (last : Option Ty) (b' : Builder) : Prop where
  closed : b.isFinalized = false ∧ b'.isFinalized = true
  count : b'.draft.code.size = b.draft.code.size
  records : ∀ i r, b.draft.code[i]? = some r → ∃ r', b'.draft.code[i]? = some r' ∧
    r'.kind? = r.kind? ∧ r'.payload = r.payload ∧
    r'.tag = if i = 0 ∧ last = some .float then r.tag ||| 0xff00 else r.tag
  marked : ∀ i r', b'.draft.code[i]? = some r' →
    (r'.returnsFloat = true ↔ i = 0 ∧ last = some .float)
  draft : b'.draft = { b.draft with code := b'.draft.code }
  result : b'.result = b.result
  scope : b'.scope = b.scope

/-- The record at a place after an open builder has been finalized. -/
theorem getElem?_code_finalize (hb : b.isFinalized = false) (i : Nat) :
    b.finalize.draft.code[i]? = b.draft.code[i]?.map fun r =>
      if i = 0 ∧ b.result = some .float then r.markFloat else r := by
  have hopen : ¬(b.isFinalized = true) := by simp [hb]
  rw [finalize, if_neg hopen]
  by_cases hfloat : b.result = some .float
  · have hreturns : b.returnsFloat = true := by simp [returnsFloat, hfloat]
    simp only [hreturns, if_true, hfloat, and_true, Array.getElem?_modify]
    by_cases hi : i = 0
    · subst hi
      simp
    · simp [hi, Ne.symm hi]
  · have hreturns : b.returnsFloat = false := by simp [returnsFloat, hfloat]
    simp [hreturns, hfloat]

/-- Finalizing an open builder marks its first record if the result is a float. -/
theorem IsOpen.seals (hb : b.IsOpen) : b.Seals b.result b.finalize := by
  have hopen : ¬(b.isFinalized = true) := by simp [hb.isFinalized]
  have hcode := getElem?_code_finalize hb.isFinalized
  have hbare (i : Nat) (r : Record) (hr : b.draft.code[i]? = some r) : r.returnsFloat = false := by
    obtain ⟨kind, word, rfl⟩ := hb.bare r (Array.mem_toList_iff.mpr (Array.mem_of_getElem? hr))
    exact Record.returnsFloat_ofKind kind word
  refine ⟨⟨hb.isFinalized, isFinalized_finalize b⟩, ?_, ?_, ?_, ?_, result_finalize b,
    scope_perform b .finalize⟩
  · rcases draft_finalize b with hdraft | hdraft <;> rw [hdraft]
    simp [Draft.mark]
  · intro i r hr
    refine ⟨_, by rw [hcode, hr, Option.map_some], ?_⟩
    split_ifs
    · exact ⟨r.kind?_markFloat, rfl, rfl⟩
    · exact ⟨rfl, rfl, rfl⟩
  · intro i r' hr'
    rw [hcode] at hr'
    obtain ⟨r, hr, rfl⟩ := Option.map_eq_some_iff.mp hr'
    split_ifs with hmark
    · simp [hmark, r.returnsFloat_markFloat]
    · simp [hmark, hbare i r hr]
  · rcases draft_finalize b with hdraft | hdraft <;> rw [hdraft]
    rfl

/-- The program of a finalized builder is what the builder holds. -/
theorem toProgram_of_finalized (h : b.isFinalized = true) :
    b.toProgram = ⟨b.draft.code, b.draft.slots, b.draft.slotTypes, b.draft.maxStackBytes,
      b.returnsFloat, b.draft.constants⟩ := by
  rw [toProgram, finalize_of_finalized h]

@[simp]
theorem toProgram_finalize (b : Builder) : b.finalize.toProgram = b.toProgram := by
  rw [toProgram, finalize_of_finalized (isFinalized_finalize b), toProgram]

/-- Finalizing once more does not change the program. -/
theorem toProgram_run_finalize (b : Builder) (actions : List Action) (n : Nat) :
    (b.run (actions ++ List.replicate n .finalize)).toProgram = (b.run actions).toProgram := by
  rw [run_append]
  cases n with
  | zero => rfl
  | succ n =>
      show ((b.run actions).finalize.run (List.replicate n .finalize)).toProgram = _
      rw [run_of_finalized (isFinalized_finalize _), toProgram_finalize]

/-- A run leads to an open builder, or to one that was open until it was finalized. -/
theorem IsOpen.exists_open_run (hb : b.IsOpen) (actions : List Action) :
    ∃ o : Builder, o.IsOpen ∧ o.finalize = (b.run actions).finalize := by
  by_cases hmem : Action.finalize ∈ actions
  · -- The run is cut where the builder is finalized for the first time.
    obtain ⟨before, later, rfl, hbefore⟩ := List.eq_append_cons_of_mem hmem
    refine ⟨b.run before, hb.run hbefore, ?_⟩
    have hfinalized := isFinalized_finalize (b.run before)
    rw [run_append]
    show _ = ((b.run before).finalize.run later).finalize
    rw [run_of_finalized hfinalized, finalize_of_finalized hfinalized]
  · exact ⟨b.run actions, hb.run hmem, rfl⟩

/-- The first record of a builder's program says whether the program returns a float. -/
theorem IsOpen.returnsFloat_toProgram (hb : b.IsOpen) :
    (∀ r, b.toProgram.code[0]? = some r → r.returnsFloat = b.toProgram.returnsFloat) ∧
      (b.toProgram.code[0]? = none → b.toProgram.returnsFloat = false) := by
  have hreturns : b.toProgram.returnsFloat = (b.result == some .float) := by
    show (b.finalize.result == some .float) = _
    rw [result_finalize]
  rw [hreturns]
  constructor
  · intro r hr
    rw [Bool.eq_iff_iff, hb.seals.marked 0 r hr]
    simp
  · intro hnone
    have hempty : b.draft.code.toList = [] := by
      have hsize : b.finalize.draft.code.size ≤ 0 := Array.getElem?_eq_none_iff.mp hnone
      rw [hb.seals.count, Nat.le_zero, Array.size_eq_zero_iff] at hsize
      rw [hsize]
    cases hresult : b.result with
    | none => rfl
    | some type => exact absurd hempty (hb.code (by simp [hresult]))

/-- **Builders are finalized once.** Before a builder is finalized, the tag of every record is the
bare tag of its kind. The first time it is finalized, the first record is marked if and only if the
last expression that compiled has the type of floats, and nothing else changes: kinds and payloads
of records stay what they were, and so do parameters, texts, depths and the type of the result. From
then on every append returns an error, and no action changes anything. The program has what the
finalized builder has, it returns a float if the last expression that compiled does, and its first
record says so. However often a builder is finalized after the last append, the program is the
same. -/
theorem finalize_marks_once (scope : Scope) (actions : List Action) :
    let b := (ofScope scope).run actions
    let last := (ofScope scope).lastType? actions
    (.finalize ∉ actions →
      (∀ r ∈ b.draft.code.toList, ∃ kind : Kind, r.tag = UInt64.ofNat kind.tag ∧
        r.kind? = some kind) ∧
      b.Seals last b.finalize) ∧
    (.finalize ∈ actions →
      (∀ e, b.append e = (.error .finalized, b)) ∧ b.finalize = b ∧ (∀ later, b.run later = b) ∧
      b.toProgram = ⟨b.draft.code, b.draft.slots, b.draft.slotTypes, b.draft.maxStackBytes,
        b.returnsFloat, b.draft.constants⟩) ∧
    b.toProgram = b.finalize.toProgram ∧
    b.toProgram.returnsFloat = (last == some .float) ∧
    (∀ r, b.toProgram.code[0]? = some r → r.returnsFloat = b.toProgram.returnsFloat) ∧
    (b.toProgram.code[0]? = none → b.toProgram.returnsFloat = false) ∧
    ∀ n, ((ofScope scope).run (actions ++ List.replicate n .finalize)).toProgram =
      b.toProgram := by
  intro b last
  have hlast : b.result = last := by
    rw [result_run]
    exact Option.or_none
  have hstart := isOpen_ofScope scope
  obtain ⟨o, hopen, hfinalize⟩ := hstart.exists_open_run actions
  have hprogram : o.toProgram = b.toProgram := by
    rw [← toProgram_finalize, hfinalize, toProgram_finalize]
  refine ⟨?_, ?_, (toProgram_finalize b).symm, ?_, ?_, ?_, toProgram_run_finalize _ actions⟩
  · intro hmem
    have hb : b.IsOpen := hstart.run hmem
    refine ⟨?_, hlast ▸ hb.seals⟩
    intro r hr
    obtain ⟨kind, word, rfl⟩ := hb.bare r hr
    exact ⟨kind, rfl, Record.kind?_ofKind kind word⟩
  · intro hmem
    have hfinalized : b.isFinalized = true := isFinalized_run _ hmem
    exact ⟨append_of_finalized hfinalized, finalize_of_finalized hfinalized,
      run_of_finalized hfinalized, toProgram_of_finalized hfinalized⟩
  · rw [← hlast, ← result_finalize]
    rfl
  · rw [← hprogram]
    exact hopen.returnsFloat_toProgram.1
  · rw [← hprogram]
    exact hopen.returnsFloat_toProgram.2

/-- A sum fails at its second operand, another one has the type of floats and a third fails again:
the record that the first one left is marked, and what comes after the end changes nothing. -/
theorem finalize_marks_once_after_failure :
    let appends : List Action :=
      [.append (.form "+" [.atom .int "1", .atom .symbol "y"]), .append (.atom .float "0.5"),
        .append (.form "-" [.atom .symbol "y"])]
    let b := (ofScope ⟨.builtin, []⟩).run appends
    let b' := (ofScope ⟨.builtin, []⟩).run (appends ++ [.finalize, .append (.atom .int "2")])
    b.draft.code = #[⟨2, 1⟩, ⟨3, 0x3fe0000000000000⟩] ∧ b.Seals (some .float) b.finalize ∧
    b'.draft.code = #[⟨0xff02, 1⟩, ⟨3, 0x3fe0000000000000⟩] ∧
    b'.append (.atom .int "2") = (.error .finalized, b') ∧ b'.toProgram.returnsFloat = true ∧
    ((ofScope ⟨.builtin, []⟩).run (appends ++ [.finalize, .finalize])).toProgram =
      b.toProgram := by
  intro appends b b'
  obtain ⟨hopen, -, -, -, -, -, hsame⟩ := finalize_marks_once ⟨.builtin, []⟩ appends
  obtain ⟨-, hclosed, -, hfloat, -, -, -⟩ := finalize_marks_once ⟨.builtin, []⟩
    (appends ++ [.finalize, .append (.atom .int "2")])
  have hlast : (ofScope ⟨.builtin, []⟩).lastType? appends = some .float := by decide +kernel
  refine ⟨by decide +kernel, hlast ▸ (hopen (by simp [appends])).2, by decide +kernel,
    (hclosed (by simp)).1 _, hfloat.trans (by decide +kernel), hsame 2⟩

end Builder

end Formula
