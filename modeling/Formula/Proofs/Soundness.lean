import Formula.Proofs.Checker
import Formula.TextPool

/-!
# Soundness of the checker

Running checked code goes in step with checking it. For every registry the stack of the run has
as many values as the checker has types, with texts in the same places, so that a run fails only
where an argument is no text or a primitive cannot take a text
(`run_safe_of_check`). With the built-in operators every value has the very type that the
checker found, and a run does not fail at all (`run_typed_of_check_builtin`).
-/

namespace Formula

/-! ## Accepted code -/

/-- Records with the mark of the first one taken off. -/
def Record.unmarked : List Record → List Record
  | [] => []
  | first :: rest => first.clearMark :: rest

/-- A number that stands for a type is the number of that type. -/
theorem Ty.ofTag?_eq_some_iff {n : Nat} {t : Ty} : Ty.ofTag? n = some t ↔ n = t.tag := by
  constructor
  · intro h
    unfold Ty.ofTag? Kind.ofTag? at h
    split at h <;> cases h <;> rfl
  · rintro rfl
    exact Ty.ofTag?_tag t

/-- Numbers that stand for types are the numbers of those types. -/
theorem Ty.mapM_ofTag?_eq_some_iff {tags : List Nat} {types : List Ty} :
    tags.mapM Ty.ofTag? = some types ↔ tags = types.map Ty.tag := by
  induction tags generalizing types with
  | nil => cases types <;> simp
  | cons n tags ih =>
      simp only [List.mapM_cons, Option.bind_eq_bind, Option.bind_eq_some_iff, Option.pure_def,
        Option.some.injEq, Ty.ofTag?_eq_some_iff, ih]
      cases types with
      | nil => simp
      | cons t types => simp

/-- Checking ends well if one value is left and it is not a text. -/
theorem Checker.finish_eq_ok_iff {s : Checker} {returnsFloat : Bool} {script : Script} :
    s.finish returnsFloat = .ok script ↔
      ∃ type, s.types = [type] ∧ type ≠ .string ∧
        script = ⟨s.code, s.strings, s.maxDepth, returnsFloat⟩ := by
  unfold Checker.finish
  split
  · rename_i htypes
    simp [htypes]
  · rename_i type hne htypes
    have htype : type ≠ .string := hne
    simp [htypes, htype, eq_comm]
  · rename_i hne
    simp only [reduceCtorEq, false_iff, not_exists, not_and]
    intro type htypes
    exact absurd htypes (hne type)

namespace Script

variable {registry : Registry} {read : UInt64 → Option String} {words : List UInt64}
  {slotTags : List Nat} {script : Script}

/-- Code is accepted if its records and the types of its parameters can be read, its records
pass the check one after another, and checking ends well. -/
theorem check_eq_ok_iff : check registry read words slotTags = .ok script ↔
    ∃ first rest params s, Record.ofWords? words = some (first :: rest) ∧
      slotTags.mapM Ty.ofTag? = some params ∧
      Checker.steps registry read params.toArray .start (first.clearMark :: rest) = .ok s ∧
      s.finish first.returnsFloat = .ok script := by
  unfold check
  cases hwords : Record.ofWords? words with
  | none => simp
  | some records =>
      cases records with
      | nil => simp
      | cons first rest =>
          cases hparams : slotTags.mapM Ty.ofTag? with
          | none => simp
          | some params =>
              cases hsteps : Checker.steps registry read params.toArray .start
                  (first.clearMark :: rest) with
              | error fault => simp [hsteps]
              | ok s => simp [hsteps]

/-- The state of the checker after a number of records. -/
def checkedAfter (registry : Registry) (read : UInt64 → Option String) (words : List UInt64)
    (slotTags : List Nat) (count : Nat) : Option Checker := do
  let records ← Record.ofWords? words
  let params ← slotTags.mapM Ty.ofTag?
  (Checker.steps registry read params.toArray .start
    ((Record.unmarked records).take count)).toOption

/-- The stack after a number of instructions, unless one of them fails. -/
def stackAfter (script : Script) (read : UInt64 → Option String) (args : Array UInt64)
    (count : Nat) : Option (List Cell) :=
  exec script.strings read args [] (script.code.toList.take count)

/-! ## Running -/

variable {strings : Array String} {readArg : UInt64 → Option String} {args : Array UInt64}

@[simp]
theorem exec_append (stack : List Cell) (code code' : List Instruction) :
    exec strings readArg args stack (code ++ code') =
      (exec strings readArg args stack code).bind fun stack =>
        exec strings readArg args stack code' := by
  induction code generalizing stack with
  | nil => rfl
  | cons i code ih =>
      rw [List.cons_append, exec, exec]
      cases step strings readArg args stack i with
      | none => rfl
      | some stack' => exact ih stack'

theorem exec_concat (stack : List Cell) (code : List Instruction) (i : Instruction) :
    exec strings readArg args stack (code ++ [i]) =
      (exec strings readArg args stack code).bind fun stack => step strings readArg args stack i := by
  rw [exec_append]
  congr 1
  funext stack'
  rw [exec]
  cases step strings readArg args stack' i <;> rfl

/-- A run fails if and only if some instruction fails on the stack that it finds. -/
theorem exec_eq_none_iff (stack : List Cell) (code : List Instruction) :
    exec strings readArg args stack code = none ↔
      ∃ k stack' i, exec strings readArg args stack (code.take k) = some stack' ∧
        code[k]? = some i ∧ step strings readArg args stack' i = none := by
  induction code generalizing stack with
  | nil => simp [exec]
  | cons i code ih =>
      constructor
      · intro h
        rw [exec] at h
        cases hstep : step strings readArg args stack i with
        | none => exact ⟨0, stack, i, rfl, rfl, hstep⟩
        | some stack₁ =>
            rw [hstep] at h
            obtain ⟨k, stack', j, htake, hget, hfail⟩ := (ih stack₁).mp h
            refine ⟨k + 1, stack', j, ?_, hget, hfail⟩
            rw [List.take_succ_cons, exec, hstep]
            exact htake
      · rintro ⟨k, stack', j, htake, hget, hfail⟩
        rw [exec]
        cases k with
        | zero =>
            cases hget
            cases htake
            rw [hfail]
            rfl
        | succ k =>
            rw [List.take_succ_cons, exec] at htake
            obtain ⟨stack₁, hstep, hrest⟩ := Option.bind_eq_some_iff.mp htake
            rw [hstep]
            exact (ih stack₁).mpr ⟨k, stack', j, hrest, hget, hfail⟩

/-- The value of a word at a type has that type. -/
theorem ty_of_argumentCell? {word : UInt64} {type : Ty} {cell : Cell}
    (h : argumentCell? readArg word type = some cell) : cell.ty = type := by
  cases type with
  | bool | int | float => cases h; rfl
  | string =>
      obtain ⟨text, _, rfl⟩ := Option.map_eq_some_iff.mp h
      rfl

/-- Why an instruction fails on a stack: it reads an argument that is no text, or it applies a
primitive that cannot take texts where they are among the operands. -/
inductive Fails (readArg : UInt64 → Option String) (args : Array UInt64) (stack : List Cell) :
    Instruction → Prop
  | argument {index : Nat} (hread : readArg (args.getD index 0) = none) :
      Fails readArg args stack (.argument index .string)
  | apply {primitive : Primitive} {operands rest : List Cell}
      (hstack : stack = operands.reverse ++ rest) (hlength : operands.length = primitive.arity)
      (hshape : primitive.takes (operands.map Cell.isText) = false)
      (happly : primitive.apply operands = none) :
      Fails readArg args stack (.apply primitive)

/-- An instruction with a reason to fail does fail. -/
theorem Fails.step_eq_none {stack : List Cell} {i : Instruction} (h : Fails readArg args stack i) :
    step strings readArg args stack i = none := by
  cases h with
  | argument hread => simp only [step, argumentCell?, hread, Option.map_none]
  | apply hstack hlength hshape happly =>
      rw [hstack, step, Primitive.applyTop_append hlength, happly, Option.map_none]

end Script

/-- The number of values that an instruction takes off the stack. -/
def Instruction.operandCount : Instruction → Nat
  | .apply primitive => primitive.arity
  | _ => 0

/-- Whether an instruction refers only to parameters and texts that there are. -/
def Instruction.InRange (paramCount textCount : Nat) : Instruction → Prop
  | .argument index _ => index < paramCount
  | .text index => index < textCount
  | _ => True

/-! ## Checking and running in step -/

namespace Checker

variable {registry : Registry} {read readArg : UInt64 → Option String} {params : Array Ty}
  {s s' final : Checker} {r : Record} {i : Instruction} {strings : Array String}
  {args : Array UInt64} {stack stack' : List Cell}

/-- A stack that looks like a list of types has operands on top where the list has them. -/
theorem exists_operands_of_map_eq {α : Type} {f : Cell → α} {g : Ty → α}
    {operands rest : List Ty} (h : stack.map f = (operands.reverse ++ rest).map g) :
    ∃ cells below : List Cell, stack = cells.reverse ++ below ∧ cells.length = operands.length ∧
      cells.map f = operands.map g ∧ below.map f = rest.map g := by
  rw [List.map_append, List.map_reverse] at h
  obtain ⟨top, below, hstack, htop, hbelow⟩ := List.map_eq_append_iff.mp h
  have hcells : top.reverse.map f = operands.map g := by
    rw [List.map_reverse, htop, List.reverse_reverse]
  refine ⟨top.reverse, below, ?_, ?_, hcells, hbelow⟩
  · rw [List.reverse_reverse, hstack]
  · simpa using congrArg List.length hcells

/-- An instruction refers only to what there is when it is checked. -/
theorem Checks.inRange (h : Checks registry read params s r i s') :
    i.InRange params.size s'.strings.size := by
  cases h with
  | const | apply => exact trivial
  | text => simp [Instruction.InRange]
  | argument hparam => exact (Array.getElem?_eq_some_iff.mp hparam).1

/-- A text that has been kept is found where its instruction looks for it. -/
theorem getElem?_strings_of_prefix {text : String}
    (hkept : (s.strings.push text).toList <+: strings.toList) :
    strings[s.strings.size]? = some text := by
  obtain ⟨rest, hrest⟩ := hkept
  rw [← Array.getElem?_toList, ← hrest]
  simp

/-- Where the checker finds operands on its stack, so does the run. -/
theorem Checks.operandCount_le (h : Checks registry read params s r i s')
    (hshape : stack.map Cell.isText = s.types.map Ty.isText) :
    i.operandCount ≤ stack.length := by
  cases h with
  | const | text | argument => exact Nat.zero_le _
  | @apply op primitive operands rest hop hprimitive harity hlength htypes htakes =>
      have hcount : stack.length = operands.length + rest.length := by
        have := congrArg List.length hshape
        simpa [htypes] using this
      show primitive.arity ≤ stack.length
      omega

/-- A step of the run keeps texts where the checker has them. -/
theorem Checks.isText_of_step (h : Checks registry read params s r i s')
    (hshape : stack.map Cell.isText = s.types.map Ty.isText)
    (hstep : Script.step strings readArg args stack i = some stack') :
    stack'.map Cell.isText = s'.types.map Ty.isText := by
  have hcons {cell : Cell} {type : Ty} (hcell : cell.ty = type) :
      (cell :: stack).map Cell.isText = (type :: s.types).map Ty.isText := by
    rw [List.map_cons, List.map_cons, hshape, Cell.isText, hcell]
  cases h with
  | const type htype hcell =>
      cases hstep
      exact hcons (Script.ty_of_argumentCell? hcell)
  | text hread =>
      obtain ⟨text, _, rfl⟩ := Option.map_eq_some_iff.mp hstep
      exact hcons rfl
  | argument hparam =>
      obtain ⟨cell, hcell, rfl⟩ := Option.map_eq_some_iff.mp hstep
      exact hcons (Script.ty_of_argumentCell? hcell)
  | @apply op primitive operands rest hop hprimitive harity hlength htypes htakes =>
      rw [htypes] at hshape
      obtain ⟨cells, below, rfl, hcount, hcells, hbelow⟩ := exists_operands_of_map_eq hshape
      rw [hlength, ← harity] at hcount
      rw [Script.step, Primitive.applyTop_append hcount] at hstep
      obtain ⟨c, hc, rfl⟩ := Option.map_eq_some_iff.mp hstep
      -- Whatever the registry says the result is, neither it nor the primitive yields a text.
      have hresult : (op.result.resultType operands).isText = false := by
        simpa [Ty.isText] using op.result.resultType_ne_string operands
      rw [List.map_cons, hbelow, Primitive.isText_of_apply hc, types_push, List.map_cons, hresult]

/-- A step of the run fails only for the reasons in `Script.Fails`. -/
theorem Checks.fails_of_step (h : Checks registry read params s r i s')
    (hstrings : s'.strings.toList <+: strings.toList)
    (hshape : stack.map Cell.isText = s.types.map Ty.isText)
    (hstep : Script.step strings readArg args stack i = none) :
    Script.Fails readArg args stack i := by
  cases h with
  | const type htype hcell => cases hstep
  | text hread =>
      rw [Script.step, getElem?_strings_of_prefix hstrings] at hstep
      cases hstep
  | @argument index type hparam =>
      have hcell := Option.map_eq_none_iff.mp hstep
      cases type with
      | bool | int | float => cases hcell
      | string => exact .argument (Option.map_eq_none_iff.mp hcell)
  | @apply op primitive operands rest hop hprimitive harity hlength htypes htakes =>
      rw [htypes] at hshape
      obtain ⟨cells, below, rfl, hcount, hcells, hbelow⟩ := exists_operands_of_map_eq hshape
      rw [hlength, ← harity] at hcount
      rw [Script.step, Primitive.applyTop_append hcount] at hstep
      have happly := Option.map_eq_none_iff.mp hstep
      refine .apply rfl hcount ?_ happly
      -- A primitive computes on all operands of a shape that it takes.
      by_contra htakes
      obtain ⟨c, hc⟩ := Primitive.exists_apply_of_takes (Bool.not_eq_false _ ▸ htakes)
      rw [happly] at hc
      cases hc

/-- Every run of the checked code keeps texts where the checker has them. -/
theorem isText_of_exec {rs : List Record} (h : steps registry read params .start rs = .ok s)
    (hexec : Script.exec strings readArg args [] s.code.toList = some stack) :
    stack.map Cell.isText = s.types.map Ty.isText := by
  refine (steps_induction
    (P := fun _ s => ∀ stack, Script.exec strings readArg args [] s.code.toList = some stack →
      stack.map Cell.isText = s.types.map Ty.isText) rfl ?_ ?_ h).1 stack hexec
  · intro stack hexec
    cases hexec
    rfl
  · intro done s r i s' _ hinv hchecks stack' hexec
    rw [hchecks.code_eq, Array.toList_push, Script.exec_concat] at hexec
    obtain ⟨stack, hstack, hstep⟩ := Option.bind_eq_some_iff.mp hexec
    exact hchecks.isText_of_step (hinv stack hstack) hstep

/-- All checked instructions refer only to what there is. -/
theorem inRange_of_steps {rs : List Record} (h : steps registry read params .start rs = .ok s) :
    ∀ i ∈ s.code.toList, i.InRange params.size s.strings.size := by
  refine (steps_induction
    (P := fun _ s => ∀ i ∈ s.code.toList, i.InRange params.size s.strings.size) rfl ?_ ?_ h).1
  · intro i hi
    cases hi
  · intro done s r i s' _ hinv hchecks j hj
    rw [hchecks.code_eq, Array.toList_push, List.mem_append, List.mem_singleton] at hj
    rcases hj with hj | rfl
    -- Texts are only added, so that older instructions stay in range.
    · have hle : s.strings.size ≤ s'.strings.size := by
        simpa using hchecks.strings_prefix.length_le
      have hrange := hinv j hj
      cases j with
      | const | argument | apply => exact hrange
      | text index => exact lt_of_lt_of_le hrange hle
    · exact hchecks.inRange

/-- The state after some of the records is on the way to the last one. -/
theorem exists_steps_take {rs : List Record}
    (h : steps registry read params .start rs = .ok final) {k : Nat} (hk : k ≤ rs.length) :
    ∃ s, steps registry read params .start (rs.take k) = .ok s ∧
      s.code.toList = final.code.toList.take k ∧ Extends s final := by
  rw [← List.take_append_drop k rs] at h
  obtain ⟨s, hs, hrest⟩ := steps_append_eq_ok_iff.mp h
  obtain ⟨hdepth, _, hsize⟩ := counts_of_steps hs
  have hextends := extends_of_steps hdepth hrest
  refine ⟨s, hs, ?_, hextends⟩
  have htake := List.prefix_iff_eq_take.mp hextends.code
  rwa [Array.length_toList, hsize, List.length_take_of_le hk] at htake

/-- The step that checks the record at an index. -/
theorem exists_checks_of_lt {rs : List Record}
    (h : steps registry read params .start rs = .ok final) {k : Nat} (hk : k < rs.length) :
    ∃ s r i s', steps registry read params .start (rs.take k) = .ok s ∧
      Checks registry read params s r i s' ∧ final.code[k]? = some i ∧ Extends s' final := by
  obtain ⟨s', hs', hcode, hextends⟩ := exists_steps_take h (Nat.succ_le_of_lt hk)
  rw [List.take_succ_eq_append_getElem hk] at hs'
  obtain ⟨s, hs, hlast⟩ := steps_append_eq_ok_iff.mp hs'
  obtain ⟨t, hstep, hnil⟩ := steps_cons_eq_ok_iff.mp hlast
  cases hnil
  obtain ⟨hdepth, _, hsize⟩ := counts_of_steps hs
  obtain ⟨i, hchecks⟩ := (step_eq_ok_iff hdepth).mp hstep
  refine ⟨s, rs[k], i, s', hs, hchecks, ?_, hextends⟩
  have hk' : k < k + 1 := Nat.lt_succ_self k
  have hlast : s'.code.toList[k]? = some i := by
    rw [List.length_take_of_le (Nat.le_of_lt hk)] at hsize
    rw [hchecks.code_eq, Array.toList_push, List.getElem?_append_right (by simp [hsize])]
    simp [hsize]
  rw [hcode, List.getElem?_take_of_lt hk'] at hlast
  rw [← Array.getElem?_toList]
  exact hlast

end Checker

namespace Script

variable {registry : Registry} {read readArg : UInt64 → Option String} {words : List UInt64}
  {slotTags : List Nat} {script : Script} {args : Array UInt64}

/-- What accepted code has been through. -/
theorem exists_steps_of_check (h : check registry read words slotTags = .ok script) :
    ∃ (records : List Record) (params : List Ty) (final : Checker) (type : Ty),
      Record.ofWords? words = some records ∧ slotTags = params.map Ty.tag ∧
      Checker.steps registry read params.toArray .start (Record.unmarked records) = .ok final ∧
      final.types = [type] ∧ type ≠ .string ∧ script.code = final.code ∧
      script.strings = final.strings ∧ script.maxDepth = final.maxDepth := by
  obtain ⟨first, rest, params, final, hwords, hparams, hsteps, hfinish⟩ := check_eq_ok_iff.mp h
  obtain ⟨type, htypes, hne, rfl⟩ := Checker.finish_eq_ok_iff.mp hfinish
  exact ⟨first :: rest, params, final, type, hwords, Ty.mapM_ofTag?_eq_some_iff.mp hparams,
    hsteps, htypes, hne, rfl, rfl, rfl⟩

/-- The state of the checker after some records of code that can be read. -/
theorem checkedAfter_eq_some {records : List Record} {params : List Ty} {s : Checker} {k : Nat}
    (hwords : Record.ofWords? words = some records) (htags : slotTags = params.map Ty.tag)
    (hsteps : Checker.steps registry read params.toArray .start
      ((Record.unmarked records).take k) = .ok s) :
    checkedAfter registry read words slotTags k = some s := by
  have hparams := Ty.mapM_ofTag?_eq_some_iff.mpr htags
  simp [checkedAfter, hwords, hparams, hsteps, Except.toOption]

/-- The stack after all instructions is the one that a run ends with. -/
theorem stackAfter_size (script : Script) (readArg : UInt64 → Option String)
    (args : Array UInt64) :
    script.stackAfter readArg args script.code.size =
      exec script.strings readArg args [] script.code.toList := by
  rw [stackAfter, List.take_of_length_le (by simp)]

/-- Each number of records of accepted code leads to a state of the checker, which shows where
the stack of a run has texts and how high it is. -/
theorem exists_checkedAfter (h : check registry read words slotTags = .ok script) {k : Nat}
    (hk : k ≤ script.code.size) :
    ∃ s, checkedAfter registry read words slotTags k = some s ∧
      ∀ readArg args stack, script.stackAfter readArg args k = some stack →
        stack.map Cell.isText = s.types.map Ty.isText ∧ stack.length ≤ script.maxDepth := by
  obtain ⟨records, params, final, type, hwords, htags, hsteps, _, _, hcode, _, hmaxDepth⟩ :=
    exists_steps_of_check h
  rw [hcode, (Checker.counts_of_steps hsteps).2.2] at hk
  obtain ⟨s, hs, htake, hextends⟩ := Checker.exists_steps_take hsteps hk
  refine ⟨s, checkedAfter_eq_some hwords htags hs, ?_⟩
  intro readArg args stack hstack
  rw [stackAfter, hcode, ← htake] at hstack
  have hshape := Checker.isText_of_exec hs hstack
  have hcount : stack.length = s.types.length := by simpa using congrArg List.length hshape
  refine ⟨hshape, ?_⟩
  rw [hcount, hmaxDepth]
  exact (Checker.counts_of_steps hs).2.1.trans hextends.maxDepth

/-- Each instruction of accepted code comes from a step of the checker. -/
theorem exists_checks_of_getElem? (h : check registry read words slotTags = .ok script) {k : Nat}
    {i : Instruction} (hi : script.code[k]? = some i) :
    ∃ params s r s', checkedAfter registry read words slotTags k = some s ∧
      Checker.Checks registry read params s r i s' ∧
      s'.strings.toList <+: script.strings.toList := by
  obtain ⟨records, params, final, type, hwords, htags, hsteps, _, _, hcode, hstrings, _⟩ :=
    exists_steps_of_check h
  obtain ⟨hlt, _⟩ := Array.getElem?_eq_some_iff.mp hi
  rw [hcode, (Checker.counts_of_steps hsteps).2.2] at hlt
  obtain ⟨s, r, j, s', hs, hchecks, hj, hextends⟩ := Checker.exists_checks_of_lt hsteps hlt
  obtain rfl : i = j := by simpa [← hcode, hi] using hj
  exact ⟨params.toArray, s, r, s', checkedAfter_eq_some hwords htags hs, hchecks,
    hstrings ▸ hextends.strings⟩

/-- Accepted code leaves one value, which is not a text. -/
theorem eq_singleton_of_exec (h : check registry read words slotTags = .ok script)
    {stack : List Cell}
    (hexec : exec script.strings readArg args [] script.code.toList = some stack) :
    ∃ c, stack = [c] ∧ c.isText = false := by
  obtain ⟨records, params, final, type, _, _, hsteps, htypes, hne, hcode, _, _⟩ :=
    exists_steps_of_check h
  rw [hcode] at hexec
  have hshape := Checker.isText_of_exec hsteps hexec
  rw [htypes] at hshape
  obtain ⟨c, rfl⟩ := List.length_eq_one_iff.mp (by simpa using congrArg List.length hshape)
  refine ⟨c, rfl, ?_⟩
  simpa [Ty.isText, beq_eq_false_iff_ne.mpr hne] using hshape

/-- Accepted code has no result only if its instructions cannot all be carried out. -/
theorem run_eq_none_iff (h : check registry read words slotTags = .ok script) :
    script.run readArg args = none ↔
      exec script.strings readArg args [] script.code.toList = none := by
  rw [run, Option.bind_eq_none_iff]
  constructor
  · intro hnone
    by_contra hsome
    obtain ⟨stack, hexec⟩ := Option.ne_none_iff_exists'.mp hsome
    obtain ⟨c, rfl, hc⟩ := eq_singleton_of_exec h hexec
    obtain ⟨w, hw⟩ := Cell.exists_toWord? hc script.returnsFloat
    have := hnone [c] hexec
    simp [hw] at this
  · intro hnone stack hexec
    rw [hnone] at hexec
    cases hexec

/-! ## Safety for every registry -/

/-- Accepted code runs safely, whatever the registry and the arguments. All instructions refer
to parameters and texts that there are. After every number of instructions the stack has texts
exactly where the checker has them, is no higher than the checker says, and holds enough
operands for the next instruction. A run to the end leaves one value, which is not a text; and
a run has no result if and only if it comes to an argument that is no text or to a primitive
that cannot take the texts among its operands. -/
theorem run_safe_of_check (h : check registry read words slotTags = .ok script)
    (readArg : UInt64 → Option String) (args : Array UInt64) :
    (∀ i ∈ script.code.toList, i.InRange slotTags.length script.strings.size) ∧
    (∀ k ≤ script.code.size, ∃ s, checkedAfter registry read words slotTags k = some s ∧
      ∀ stack, script.stackAfter readArg args k = some stack →
        stack.map Cell.isText = s.types.map Ty.isText ∧ stack.length ≤ script.maxDepth ∧
        ∀ i, script.code[k]? = some i → i.operandCount ≤ stack.length) ∧
    (∀ stack, script.stackAfter readArg args script.code.size = some stack →
      ∃ c, stack = [c] ∧ c.isText = false) ∧
    (script.run readArg args = none ↔ ∃ k stack i, script.stackAfter readArg args k = some stack ∧
      script.code[k]? = some i ∧ Fails readArg args stack i) := by
  refine ⟨?_, ?_, ?_, ?_⟩
  -- What the instructions refer to.
  · obtain ⟨records, params, final, type, _, htags, hsteps, _, _, hcode, hstrings, _⟩ :=
      exists_steps_of_check h
    have hlength : slotTags.length = params.toArray.size := by simp [htags]
    rw [hlength, hcode, hstrings]
    exact Checker.inRange_of_steps hsteps
  -- The stack between instructions.
  · intro k hk
    obtain ⟨s, hs, hstack⟩ := exists_checkedAfter h hk
    refine ⟨s, hs, ?_⟩
    intro stack hafter
    obtain ⟨hshape, hheight⟩ := hstack readArg args stack hafter
    refine ⟨hshape, hheight, ?_⟩
    intro i hi
    obtain ⟨params, t, r, t', ht, hchecks, _⟩ := exists_checks_of_getElem? h hi
    obtain rfl : s = t := by simpa [hs] using ht
    exact hchecks.operandCount_le hshape
  · intro stack hstack
    rw [stackAfter_size] at hstack
    exact eq_singleton_of_exec h hstack
  -- The instruction at which a run stops has a reason to fail.
  · rw [run_eq_none_iff h, exec_eq_none_iff]
    simp only [Array.getElem?_toList]
    constructor
    · rintro ⟨k, stack, i, hstack, hi, hfail⟩
      obtain ⟨params, s, r, s', hs, hchecks, hstrings⟩ := exists_checks_of_getElem? h hi
      have hk := (Array.getElem?_eq_some_iff.mp hi).1
      obtain ⟨t, ht, hafter⟩ := exists_checkedAfter h (le_of_lt hk)
      obtain rfl : s = t := by simpa [hs] using ht
      obtain ⟨hshape, _⟩ := hafter readArg args stack hstack
      exact ⟨k, stack, i, hstack, hi, hchecks.fails_of_step hstrings hshape hfail⟩
    · rintro ⟨k, stack, i, hstack, hi, hfails⟩
      exact ⟨k, stack, i, hstack, hi, hfails.step_eq_none⟩

/-- An operator that asks for a text and negates it passes the check; its run fails at the
negation. -/
theorem run_safe_of_check_negated_text :
    check ⟨[(Operator.arithmetic "flip" 7 1 "neg" .promote).withHints (some [.string])], by decide⟩
        (TextPool.text? ⟨#["a"]⟩) [4, addressOf 0, 0, 7] [] =
      .ok ⟨#[.text 0, .apply (.unary .neg)], #["a"], 1, false⟩ ∧
    ∃ k stack i,
      stackAfter ⟨#[.text 0, .apply (.unary .neg)], #["a"], 1, false⟩ (fun _ => none) #[] k =
        some stack ∧
      (#[.text 0, .apply (.unary .neg)] : Array Instruction)[k]? = some i ∧
      Fails (fun _ => none) #[] stack i := by
  refine ⟨?accepted, (run_safe_of_check ?accepted (fun _ => none) #[]).2.2.2.mp ?failed⟩
  case accepted => decide +kernel
  case failed => decide +kernel

end Script

/-! ## Types with the built-in operators -/

namespace Checker

variable {read readArg : UInt64 → Option String} {params : Array Ty} {s s' : Checker} {r : Record}
  {i : Instruction} {strings : Array String} {args : Array UInt64} {stack : List Cell}

/-- Whether all arguments that code reads as texts are texts. -/
def ReadsTexts (readArg : UInt64 → Option String) (args : Array UInt64)
    (code : List Instruction) : Prop :=
  ∀ index, .argument index .string ∈ code → ∃ text, readArg (args.getD index 0) = some text

/-- With the built-in operators no step of the run fails, and each puts a value of the type on
the stack that the checker found. -/
theorem Checks.exists_step_builtin (h : Checks .builtin read params s r i s')
    (hstrings : s'.strings.toList <+: strings.toList) (htexts : ReadsTexts readArg args [i])
    (htypes : stack.map Cell.ty = s.types) :
    ∃ stack', Script.step strings readArg args stack i = some stack' ∧
      stack'.map Cell.ty = s'.types := by
  have hcons {cell : Cell} {type : Ty} (hcell : cell.ty = type) :
      (cell :: stack).map Cell.ty = type :: s.types := by
    rw [List.map_cons, htypes, hcell]
  cases h with
  | @const type word cell hne hcell =>
      exact ⟨cell :: stack, rfl, hcons (Script.ty_of_argumentCell? hcell)⟩
  | @text address text hread =>
      refine ⟨.str text :: stack, ?_, hcons rfl⟩
      rw [Script.step, getElem?_strings_of_prefix hstrings, Option.map_some]
  | @argument index type hparam =>
      have hcell : ∃ cell, Script.argumentCell? readArg (args.getD index.toNat 0) type =
          some cell := by
        cases type with
        | bool | int | float => exact ⟨_, rfl⟩
        | string =>
            obtain ⟨text, htext⟩ := htexts index.toNat (by simp)
            exact ⟨.str text, by rw [Script.argumentCell?, htext, Option.map_some]⟩
      obtain ⟨cell, hcell⟩ := hcell
      refine ⟨cell :: stack, ?_, hcons (Script.ty_of_argumentCell? hcell)⟩
      rw [Script.step, hcell, Option.map_some]
  | @apply op primitive operands rest hop hprimitive harity hlength htop htakes =>
      have hmap : stack.map Cell.ty = (operands.reverse ++ rest).map id := by
        rw [htypes, htop, List.map_id]
      obtain ⟨cells, below, rfl, hcount, hcells, hbelow⟩ := exists_operands_of_map_eq hmap
      rw [List.map_id] at hcells hbelow
      rw [hlength, ← harity] at hcount
      obtain ⟨c, hc, hty⟩ :=
        exists_apply_of_mem_builtin hop hprimitive hcount (hcells.symm ▸ htakes)
      refine ⟨c :: below, ?_, ?_⟩
      · rw [Script.step, Primitive.applyTop_append hcount, hc, Option.map_some]
      · rw [List.map_cons, hty, hcells, hbelow, types_push]

/-- With the built-in operators checked code runs without failing, on a stack of values that
have the types of the checker. -/
theorem exists_exec_builtin {rs : List Record} (h : steps .builtin read params .start rs = .ok s)
    (hstrings : s.strings.toList <+: strings.toList)
    (htexts : ReadsTexts readArg args s.code.toList) :
    ∃ stack, Script.exec strings readArg args [] s.code.toList = some stack ∧
      stack.map Cell.ty = s.types := by
  refine (steps_induction
    (P := fun _ s => s.strings.toList <+: strings.toList →
      ReadsTexts readArg args s.code.toList →
      ∃ stack, Script.exec strings readArg args [] s.code.toList = some stack ∧
        stack.map Cell.ty = s.types) rfl ?_ ?_ h).1 hstrings htexts
  · intro _ _
    exact ⟨[], rfl, rfl⟩
  · intro done s r i s' _ hinv hchecks hstrings htexts
    rw [hchecks.code_eq, Array.toList_push] at htexts ⊢
    have hbefore : ReadsTexts readArg args s.code.toList :=
      fun index hmem => htexts index (List.mem_append_left [i] hmem)
    have hlast : ReadsTexts readArg args [i] :=
      fun index hmem => htexts index (List.mem_append_right s.code.toList hmem)
    obtain ⟨stack, hexec, htypes⟩ := hinv (hchecks.strings_prefix.trans hstrings) hbefore
    obtain ⟨stack', hstep, htypes'⟩ := hchecks.exists_step_builtin hstrings hlast htypes
    exact ⟨stack', by rw [Script.exec_concat, hexec, Option.bind_some, hstep], htypes'⟩

end Checker

namespace Script

variable {read readArg : UInt64 → Option String} {words : List UInt64} {slotTags : List Nat}
  {script : Script} {args : Array UInt64}

/-- Code that is accepted with the built-in operators runs without failing, if the arguments
that it reads as texts are texts: after every number of instructions the stack holds values of
exactly the types that the checker has there, and there is a result in the end. -/
theorem run_typed_of_check_builtin (h : check .builtin read words slotTags = .ok script)
    (htexts : ∀ index, .argument index .string ∈ script.code.toList →
      ∃ text, readArg (args.getD index 0) = some text) :
    (∀ k ≤ script.code.size, ∃ s stack, checkedAfter .builtin read words slotTags k = some s ∧
      script.stackAfter readArg args k = some stack ∧ stack.map Cell.ty = s.types) ∧
    ∃ word, script.run readArg args = some word := by
  obtain ⟨records, params, final, type, hwords, htags, hsteps, _, _, hcode, hstrings, _⟩ :=
    exists_steps_of_check h
  have hstack : ∀ k ≤ script.code.size, ∃ s stack,
      checkedAfter .builtin read words slotTags k = some s ∧
      script.stackAfter readArg args k = some stack ∧ stack.map Cell.ty = s.types := by
    intro k hk
    rw [hcode, (Checker.counts_of_steps hsteps).2.2] at hk
    obtain ⟨s, hs, htake, hextends⟩ := Checker.exists_steps_take hsteps hk
    have hreads : Checker.ReadsTexts readArg args s.code.toList := by
      intro index hmem
      rw [htake, ← hcode] at hmem
      exact htexts index (List.mem_of_mem_take hmem)
    have hkept : s.strings.toList <+: script.strings.toList := hstrings ▸ hextends.strings
    obtain ⟨stack, hexec, htypes⟩ := Checker.exists_exec_builtin hs hkept hreads
    refine ⟨s, stack, checkedAfter_eq_some hwords htags hs, ?_, htypes⟩
    rw [stackAfter, hcode, ← htake, hexec]
  refine ⟨hstack, ?_⟩
  obtain ⟨s, stack, _, hexec, _⟩ := hstack script.code.size (le_refl _)
  rw [stackAfter_size] at hexec
  apply Option.ne_none_iff_exists'.mp
  rw [ne_eq, run_eq_none_iff h, hexec]
  simp

/-- Looking for a constant text in an argument passes the check, and its run has a result. -/
theorem run_typed_of_check_builtin_index :
    check .builtin (TextPool.text? ⟨#["b"]⟩) [5, 0, 4, addressOf 0, 0, 0x81] [4] =
      .ok ⟨#[.argument 0 .string, .text 0, .apply (.binary .textIndex)], #["b"], 2, false⟩ ∧
    ∃ word, run ⟨#[.argument 0 .string, .text 0, .apply (.binary .textIndex)], #["b"], 2, false⟩
      (fun _ => some "ab") #[1] = some word := by
  refine ⟨?accepted, (run_typed_of_check_builtin ?accepted ?texts).2⟩
  case accepted => decide +kernel
  case texts => exact fun _ _ => ⟨"ab", rfl⟩

end Script

end Formula
