import Formula.Proofs.Soundness
import Formula.Proofs.StackDepth

/-!
# Failed compilations

Compiling an expression fails at the first node that is at fault (`Visit.Faults`), and not at all if
every node is sound (`Visit.IsSound`). What was compiled before a failure is kept. It is either
nothing or leaves more values on the stack than there were (`Draft.eq_or_depth_lt_of_emit`), so that
leftovers are never undone by what is appended later, and the checker does not accept them beside
an expression.
-/

namespace Formula

/-! ## Declarations of values -/

namespace Declarations

variable {symbols : Declarations} {name : String}

/-- Declarations of value kinds are valid. -/
theorem leastInvalid?_eq_none (h : ∀ symbol ∈ symbols, symbol.2.isValue = true) :
    symbols.leastInvalid? = none := by
  unfold leastInvalid?
  induction symbols with
  | nil => rfl
  | cons symbol symbols ih =>
      obtain ⟨hsymbol, hsymbols⟩ := List.forall_mem_cons.mp h
      rw [List.foldl_cons, if_pos hsymbol]
      exact ih hsymbols

/-- If all declarations are of value kinds, those that are declared have a type. -/
theorem lookup_typed_eq_none_iff (h : ∀ symbol ∈ symbols, symbol.2.isValue = true) :
    symbols.typed.lookup name = none ↔ ∀ kind, (name, kind) ∉ symbols := by
  rw [List.lookup_eq_none_iff]
  constructor
  · intro hnone kind hmem
    obtain ⟨type, htype⟩ := Option.isSome_iff_exists.mp (h _ hmem)
    have htyped : (name, type) ∈ symbols.typed :=
      List.mem_filterMap.mpr ⟨(name, kind), hmem, by simp [htype]⟩
    simpa using hnone _ htyped
  · rintro hnone ⟨other, type⟩ htyped
    obtain ⟨⟨_, kind⟩, hmem, hkind⟩ := List.mem_filterMap.mp htyped
    obtain ⟨_, -, hpair⟩ := Option.map_eq_some_iff.mp hkind
    obtain ⟨rfl, -⟩ := Prod.mk.inj hpair
    rw [bne_iff_ne]
    rintro rfl
    exact hnone kind hmem

end Declarations

/-! ## Nodes at fault -/

namespace Visit

/-- Nodes with nothing wrong: a form has an operator for the number of its operands, a symbol is
declared, a number can be read, and a text is not too large. -/
structure IsSound (registry : Registry) (symbols : Declarations) (v : Visit) : Prop where
  form : v.kind = .parenthesis → ∃ op, registry.resolve v.text v.count = some op
  symbol : v.kind = .symbol → ∃ kind, (v.text, kind) ∈ symbols
  int : v.kind = .int → ∃ bits, Literal.integer v.text.toList = .ok bits
  float : v.kind = .float → ∃ value, Literal.decimal? v.text.toList = some value
  string : v.kind = .string → v.text.utf8ByteSize < textSizeLimit

/-- What is wrong with a node, and the error that says so. -/
inductive Faults (registry : Registry) (symbols : Declarations) : Visit → CompileError → Prop
  | form {name : String} {count : Nat} (h : registry.resolve name count = none) :
      Faults registry symbols ⟨.parenthesis, name, count⟩ (.unknownOperator name count)
  | symbol {name : String} {count : Nat} (h : ∀ kind, (name, kind) ∉ symbols) :
      Faults registry symbols ⟨.symbol, name, count⟩ (.undeclaredSymbol name)
  | malformed {text : String} {count : Nat} (h : Literal.integer text.toList = .error .malformed) :
      Faults registry symbols ⟨.int, text, count⟩ (.invalidInteger text)
  | outOfRange {text : String} {count : Nat}
      (h : Literal.integer text.toList = .error .outOfRange) :
      Faults registry symbols ⟨.int, text, count⟩ (.integerOutOfRange text)
  | float {text : String} {count : Nat} (h : Literal.decimal? text.toList = none) :
      Faults registry symbols ⟨.float, text, count⟩ (.invalidFloat text)
  | string {text : String} {count : Nat} (h : textSizeLimit ≤ text.utf8ByteSize) :
      Faults registry symbols ⟨.string, text, count⟩ (.stringTooLarge text.utf8ByteSize)

variable {registry : Registry} {symbols : Declarations} {v : Visit} {fault : CompileError}

/-- A node is at fault with the error that the compiler stops with. -/
theorem fault?_eq_some_iff (h : ∀ symbol ∈ symbols, symbol.2.isValue = true) :
    v.fault? ⟨registry, symbols.typed⟩ = some fault ↔ Faults registry symbols v fault := by
  constructor
  · obtain ⟨kind, text, count⟩ := v
    intro hfault
    cases kind with
    | parenthesis =>
        obtain ⟨hnone, ⟨⟩⟩ := Option.ite_none_right_eq_some.mp hfault
        exact .form hnone
    | bool => cases hfault
    | int =>
        dsimp only [fault?] at hfault
        split at hfault <;> cases hfault
        · exact .malformed ‹_›
        · exact .outOfRange ‹_›
    | float =>
        obtain ⟨hnone, ⟨⟩⟩ := Option.ite_none_right_eq_some.mp hfault
        exact .float hnone
    | string =>
        obtain ⟨hsize, ⟨⟩⟩ := Option.ite_none_right_eq_some.mp hfault
        exact .string hsize
    | symbol =>
        obtain ⟨hnone, ⟨⟩⟩ := Option.ite_none_right_eq_some.mp hfault
        exact .symbol ((Declarations.lookup_typed_eq_none_iff h).mp hnone)
  · intro hfaults
    cases hfaults with
    | form hnone => simp [fault?, hnone]
    | malformed hint => simp [fault?, hint]
    | outOfRange hint => simp [fault?, hint]
    | float hnone => simp [fault?, hnone]
    | string hsize => simp [fault?, hsize]
    | symbol hnone => simp [fault?, (Declarations.lookup_typed_eq_none_iff h).mpr hnone]

/-- A node is sound if and only if it has no fault. -/
theorem isSound_iff : IsSound registry symbols v ↔ ∀ fault, ¬Faults registry symbols v fault := by
  constructor
  · intro hsound fault hfaults
    cases hfaults with
    | form hnone =>
        obtain ⟨op, hop⟩ := hsound.form rfl
        rw [hnone] at hop
        cases hop
    | malformed hint | outOfRange hint =>
        obtain ⟨bits, hbits⟩ := hsound.int rfl
        rw [hint] at hbits
        cases hbits
    | float hnone =>
        obtain ⟨value, hvalue⟩ := hsound.float rfl
        rw [hnone] at hvalue
        cases hvalue
    | string hsize => exact absurd (hsound.string rfl) (Nat.not_lt.mpr hsize)
    | symbol hnone =>
        obtain ⟨kind, hkind⟩ := hsound.symbol rfl
        exact hnone kind hkind
  · intro hnone
    obtain ⟨kind, text, count⟩ := v
    refine ⟨?_, ?_, ?_, ?_, ?_⟩ <;> rintro rfl
    · exact Option.ne_none_iff_exists'.mp fun h => hnone _ (.form h)
    · by_contra h
      exact hnone _ (.symbol (not_exists.mp h))
    · rcases hint : Literal.integer text.toList with (_ | _) | bits
      · exact absurd (.malformed hint) (hnone _)
      · exact absurd (.outOfRange hint) (hnone _)
      · exact ⟨bits, rfl⟩
    · exact Option.ne_none_iff_exists'.mp fun h => hnone _ (.float h)
    · exact Nat.lt_of_not_le fun h => hnone _ (.string h)

/-- A node is sound if and only if the compiler does not stop at it. -/
theorem fault?_eq_none_iff (h : ∀ symbol ∈ symbols, symbol.2.isValue = true) :
    v.fault? ⟨registry, symbols.typed⟩ = none ↔ IsSound registry symbols v := by
  simp only [Option.eq_none_iff_forall_ne_some, ne_eq, fault?_eq_some_iff h, isSound_iff]

end Visit

/-! ## The first fault -/

namespace Draft

/-- Compiling an expression fails with the first fault of its nodes. -/
theorem findSome?_visits (scope : Scope) (d : Draft) (e : Expr) :
    e.visits.findSome? (Visit.fault? scope) =
      match (emit scope d e).1 with
      | .error fault => some fault
      | .ok _ => none := by
  have hwalked := walked_emit scope e d
  generalize emit scope d e = result at hwalked
  cases hwalked with
  | done hsound => exact List.findSome?_eq_none_iff.mpr hsound
  | stopped before v after hvisits hsound hfault =>
      exact List.findSome?_eq_some_iff.mpr ⟨before, v, after, hvisits, hfault, hsound⟩

end Draft

namespace Program

variable {symbols : Declarations} {registry : Registry} {e : Expr} {fault : CompileError}

/-- If all symbols are declared with value kinds, compiling an expression finds the first fault of
its nodes. -/
theorem findSome?_visits (registry : Registry) (h : ∀ symbol ∈ symbols, symbol.2.isValue = true)
    (e : Expr) :
    e.visits.findSome? (Visit.fault? ⟨registry, symbols.typed⟩) =
      match compile e symbols registry with
      | .error fault => some fault
      | .ok _ => none := by
  rw [Draft.findSome?_visits _ .empty, compile, Scope.declare,
    Declarations.leastInvalid?_eq_none h]
  simp only [Builder.append, Builder.ofScope]
  rcases Draft.emit ⟨registry, symbols.typed⟩ .empty e with ⟨fault | type, d⟩ <;> rfl

/-- An expression compiles if and only if its nodes are sound. -/
theorem exists_compile_iff (h : ∀ symbol ∈ symbols, symbol.2.isValue = true) :
    (∃ p, compile e symbols registry = .ok p) ↔ ∀ v ∈ e.visits, v.IsSound registry symbols := by
  simp only [← Visit.fault?_eq_none_iff h]
  rw [← List.findSome?_eq_none_iff, findSome?_visits registry h]
  cases compile e symbols registry <;> simp

/-- An expression does not compile if and only if one of its nodes is at fault, and the error is
that of the first one. -/
theorem compile_eq_error_iff (h : ∀ symbol ∈ symbols, symbol.2.isValue = true) :
    compile e symbols registry = .error fault ↔
      ∃ before v after, e.visits = before ++ v :: after ∧
        (∀ u ∈ before, u.IsSound registry symbols) ∧ v.Faults registry symbols fault := by
  have hfirst : compile e symbols registry = .error fault ↔
      e.visits.findSome? (Visit.fault? ⟨registry, symbols.typed⟩) = some fault := by
    rw [findSome?_visits registry h]
    cases compile e symbols registry <;> simp
  rw [hfirst, List.findSome?_eq_some_iff]
  constructor
  · rintro ⟨before, v, after, hvisits, hv, hbefore⟩
    exact ⟨before, v, after, hvisits, fun u hu => (Visit.fault?_eq_none_iff h).mp (hbefore u hu),
      (Visit.fault?_eq_some_iff h).mp hv⟩
  · rintro ⟨before, v, after, hvisits, hbefore, hv⟩
    exact ⟨before, v, after, hvisits, (Visit.fault?_eq_some_iff h).mpr hv,
      fun u hu => (Visit.fault?_eq_none_iff h).mpr (hbefore u hu)⟩

end Program

/-! ## Leftovers -/

namespace Draft

variable {scope : Scope} {d d' : Draft} {e : Expr} {fault : CompileError} {type : Ty}
  {op : Operator}

/-- If an operand after the first fails, no fewer values are left. -/
theorem depth_le_of_emitRest (harity : op.arity = 2) {rest : List Expr}
    (ih : ∀ e ∈ rest, ∀ (d : Draft) fault d', emit scope d e = (.error fault, d') →
      d' = d ∨ d.depth < d'.depth)
    (h : emitRest scope op type d rest = (.error fault, d')) : d.depth ≤ d'.depth := by
  induction rest generalizing d type with
  | nil =>
      rw [emitRest] at h
      cases h
  | cons operand rest ihrest =>
      obtain ⟨hoperand, hrest⟩ := List.forall_mem_cons.mp ih
      rw [emitRest] at h
      rcases hemit : emit scope d operand with ⟨fault' | right, d₁⟩ <;> rw [hemit] at h
      · cases h
        rcases hoperand d _ _ hemit with rfl | hlt
        · exact Nat.le_refl _
        · exact Nat.le_of_lt hlt
      · have hle := ihrest hrest h
        have hdepth := (depth_of_emit hemit).1
        simp only [pushOperator, harity, hdepth] at hle
        omega

/-- What is compiled before a failure is nothing or leaves values on the stack. -/
theorem eq_or_depth_lt_of_emit (h : emit scope d e = (.error fault, d')) :
    d' = d ∨ d.depth < d'.depth := by
  induction e using Expr.induction generalizing d fault d' with
  | h kind text children ih =>
      cases kind with
      | parenthesis =>
          cases hresolve : scope.registry.resolve text children.length with
          | none =>
              rw [emit_form_of_unknown (.inl hresolve)] at h
              cases h
              exact .inl rfl
          | some op =>
              obtain ⟨hop, _, hcount⟩ := Registry.resolve_eq_some hresolve
              cases children with
              | nil =>
                  rw [emit_form_of_unknown (.inr rfl)] at h
                  cases h
                  exact .inl rfl
              | cons first rest =>
                  obtain ⟨hfirst, hrest⟩ := List.forall_mem_cons.mp ih
                  rw [emit_form_cons hresolve] at h
                  rcases hemit : emit scope d first with ⟨fault' | type, d₁⟩ <;> rw [hemit] at h
                  · cases h
                    exact hfirst hemit
                  · have hdepth := (depth_of_emit hemit).1
                    rw [List.length_cons] at hcount
                    right
                    -- The value of the first operand is there, and no failure takes it off again.
                    rcases Registry.arity_eq hop with harity | harity
                    · have hnil : rest = [] := List.length_eq_zero_iff.mp (by omega)
                      subst hnil
                      simp only [if_pos harity, emitRest] at h
                      cases h
                    · simp only [harity, if_neg (by decide : ¬(2 = 1))] at h
                      have hle := depth_le_of_emitRest harity
                        (fun e he d fault d' h => hrest e he h) h
                      omega
      | bool =>
          rw [emit, emitBool] at h
          cases h
      | int =>
          rw [emit, emitInteger] at h
          split at h <;> cases h <;> exact .inl rfl
      | float =>
          rw [emit, emitFloat] at h
          split at h <;> cases h
          exact .inl rfl
      | string =>
          rw [emit, emitText] at h
          split at h <;> cases h
          exact .inl rfl
      | symbol =>
          rw [emit, emitSymbol] at h
          split at h <;> cases h
          exact .inl rfl

/-- A step does not lower the greatest depth. -/
theorem Step.maxDepth_le (h : Step scope d d') : d.maxDepth ≤ d'.maxDepth := by
  cases h with
  | value | text => exact Nat.le_max_left _ _
  | symbol => simp
  | operator => exact Nat.le_refl _

/-- Compiling does not lower the greatest depth, also where it fails. -/
theorem maxDepth_le_emit (scope : Scope) (d : Draft) (e : Expr) :
    d.maxDepth ≤ (emit scope d e).2.maxDepth := by
  have hsteps := emit_steps scope e d
  generalize (emit scope d e).2 = d' at hsteps
  induction hsteps with
  | refl => exact Nat.le_refl _
  | tail _ hstep ih => exact ih.trans hstep.maxDepth_le

/-- Slots and their types are kept with the parameters. -/
theorem Extends.slots_prefix (h : Extends d d') :
    d.slots <+: d'.slots ∧ d.slotTypes <+: d'.slotTypes := by
  obtain ⟨more, hmore⟩ := h.params
  constructor
  · rw [slots_eq, slots_eq, ← hmore, List.zipIdx_append, List.map_append]
    exact List.prefix_append _ _
  · rw [slotTypes_eq, slotTypes_eq, ← hmore, List.map_append]
    exact List.prefix_append _ _

end Draft

namespace Builder

variable {b b' : Builder} {e : Expr} {fault : CompileError}

/-- What a builder keeps when an expression does not compile. -/
structure KeptByFailure (b b' : Builder) : Prop where
  code : b.draft.code.toList <+: b'.draft.code.toList
  slots : b.draft.slots <+: b'.draft.slots
  slotTypes : b.draft.slotTypes <+: b'.draft.slotTypes
  texts : b.draft.constants.texts.toList <+: b'.draft.constants.texts.toList
  result : b'.result = b.result
  isFinalized : b'.isFinalized = b.isFinalized
  depth : b.draft.depth ≤ b'.draft.depth
  maxDepth : b.draft.maxDepth ≤ b'.draft.maxDepth
  /-- If anything was compiled, there are more values on the stack. -/
  leftover : b'.draft.code ≠ b.draft.code → b.draft.depth < b'.draft.depth

/-- An expression that compiles next. -/
def Compiles (b : Builder) (e : Expr) : Prop :=
  ∃ type, (b.append e).1 = .ok type

/-- An expression that does not compile next, but of which something is compiled. -/
def FailsPartway (b : Builder) (e : Expr) : Prop :=
  (∃ fault, (b.append e).1 = .error fault) ∧ (b.append e).2.draft.code ≠ b.draft.code

/-- An expression that does not compile leaves a builder with more of everything, or as it was. -/
theorem keptByFailure_of_append (h : b.append e = (.error fault, b')) : KeptByFailure b b' := by
  cases hfinalized : b.isFinalized with
  | true =>
      rw [append_of_finalized hfinalized] at h
      cases h
      exact ⟨List.prefix_refl _, List.prefix_refl _, List.prefix_refl _, List.prefix_refl _, rfl,
        rfl, Nat.le_refl _, Nat.le_refl _, fun hne => absurd rfl hne⟩
  | false =>
      rw [append, if_neg (by simp [hfinalized])] at h
      rcases hemit : b.draft.emit b.scope e with ⟨fault' | type, d⟩ <;> rw [hemit] at h <;> cases h
      have hextends := Draft.extends_of_steps (Draft.emit_steps b.scope e b.draft)
      have hmaxDepth := Draft.maxDepth_le_emit b.scope b.draft e
      rw [hemit] at hextends hmaxDepth
      obtain ⟨hslots, hslotTypes⟩ := hextends.slots_prefix
      have hdepth := Draft.eq_or_depth_lt_of_emit hemit
      refine ⟨hextends.code, hslots, hslotTypes, hextends.texts, rfl, rfl, ?_, hmaxDepth, ?_⟩
      · rcases hdepth with rfl | hlt
        · exact Nat.le_refl _
        · exact Nat.le_of_lt hlt
      · intro hne
        exact hdepth.resolve_left fun hsame => hne (congrArg Draft.code hsame)

/-- An expression that compiles leaves one value more. -/
theorem depth_lt_of_compiles (h : b.Compiles e) :
    b.draft.depth < (b.append e).2.draft.depth := by
  obtain ⟨type, htype⟩ := h
  cases hfinalized : b.isFinalized with
  | true =>
      rw [append_of_finalized hfinalized] at htype
      cases htype
  | false =>
      obtain ⟨hresult, hdraft, _⟩ := append_of_open hfinalized e
      rw [hdraft, (Draft.depth_of_emit (Prod.ext (hresult.symm.trans htype) rfl)).1]
      exact Nat.lt_succ_self _

/-- An expression that compiles, or of which something is compiled, leaves more values. -/
theorem depth_lt_append (h : b.Compiles e ∨ b.FailsPartway e) :
    b.draft.depth < (b.append e).2.draft.depth := by
  rcases h with h | ⟨⟨fault, hfault⟩, hne⟩
  · exact depth_lt_of_compiles h
  · exact (keptByFailure_of_append (Prod.ext hfault rfl)).leftover hne

/-- No action takes values off the stack. -/
theorem depth_le_perform (b : Builder) (action : Action) :
    b.draft.depth ≤ (b.perform action).draft.depth := by
  cases action with
  | append e =>
      rcases happend : (b.append e).1 with fault | type
      · exact (keptByFailure_of_append (Prod.ext happend rfl)).depth
      · exact Nat.le_of_lt (depth_lt_of_compiles ⟨type, happend⟩)
  | finalize =>
      rw [perform]
      rcases draft_finalize b with hdraft | hdraft
      · rw [hdraft]
      · rw [hdraft]
        exact Nat.le_refl _

/-- No run takes values off the stack. -/
theorem depth_le_run (b : Builder) (actions : List Action) :
    b.draft.depth ≤ (b.run actions).draft.depth := by
  induction actions generalizing b with
  | nil => exact Nat.le_refl _
  | cons action actions ih => exact (depth_le_perform b action).trans (ih _)

/-- The values after some actions of a run are there after more of them. -/
theorem depth_run_take_le (b : Builder) (actions : List Action) {i j : Nat} (hij : i ≤ j) :
    (b.run (actions.take i)).draft.depth ≤ (b.run (actions.take j)).draft.depth := by
  have hsplit : actions.take j = actions.take i ++ (actions.take j).drop i := by
    have htake := (List.take_append_drop i (actions.take j)).symm
    rwa [List.take_take, Nat.min_eq_left hij] at htake
  rw [hsplit, run, run, List.foldl_append]
  exact depth_le_run _ _

/-- An expression of a run of which something is compiled leaves more values. -/
theorem depth_lt_run_take {actions : List Action} {i : Nat} (hi : actions[i]? = some (.append e))
    (h : (b.run (actions.take i)).Compiles e ∨ (b.run (actions.take i)).FailsPartway e) :
    (b.run (actions.take i)).draft.depth < (b.run (actions.take (i + 1))).draft.depth := by
  have hnext : b.run (actions.take (i + 1)) = ((b.run (actions.take i)).append e).2 := by
    rw [List.take_add_one, hi, run, List.foldl_append]
    rfl
  rw [hnext]
  exact depth_lt_append h

/-- Two expressions of a run of which something is compiled leave two values. -/
theorem two_le_depth_run {actions : List Action} {i j : Nat} {e' : Expr} (hij : i < j)
    (hi : actions[i]? = some (.append e)) (hj : actions[j]? = some (.append e'))
    (he : (b.run (actions.take i)).Compiles e ∨ (b.run (actions.take i)).FailsPartway e)
    (he' : (b.run (actions.take j)).Compiles e' ∨ (b.run (actions.take j)).FailsPartway e') :
    2 ≤ (b.run actions).draft.depth := by
  have hfirst := depth_lt_run_take hi he
  have hsecond := depth_lt_run_take hj he'
  have hbetween := depth_run_take_le b actions (show i + 1 ≤ j from hij)
  have hlast := depth_run_take_le b actions
    (show j + 1 ≤ actions.length from (List.getElem?_eq_some_iff.mp hj).1)
  rw [List.take_length] at hlast
  omega

end Builder

/-! ## Acceptance -/

/-- A record that passes the check has the effect on the height that it has in the registry. -/
theorem Checker.Checks.heightAfter? {registry : Registry} {read : UInt64 → Option String}
    {params : Array Ty} {s s' : Checker} {r : Record} {i : Instruction}
    (h : Checks registry read params s r i s') :
    registry.heightAfter? s.types.length r = some s'.types.length := by
  cases h with
  | const type => exact Registry.heightAfter?_ofKind (by cases type <;> decide) _ _
  | text => exact Registry.heightAfter?_ofKind (by decide) _ _
  | argument => exact Registry.heightAfter?_ofKind (by decide) _ _
  | @apply op primitive operands rest hop hprimitive harity hlength htypes htakes =>
      have hheight : s.types.length = op.arity + rest.length := by
        rw [htypes, List.length_append, List.length_reverse, hlength]
      have hafter : s.types.length + 1 - op.arity = rest.length + 1 := by omega
      rw [Registry.heightAfter?_apply hop (by omega), hafter]
      rfl

/-- Code that is accepted leaves one value. -/
theorem Script.height?_of_check {registry : Registry} {read : UInt64 → Option String}
    {records : List Record} {slotTags : List Nat} {script : Script}
    (h : check registry read (Record.toWords records) slotTags = .ok script) :
    registry.height? records = some 1 := by
  obtain ⟨first, rest, params, s, hrecords, -, hsteps, hfinish⟩ := check_eq_ok_iff.mp h
  rw [Record.ofWords?_toWords, Option.some.injEq] at hrecords
  obtain ⟨hheight, -⟩ := Checker.steps_induction
    (P := fun done s => registry.height? done = some s.types.length) rfl rfl
    (fun _ hdone hchecks => by
      rw [Registry.height?_concat, hdone, Option.bind_some, hchecks.heightAfter?]) hsteps
  obtain ⟨type, htypes, -⟩ := Checker.finish_eq_ok_iff.mp hfinish
  rw [hrecords, Registry.height?_cons_congr (Record.isOperator_clearMark first).symm rfl, hheight,
    htypes]
  rfl

/-- A builder that leaves two values or more makes a program that is not accepted. -/
theorem Builder.check_eq_error {scope : Scope} {actions : List Action}
    (h : 2 ≤ ((Builder.ofScope scope).run actions).draft.depth) (read : UInt64 → Option String) :
    ∃ fault, Script.check scope.registry read
      ((Builder.ofScope scope).run actions).toProgram.words
      ((Builder.ofScope scope).run actions).toProgram.slotTags = .error fault := by
  generalize hb : (Builder.ofScope scope).run actions = b at h ⊢
  have hbalanced : b.finalize.draft.Balanced scope.registry := by
    have hrun := Builder.run_keeps (b := Builder.ofScope scope) (fun e d hd => hd.emit e)
      (fun d hd => hd.mark) (Draft.balanced_empty scope.registry) (actions ++ [.finalize])
    rw [run, List.foldl_append] at hrun
    rw [← hb]
    exact hrun
  have hdepth : b.draft.depth ≤ b.finalize.draft.depth := depth_le_perform b .finalize
  rcases hcheck : Script.check scope.registry read b.toProgram.words b.toProgram.slotTags with
    fault | script
  · exact ⟨fault, rfl⟩
  · have hone := (Script.height?_of_check hcheck).symm.trans hbalanced.height
    rw [Option.some.injEq] at hone
    omega

/-- **Compiling fails at the first node that is at fault.** If all symbols are declared with value
kinds, an expression compiles if and only if all its nodes are sound, and otherwise the error is
that of the first one that is not, where a form comes before its operands and these from left to
right.

After a failure the code, the parameters and the texts are extended by what was compiled before it,
and there are more values on the stack if that was anything. So the program is not accepted if an
expression compiles beside another one that compiles or of which something was compiled. -/
theorem compile_fails_at_first_fault :
    (∀ (registry : Registry) (symbols : Declarations) (e : Expr),
      (∀ symbol ∈ symbols, symbol.2.isValue = true) →
      ((∃ p, Program.compile e symbols registry = .ok p) ↔
        ∀ v ∈ e.visits, v.IsSound registry symbols) ∧
      ∀ fault, Program.compile e symbols registry = .error fault ↔
        ∃ before v after, e.visits = before ++ v :: after ∧
          (∀ u ∈ before, u.IsSound registry symbols) ∧ v.Faults registry symbols fault) ∧
    (∀ (b b' : Builder) (e : Expr) (fault : CompileError), b.append e = (.error fault, b') →
      b.KeptByFailure b') ∧
    ∀ (scope : Scope) (actions : List Builder.Action) (i j : Nat) (e e' : Expr),
      let after k := (Builder.ofScope scope).run (actions.take k)
      let p := ((Builder.ofScope scope).run actions).toProgram
      i ≠ j → actions[i]? = some (.append e) → actions[j]? = some (.append e') →
      (after i).Compiles e → (after j).Compiles e' ∨ (after j).FailsPartway e' →
      ∀ read, ∃ rejection,
        Script.check scope.registry read p.words p.slotTags = .error rejection := by
  refine ⟨?_, fun _ _ _ _ => Builder.keptByFailure_of_append, ?_⟩
  · intro registry symbols e hsymbols
    exact ⟨Program.exists_compile_iff hsymbols, fun _ => Program.compile_eq_error_iff hsymbols⟩
  · intro scope actions i j e e' after p hij hi hj he he' read
    apply Builder.check_eq_error
    rcases Nat.lt_or_gt_of_ne hij with hlt | hlt
    · exact Builder.two_le_depth_run hlt hi hj (.inl he) he'
    · exact Builder.two_le_depth_run hlt hj hi he' (.inl he)

/-- A sum whose second operand is not declared leaves its first operand, and the program is not
accepted after another expression has compiled. -/
theorem compile_fails_at_first_fault_undeclared :
    let sum : Expr := .form "+" [.atom .int "1", .atom .symbol "y"]
    let actions : List Builder.Action := [.append sum, .append (.atom .float "0.5"), .finalize]
    let p := ((Builder.ofScope ⟨.builtin, [("x", .int)]⟩).run actions).toProgram
    Program.compile sum [("x", .int)] .builtin = .error (.undeclaredSymbol "y") ∧
    (Builder.ofScope ⟨.builtin, [("x", .int)]⟩).KeptByFailure
      ((Builder.ofScope ⟨.builtin, [("x", .int)]⟩).append sum).2 ∧
    ∀ read, ∃ rejection,
      Script.check .builtin read p.words p.slotTags = .error rejection := by
  intro sum actions p
  obtain ⟨hcompile, hkept, hrejected⟩ := compile_fails_at_first_fault
  have hsymbols : ∀ symbol ∈ [("x", Kind.int)], symbol.2.isValue = true := by decide
  have hbefore : ∀ u ∈ [⟨.parenthesis, "+", 2⟩, ⟨.int, "1", 0⟩],
      Visit.IsSound .builtin [("x", .int)] u := by
    intro u hu
    rw [← Visit.fault?_eq_none_iff hsymbols]
    revert u
    decide +kernel
  refine ⟨((hcompile .builtin _ sum hsymbols).2 _).mpr ⟨_, _, [], rfl, hbefore, .symbol ?_⟩,
    hkept _ _ sum (.undeclaredSymbol "y") (Prod.ext (by decide +kernel) rfl), ?_⟩
  · simp
  · refine hrejected ⟨.builtin, [("x", .int)]⟩ actions 1 0 _ sum (by decide) rfl rfl ?_ (.inr ?_)
    · exact ⟨.float, by decide +kernel⟩
    · exact ⟨⟨.undeclaredSymbol "y", by decide +kernel⟩, by decide +kernel⟩

end Formula
