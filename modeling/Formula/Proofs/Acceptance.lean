import Formula.Proofs.Term

/-!
# Accepted code

The checker accepts exactly the listings of well typed terms. A term that is well typed passes
the check, and the instructions made of it compute its value (`HasType.exists_computes`). In turn
every run of the checker has gone through the listings of well typed terms, one for each type on
its stack (`exists_forest_of_steps`).
-/

namespace Formula

namespace Record

/-- Whether the first record has the mark of code that yields a float. -/
def isMarked : List Record → Bool
  | [] => false
  | first :: _ => first.returnsFloat

/-- All texts that records refer to can be read. -/
def AreReadable (read : UInt64 → Option String) (records : List Record) : Prop :=
  ∀ r ∈ records, r.tag = 4 → ∃ text, read r.payload = some text

/-- The tags of kinds go up to five. -/
theorem tag_ofKind_le (kind : Kind) (word : UInt64) : (ofKind kind word).tag ≤ 5 := by
  cases kind <;> exact of_decide_eq_true rfl

/-- Only texts have the tag four. -/
theorem tag_ofKind_eq_four {kind : Kind} {word : UInt64} (h : (ofKind kind word).tag = 4) :
    kind = .string := by
  cases kind with
  | string => rfl
  | parenthesis | bool | int | float | symbol => exact absurd h (of_decide_eq_false rfl)

variable {read : UInt64 → Option String} {records : List Record}

/-- Records stay readable with one more that can be read. -/
theorem AreReadable.concat {r : Record} (h : AreReadable read records)
    (hr : r.tag = 4 → ∃ text, read r.payload = some text) : AreReadable read (records ++ [r]) := by
  intro r' hr' htag
  rcases List.mem_append.mp hr' with hr' | hr'
  · exact h r' hr' htag
  · obtain rfl := List.mem_singleton.mp hr'
    exact hr htag

/-- Records stay readable with one more that is no text. -/
theorem AreReadable.concat_ofKind {kind : Kind} (h : AreReadable read records)
    (hkind : kind ≠ .string) (word : UInt64) : AreReadable read (records ++ [ofKind kind word]) :=
  h.concat fun htag => absurd (tag_ofKind_eq_four htag) hkind

/-- Words can be read as records if their number is even. -/
theorem ofWords?_eq_some_iff {words : List UInt64} :
    ofWords? words = some records ↔ words.length % 2 = 0 ∧ pairWords words = records := by
  rw [ofWords?, Option.ite_none_right_eq_some, Option.some.injEq]

end Record

/-- The numbers from one to four stand for types. -/
theorem Ty.forall_tag_iff {slotTags : List Nat} :
    (∀ tag ∈ slotTags, 1 ≤ tag ∧ tag ≤ 4) ↔ ∃ params : List Ty, slotTags = params.map Ty.tag := by
  constructor
  · intro h
    induction slotTags with
    | nil => exact ⟨[], rfl⟩
    | cons n tags ih =>
        obtain ⟨params, hparams⟩ := ih fun tag htag => h tag (List.mem_cons_of_mem _ htag)
        obtain ⟨type, htype⟩ : ∃ type : Ty, n = type.tag := by
          obtain ⟨hlow, hhigh⟩ := h n List.mem_cons_self
          have hcases : n = 1 ∨ n = 2 ∨ n = 3 ∨ n = 4 := by omega
          rcases hcases with rfl | rfl | rfl | rfl
          · exact ⟨.bool, rfl⟩
          · exact ⟨.int, rfl⟩
          · exact ⟨.float, rfl⟩
          · exact ⟨.string, rfl⟩
        exact ⟨type :: params, by rw [htype, hparams, List.map_cons]⟩
  · rintro ⟨params, rfl⟩ tag htag
    obtain ⟨type, _, rfl⟩ := List.mem_map.mp htag
    cases type <;> decide

/-- The slots have the types that their numbers stand for. -/
theorem Ty.getElem?_toArray_eq_some_iff {slotTags : List Nat} {params : List Ty} {n : Nat}
    {type : Ty} (htags : slotTags = params.map Ty.tag) :
    params.toArray[n]? = some type ↔ slotTags[n]? = some type.tag := by
  rw [htags, List.getElem?_map, List.getElem?_toArray]
  cases params[n]? with
  | none => simp
  | some t =>
      have hinj : t.tag = type.tag → t = type := fun h => by
        have hread := Ty.ofTag?_tag t
        rw [h, Ty.ofTag?_tag] at hread
        exact (Option.some.inj hread).symm
      constructor
      · rintro ⟨⟩
        rfl
      · intro h
        rw [hinj (Option.some.inj h)]

namespace Term

/-! ## Well typed terms are accepted -/

/-- Between two states of the checker a term of a type has been checked, and the instructions
made of it put its value on the stack. -/
structure Computes (read : UInt64 → Option String) (t : Term) (type : Ty) (s s' : Checker) :
    Prop where
  types : s'.types = type :: s.types
  code : ∃ code, s'.code.toList = s.code.toList ++ code ∧
    ∀ (strings : Array String) (readArg : UInt64 → Option String) (args : Array UInt64)
      (stack : List Cell), s'.strings.toList <+: strings.toList →
      Script.exec strings readArg args stack code = (t.eval read readArg args).map (· :: stack)

variable {registry : Registry} {read : UInt64 → Option String} {slotTags : List Nat}
  {params : List Ty} {t : Term} {type : Ty} {s : Checker}

/-- A single instruction computes a term if it puts the value of the term on the stack. -/
theorem Computes.of_step {s' : Checker} {i : Instruction} (htypes : s'.types = type :: s.types)
    (hcode : s'.code = s.code.push i)
    (hstep : ∀ (strings : Array String) (readArg : UInt64 → Option String) (args : Array UInt64)
      (stack : List Cell), s'.strings.toList <+: strings.toList →
      Script.step strings readArg args stack i = (t.eval read readArg args).map (· :: stack)) :
    Computes read t type s s' := by
  refine ⟨htypes, [i], by rw [hcode, Array.toList_push], ?_⟩
  intro strings readArg args stack hstrings
  rw [← List.nil_append [i], Script.exec_concat]
  exact hstep strings readArg args stack hstrings

/-- Constants are accepted. -/
theorem exists_computes_constant (word : UInt64)
    (hread : Record.AreReadable read (constant type word).listing)
    (hs : s.depth = s.types.length) :
    ∃ s', Checker.steps registry read params.toArray s (constant type word).listing = .ok s' ∧
      Computes read (constant type word) type s s' := by
  have hconst {cell : Cell} (hne : type ≠ .string)
      (hcell : Script.argumentCell? read word type = some cell) :
      ∃ s', Checker.steps registry read params.toArray s (constant type word).listing = .ok s' ∧
        Computes read (constant type word) type s s' := by
    refine ⟨_, Checker.steps_singleton_of_checks hs (.const type hne hcell), ?_⟩
    refine .of_step rfl rfl ?_
    intro strings readArg args stack _
    rw [Script.step, eval, hcell, Option.map_some]
  cases type with
  | bool | int | float => exact hconst (by decide) rfl
  | string =>
      obtain ⟨text, htext⟩ : ∃ text, read word = some text :=
        hread (.ofKind .string word) (by simp [listing, Ty.kind]) rfl
      refine ⟨_, Checker.steps_singleton_of_checks hs (.text htext), ?_⟩
      refine .of_step rfl rfl ?_
      intro strings readArg args stack hstrings
      rw [Script.step, Checker.getElem?_strings_of_prefix hstrings, eval, Script.argumentCell?,
        htext]
      rfl

/-- Parameters are accepted. -/
theorem exists_computes_parameter {index : UInt64} (htags : slotTags = params.map Ty.tag)
    (hslot : slotTags[index.toNat]? = some type.tag) (hs : s.depth = s.types.length) :
    ∃ s', Checker.steps registry read params.toArray s (parameter index type).listing = .ok s' ∧
      Computes read (parameter index type) type s s' := by
  have hparam := (Ty.getElem?_toArray_eq_some_iff htags).mpr hslot
  refine ⟨_, Checker.steps_singleton_of_checks hs (.argument hparam), ?_⟩
  exact .of_step rfl rfl fun _ _ _ _ _ => rfl

/-- A well typed term passes the check from every state, and the instructions made of it put its
value on the stack. -/
theorem HasType.exists_computes (h : HasType registry slotTags t type)
    (htags : slotTags = params.map Ty.tag) (hread : Record.AreReadable read t.listing)
    (hs : s.depth = s.types.length) :
    ∃ s', Checker.steps registry read params.toArray s t.listing = .ok s' ∧
      Computes read t type s s' := by
  induction h generalizing s with
  | constant type word => exact exists_computes_constant word hread hs
  | parameter hslot => exact exists_computes_parameter htags hslot hs
  | @unary op primitive operand type hop hprimitive harity hcount hoperand htakes ih =>
      obtain ⟨s₁, hsteps, htypes, code, hcode, hexec⟩ :=
        ih (fun r hr => hread r (List.mem_append_left _ hr)) hs
      have hs₁ := Checker.depth_of_steps hs hsteps
      have htop : s₁.types = [type].reverse ++ s.types := htypes
      have hchecks : Checker.Checks registry read params.toArray s₁ _ _ _ :=
        .apply hop hprimitive harity (by rw [hcount]; rfl) htop htakes
      refine ⟨_, Checker.steps_append_eq_ok_iff.mpr
        ⟨s₁, hsteps, Checker.steps_singleton_of_checks hs₁ hchecks⟩, rfl,
        code ++ [.apply primitive], ?_, ?_⟩
      · rw [hchecks.code_eq, Array.toList_push, hcode, List.append_assoc]
      · intro strings readArg args stack hstrings
        rw [Script.exec_concat, hexec strings readArg args stack hstrings, eval]
        cases operand.eval read readArg args with
        | none => rfl
        | some x =>
            simp only [Option.map_some, Option.bind_eq_bind, Option.bind_some, Operator.apply,
              hprimitive]
            have hlength : [x].length = primitive.arity := (harity.trans hcount).symm
            exact Primitive.applyTop_append hlength stack
  | @binary op primitive left right type type' hop hprimitive harity hcount hleft hright htakes ihl
      ihr =>
      rw [listing] at hread
      -- The right operand is checked and computed on top of the left one.
      obtain ⟨s₁, hsteps₁, htypes₁, code₁, hcode₁, hexec₁⟩ :=
        ihl (fun r hr => hread r (by simp [hr])) hs
      have hs₁ := Checker.depth_of_steps hs hsteps₁
      obtain ⟨s₂, hsteps₂, htypes₂, code₂, hcode₂, hexec₂⟩ :=
        ihr (fun r hr => hread r (by simp [hr])) hs₁
      have hs₂ := Checker.depth_of_steps hs₁ hsteps₂
      have htop : s₂.types = [type, type'].reverse ++ s.types := by rw [htypes₂, htypes₁]; rfl
      have hchecks : Checker.Checks registry read params.toArray s₂ _ _ _ :=
        .apply hop hprimitive harity (by rw [hcount]; rfl) htop htakes
      refine ⟨_, Checker.steps_append_eq_ok_iff.mpr
        ⟨s₂, Checker.steps_append_eq_ok_iff.mpr ⟨s₁, hsteps₁, hsteps₂⟩,
          Checker.steps_singleton_of_checks hs₂ hchecks⟩, rfl,
        code₁ ++ code₂ ++ [.apply primitive], ?_, ?_⟩
      · rw [hchecks.code_eq, Array.toList_push, hcode₂, hcode₁]
        simp
      · intro strings readArg args stack hstrings
        have hstrings₁ : s₁.strings.toList <+: strings.toList :=
          (Checker.extends_of_steps hs₁ hsteps₂).strings.trans hstrings
        rw [Script.exec_concat, Script.exec_append, hexec₁ strings readArg args stack hstrings₁,
          eval]
        cases left.eval read readArg args with
        | none => rfl
        | some x =>
            rw [Option.map_some, Option.bind_some, hexec₂ strings readArg args _ hstrings]
            cases right.eval read readArg args with
            | none => rfl
            | some y =>
                simp only [Option.map_some, Option.bind_eq_bind, Option.bind_some, Operator.apply,
                  hprimitive]
                have hlength : [x, y].length = primitive.arity := (harity.trans hcount).symm
                exact Primitive.applyTop_append hlength stack

/-! ## Accepted code has a well typed term -/

/-- Checked records are the listings of well typed terms, one for each type on the stack. -/
theorem exists_forest_of_steps {records : List Record} (htags : slotTags = params.map Ty.tag)
    (h : Checker.steps registry read params.toArray .start records = .ok s) :
    ∃ forest : List Term, List.Forall₂ (HasType registry slotTags) forest s.types ∧
      forest.reverse.flatMap listing = records ∧ Record.AreReadable read records := by
  refine (Checker.steps_induction (P := fun done s => ∃ forest : List Term,
    List.Forall₂ (HasType registry slotTags) forest s.types ∧
      forest.reverse.flatMap listing = done ∧ Record.AreReadable read done)
    rfl ⟨[], .nil, rfl, fun _ hr => absurd hr List.not_mem_nil⟩ ?_ h).1
  rintro done s r i s' _ ⟨forest, htyped, hlisting, hread⟩ hchecks
  cases hchecks with
  | @const type word cell htype hcell =>
      refine ⟨.constant type word :: forest, .cons (.constant type word) htyped, ?_, ?_⟩
      · simp [hlisting, listing]
      · exact hread.concat_ofKind (by cases type <;> simp_all [Ty.kind]) word
  | @text address text htext =>
      refine ⟨.constant .string address :: forest, .cons (.constant .string address) htyped, ?_, ?_⟩
      · simp [hlisting, listing, Ty.kind]
      · exact hread.concat fun _ => ⟨text, htext⟩
  | @argument index type hparam =>
      have hslot := (Ty.getElem?_toArray_eq_some_iff htags).mp hparam
      refine ⟨.parameter index type :: forest, .cons (.parameter hslot) htyped, ?_, ?_⟩
      · simp [hlisting, listing]
      · exact hread.concat_ofKind (by decide) index
  | @apply op primitive operands rest hop hprimitive harity hlength htypes htakes =>
      -- The terms of the operands are the last of the forest and become one term.
      rcases registry.arity_eq hop with hcount | hcount
      · obtain ⟨type, rfl⟩ := List.length_eq_one_iff.mp (hlength.trans hcount)
        rw [htypes] at htyped
        obtain _ | ⟨ht, htyped⟩ := htyped
        rename_i t forest
        refine ⟨.unary op t :: forest,
          .cons (.unary hop hprimitive harity hcount ht htakes) htyped, ?_, ?_⟩
        · simp [← hlisting, listing]
        · exact hread.concat_ofKind (by decide) op.opcode
      · obtain ⟨type, type', rfl⟩ := List.length_eq_two.mp (hlength.trans hcount)
        rw [htypes] at htyped
        obtain _ | ⟨hright, _ | ⟨hleft, htyped⟩⟩ := htyped
        rename_i right left forest
        refine ⟨.binary op left right :: forest,
          .cons (.binary hop hprimitive harity hcount hleft hright htakes) htyped, ?_, ?_⟩
        · simp [← hlisting, listing]
        · exact hread.concat_ofKind (by decide) op.opcode

/-- A well typed term whose value is no text and whose listing is in the words of code. -/
structure Describes (registry : Registry) (words : List UInt64) (slotTags : List Nat)
    (t : Term) : Prop where
  listing : t.listing = Record.unmarked (Record.pairWords words)
  typed : ∃ type, HasType registry slotTags t type ∧ type ≠ .string

/-- Code has one term at most. -/
theorem Describes.unique {words : List UInt64} {t' : Term}
    (h : t.Describes registry words slotTags) (h' : t'.Describes registry words slotTags) :
    t = t' := by
  obtain ⟨type, htype, _⟩ := h.typed
  obtain ⟨type', htype', _⟩ := h'.typed
  exact eq_of_listing_eq htype.fits htype'.fits (h.listing.trans h'.listing.symm)

end Term

namespace Script

variable {registry : Registry} {read : UInt64 → Option String} {words : List UInt64}
  {slotTags : List Nat} {script : Script}

/-- Accepted code has a term, and its texts can be read. -/
theorem exists_describes_of_check (h : check registry read words slotTags = .ok script) :
    Record.AreReadable read (Record.unmarked (Record.pairWords words)) ∧
      ∃ t : Term, t.Describes registry words slotTags := by
  obtain ⟨records, params, final, type, hwords, htags, hsteps, htypes, hne, _⟩ :=
    exists_steps_of_check h
  obtain ⟨_, rfl⟩ := Record.ofWords?_eq_some_iff.mp hwords
  obtain ⟨forest, htyped, hlisting, hread⟩ := Term.exists_forest_of_steps htags hsteps
  rw [htypes] at htyped
  obtain _ | ⟨ht, _ | _⟩ := htyped
  rename_i t
  exact ⟨hread, t, by simpa using hlisting, type, ht, hne⟩

/-- Code is accepted if it has a term and its texts can be read. -/
theorem exists_check_of_describes {t : Term} (heven : words.length % 2 = 0)
    {params : List Ty} (htags : slotTags = params.map Ty.tag)
    (hread : Record.AreReadable read (Record.unmarked (Record.pairWords words)))
    (ht : t.Describes registry words slotTags) :
    ∃ script, check registry read words slotTags = .ok script := by
  obtain ⟨type, htype, hne⟩ := ht.typed
  have hwords := Record.ofWords?_eq_some_iff.mpr ⟨heven, rfl⟩
  rw [← ht.listing] at hread
  obtain ⟨s, hsteps, htypes, _⟩ := htype.exists_computes htags hread (s := .start) rfl
  rw [ht.listing] at hsteps
  cases hrecords : Record.pairWords words with
  | nil =>
      have hnil := ht.listing
      rw [hrecords] at hnil
      exact absurd hnil t.listing_ne_nil
  | cons first rest =>
      rw [hrecords] at hsteps hwords
      exact ⟨_, check_eq_ok_iff.mpr ⟨first, rest, params, s, hwords,
        Ty.mapM_ofTag?_eq_some_iff.mpr htags, hsteps,
        Checker.finish_eq_ok_iff.mpr ⟨type, htypes, hne, rfl⟩⟩⟩

/-- Accepted code computes the value of its term. -/
theorem run_eq_eval_of_describes (h : check registry read words slotTags = .ok script) {t : Term}
    (ht : t.Describes registry words slotTags)
    (readArg : UInt64 → Option String) (args : Array UInt64) :
    script.run readArg args = (t.eval read readArg args).bind
      (Cell.toWord? (Record.isMarked (Record.pairWords words))) := by
  have hread := (exists_describes_of_check h).1
  obtain ⟨first, rest, params, final, hwords, hparams, hsteps, hfinish⟩ := check_eq_ok_iff.mp h
  obtain ⟨_, hrecords⟩ := Record.ofWords?_eq_some_iff.mp hwords
  obtain ⟨_, _, _, rfl⟩ := Checker.finish_eq_ok_iff.mp hfinish
  obtain ⟨type, htype, _⟩ := ht.typed
  rw [← ht.listing] at hread
  obtain ⟨s, hs, _, code, hcode, hexec⟩ :=
    htype.exists_computes (Ty.mapM_ofTag?_eq_some_iff.mp hparams) hread (s := .start) rfl
  -- The checker takes the same way through the listing of the term.
  obtain rfl : s = final := by
    have hlisting : t.listing = first.clearMark :: rest := by rw [ht.listing, hrecords]; rfl
    rw [hlisting, hsteps] at hs
    cases hs
    rfl
  have hcode : s.code.toList = code := hcode
  rw [run, hcode, hexec s.strings readArg args [] (List.prefix_refl _), hrecords]
  cases t.eval read readArg args with
  | none => rfl
  | some c => rfl

/-- Code is accepted if and only if it is the listing of a well typed term: its words pair up to
at least one record, the slots have types, the tags are kinds but for the mark of the first
record, all texts can be read, and there is a term with these records whose value is no text.
There is only one such term, and running the code computes its value. -/
theorem check_ok_iff_listing (registry : Registry) (read : UInt64 → Option String)
    (words : List UInt64) (slotTags : List Nat) :
    ((∃ script, check registry read words slotTags = .ok script) ↔
      words.length % 2 = 0 ∧ words ≠ [] ∧ (∀ tag ∈ slotTags, 1 ≤ tag ∧ tag ≤ 4) ∧
      (∀ r ∈ Record.unmarked (Record.pairWords words), r.tag ≤ 5) ∧
      Record.AreReadable read (Record.unmarked (Record.pairWords words)) ∧
      ∃ t : Term, t.Describes registry words slotTags) ∧
    (∀ t t' : Term, t.Describes registry words slotTags →
      t'.Describes registry words slotTags → t = t') ∧
    ∀ (script : Script) (t : Term), check registry read words slotTags = .ok script →
      t.Describes registry words slotTags →
      ∀ readArg args, script.run readArg args = (t.eval read readArg args).bind
        (Cell.toWord? (Record.isMarked (Record.pairWords words))) := by
  refine ⟨⟨?_, ?_⟩, fun t t' => Term.Describes.unique,
    fun script t h ht readArg args => run_eq_eval_of_describes h ht readArg args⟩
  · rintro ⟨script, h⟩
    obtain ⟨hread, t, ht⟩ := exists_describes_of_check h
    obtain ⟨first, rest, params, _, hwords, hparams, _⟩ := check_eq_ok_iff.mp h
    obtain ⟨heven, hrecords⟩ := Record.ofWords?_eq_some_iff.mp hwords
    refine ⟨heven, ?_, Ty.forall_tag_iff.mpr ⟨params, Ty.mapM_ofTag?_eq_some_iff.mp hparams⟩, ?_,
      hread, t, ht⟩
    · rintro rfl
      cases hrecords
    · intro r hr
      rw [← ht.listing] at hr
      obtain ⟨kind, word, rfl⟩ := Term.eq_ofKind_of_mem_listing hr
      exact Record.tag_ofKind_le kind word
  · rintro ⟨heven, _, htags, _, hread, t, ht⟩
    obtain ⟨params, hparams⟩ := Ty.forall_tag_iff.mp htags
    exact exists_check_of_describes heven hparams hread ht

end Script

end Formula
