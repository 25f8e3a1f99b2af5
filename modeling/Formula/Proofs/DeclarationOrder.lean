import Formula.Proofs.Finalization
import Formula.Proofs.Marshalling
import Formula.Proofs.Scanning
import Formula.Proofs.Slots

/-!
# The order of declarations

Symbols are declared in some order and parameters are listed in some order, and neither matters.
Among the declarations that are refused the one whose name comes first by its bytes is reported
(`Declarations.IsLeastInvalid`), wherever it stands. If none is refused, then symbols are only ever
looked up by their names, so that scopes which find the same under every name (`Scope.Agrees`) make
the same programs. A program's slots have different numbers, so that every way of sorting them lists
the same names (`Program.slotNames_of_perm`).

Names are compared by their characters. This is the order of their bytes, since UTF-8 writes a
character as a number in base 64 behind a first byte that grows with the length
(`Text.utf8EncodeChar_append_lt`).
-/

namespace Formula

/-! ## The order of bytes -/

namespace Text

variable {limit : Nat} {cs cs' : List Char}

/-- Encodings of numbers below a limit that are ordered as the numbers are, whatever follows. -/
def Increases (f : Nat → List UInt8) (limit : Nat) : Prop :=
  ∀ ⦃n n' : Nat⦄, n < n' → n' < limit → ∀ bs bs' : List UInt8, f n ++ bs < f n' ++ bs'

/-- A byte comes before a greater one, whatever follows. -/
theorem ofNat_cons_lt_ofNat_cons {n n' : Nat} (h : n < n') (hbyte : n' < 256)
    (bs bs' : List UInt8) : UInt8.ofNat n :: bs < UInt8.ofNat n' :: bs' := by
  refine List.cons_lt_cons_iff.mpr (.inl ?_)
  rw [UInt8.lt_iff_toNat_lt, UInt8.toNat_ofNat_of_lt' hbyte,
    UInt8.toNat_ofNat_of_lt' (h.trans hbyte)]
  exact h

/-- First bytes are ordered as the numbers in them. -/
theorem increases_first {start : Nat} (h : limit + start ≤ 256) :
    Increases (fun n => [UInt8.ofNat (n % limit + start)]) limit := by
  intro n n' hlt hlimit bs bs'
  have hn : n % limit = n := Nat.mod_eq_of_lt (hlt.trans hlimit)
  have hn' : n' % limit = n' := Nat.mod_eq_of_lt hlimit
  show UInt8.ofNat (n % limit + start) :: bs < UInt8.ofNat (n' % limit + start) :: bs'
  rw [hn, hn']
  exact ofNat_cons_lt_ofNat_cons (by omega) (by omega) bs bs'

/-- A further byte holds a further digit in base 64. -/
theorem Increases.next {f : Nat → List UInt8} (hf : Increases f limit) :
    Increases (fun n => f (n / 64) ++ [UInt8.ofNat (n % 64 + 128)]) (limit * 64) := by
  intro n n' hlt hlimit bs bs'
  simp only [List.append_assoc, List.singleton_append]
  rcases Nat.lt_or_ge (n / 64) (n' / 64) with hdigits | hdigits
  · exact hf hdigits (by omega) _ _
  · have hsame : n / 64 = n' / 64 := by omega
    rw [hsame]
    exact List.append_left_lt (ofNat_cons_lt_ofNat_cons (by omega) (by omega) bs bs')

/-- The bytes of characters are ordered as the characters are, whatever follows. -/
theorem utf8EncodeChar_append_lt {c c' : Char} (h : c < c') (bs bs' : List UInt8) :
    String.utf8EncodeChar c ++ bs < String.utf8EncodeChar c' ++ bs' := by
  have hlt : c.val.toNat < c'.val.toNat := h
  have hbound : c'.val.toNat < 0x110000 := by
    rcases c'.valid with hsmall | ⟨_, hlarge⟩ <;> omega
  have htwo : Increases _ 2048 := (increases_first (by decide : 32 + 192 ≤ 256)).next
  have hthree : Increases _ 65536 := (increases_first (by decide : 16 + 224 ≤ 256)).next.next
  have hfour : Increases _ 2097152 := (increases_first (by decide : 8 + 240 ≤ 256)).next.next.next
  simp only [Nat.div_div_eq_div_mul, List.cons_append, List.nil_append] at htwo hthree hfour
  unfold String.utf8EncodeChar
  dsimp only
  -- Characters with as many bytes differ in a digit, and others in their first byte.
  split
  · split
    · exact ofNat_cons_lt_ofNat_cons hlt (by omega) bs bs'
    · split
      · exact ofNat_cons_lt_ofNat_cons (by omega) (by omega) _ _
      · split <;> exact ofNat_cons_lt_ofNat_cons (by omega) (by omega) _ _
  · rw [if_neg (by omega : ¬c'.val.toNat ≤ 127)]
    split
    · split
      · exact htwo hlt (by omega) bs bs'
      · split <;> exact ofNat_cons_lt_ofNat_cons (by omega) (by omega) _ _
    · rw [if_neg (by omega : ¬c'.val.toNat ≤ 2047)]
      split
      · split
        · exact hthree hlt (by omega) bs bs'
        · exact ofNat_cons_lt_ofNat_cons (by omega) (by omega) _ _
      · rw [if_neg (by omega : ¬c'.val.toNat ≤ 65535)]
        exact hfour hlt (by omega) bs bs'

/-- The bytes of runs of characters are ordered as the runs are. -/
theorem bytes_lt_bytes (h : cs < cs') : bytes cs < bytes cs' := by
  induction h with
  | @nil c cs =>
      rw [bytes_cons]
      cases hbytes : String.utf8EncodeChar c with
      | nil => exact absurd hbytes String.utf8EncodeChar_ne_nil
      | cons b bs => exact .nil
  | @cons c cs cs' _ ih =>
      rw [bytes_cons, bytes_cons]
      exact List.append_left_lt ih
  | @rel c cs c' cs' hc =>
      rw [bytes_cons, bytes_cons]
      exact utf8EncodeChar_append_lt hc _ _

/-- The bytes of a text in UTF-8. -/
def utf8 (text : String) : List UInt8 :=
  text.toByteArray.data.toList

/-- The bytes of texts are ordered as the texts are. -/
theorem utf8_lt_utf8 {text text' : String} (h : text < text') : utf8 text < utf8 text' := by
  have hutf8 (text : String) : utf8 text = bytes text.toList := by
    rw [utf8, ← String.utf8Encode_toList, List.utf8Encode, List.data_toByteArray]
    rfl
  rw [hutf8, hutf8]
  exact bytes_lt_bytes h

end Text

/-! ## Refused declarations -/

namespace Declarations

variable {symbols symbols' : Declarations} {symbol symbol' : String × Kind}

/-- Among the declarations whose kinds write no values, the one whose name comes first by its
bytes. -/
structure IsLeastInvalid (symbols : Declarations) (symbol : String × Kind) : Prop where
  mem : symbol ∈ symbols
  kind : symbol.2.isValue = false
  least : ∀ other ∈ symbols, other.2.isValue = false →
    other = symbol ∨ Text.utf8 symbol.1 < Text.utf8 other.1

/-- Only one declaration is first. -/
theorem IsLeastInvalid.unique (h : symbols.IsLeastInvalid symbol)
    (h' : symbols.IsLeastInvalid symbol') : symbol' = symbol := by
  rcases h.least symbol' h'.mem h'.kind with heq | hlt
  · exact heq
  · rcases h'.least symbol h.mem h.kind with heq | hlt'
    · exact heq.symm
    · exact absurd hlt' (List.lt_asymm hlt)

/-- Only the declarations whose kinds write no values matter. -/
theorem IsLeastInvalid.congr (h : symbols.IsLeastInvalid symbol)
    (hsame : ∀ other : String × Kind, other.2.isValue = false →
      (other ∈ symbols' ↔ other ∈ symbols)) :
    symbols'.IsLeastInvalid symbol where
  mem := (hsame symbol h.kind).mpr h.mem
  kind := h.kind
  least other hother hkind := h.least other ((hsame other hkind).mp hother) hkind

/-- One more declaration is to be compared with the first one. -/
theorem isLeastInvalid_concat {last : String × Kind} (hmem : symbol ∈ symbols ++ [last])
    (hkind : symbol.2.isValue = false)
    (hleast : ∀ other ∈ symbols, other.2.isValue = false →
      other = symbol ∨ Text.utf8 symbol.1 < Text.utf8 other.1)
    (hlast : last = symbol ∨ Text.utf8 symbol.1 < Text.utf8 last.1) :
    IsLeastInvalid (symbols ++ [last]) symbol := by
  refine ⟨hmem, hkind, fun other hother hinvalid => ?_⟩
  rcases List.mem_append.mp hother with hother | hother
  · exact hleast other hother hinvalid
  · rwa [List.mem_singleton.mp hother]

/-- The first one among the declarations and one more under another name. -/
theorem IsLeastInvalid.concat {last : String × Kind} (h : symbols.IsLeastInvalid symbol)
    (hkind : last.2.isValue = false) (hne : symbol.1 ≠ last.1) :
    IsLeastInvalid (symbols ++ [last]) (if last.1 < symbol.1 then last else symbol) := by
  by_cases hlt : last.1 < symbol.1
  · rw [if_pos hlt]
    refine isLeastInvalid_concat (by simp) hkind (fun other hother hinvalid => ?_) (.inl rfl)
    rcases h.least other hother hinvalid with rfl | hafter
    · exact .inr (Text.utf8_lt_utf8 hlt)
    · exact .inr (List.lt_trans (Text.utf8_lt_utf8 hlt) hafter)
  · rw [if_neg hlt]
    have hafter : symbol.1 < last.1 := Std.lt_of_le_of_ne (String.not_lt.mp hlt) hne
    exact isLeastInvalid_concat (List.mem_append_left _ h.mem) h.kind h.least
      (.inr (Text.utf8_lt_utf8 hafter))

/-- A declaration is passed over if its kind writes values. -/
theorem leastInvalid?_concat_of_isValue (hkind : symbol.2.isValue = true) :
    leastInvalid? (symbols ++ [symbol]) = symbols.leastInvalid? := by
  rw [leastInvalid?, List.foldl_concat, if_pos hkind, leastInvalid?]

/-- Otherwise it is compared with the least one so far. -/
theorem leastInvalid?_concat_of_not_isValue (hkind : symbol.2.isValue = false) :
    leastInvalid? (symbols ++ [symbol]) =
      some (symbols.leastInvalid?.elim symbol fun least =>
        if symbol.1 < least.1 then symbol else least) := by
  have hinvalid : ¬symbol.2.isValue = true := by simp [hkind]
  rw [leastInvalid?, List.foldl_concat, if_neg hinvalid, ← leastInvalid?]
  cases symbols.leastInvalid? with
  | none => rfl
  | some least => exact (apply_ite some _ symbol least).symm

/-- What the search for the least refused name finds. -/
theorem leastInvalid?_cases (hnames : (symbols.map Prod.fst).Nodup) :
    (symbols.leastInvalid? = none ∧ ∀ symbol ∈ symbols, symbol.2.isValue = true) ∨
      ∃ symbol, symbols.leastInvalid? = some symbol ∧ symbols.IsLeastInvalid symbol := by
  -- The search goes through the declarations from left to right, so they are added at the end.
  induction symbols using List.reverseRecOn with
  | nil => exact .inl ⟨rfl, by simp⟩
  | append_singleton symbols last ih =>
      rw [List.map_append, List.map_singleton, List.nodup_append] at hnames
      obtain ⟨hnodup, -, hfresh⟩ := hnames
      cases hkind : last.2.isValue with
      | true =>
          rw [leastInvalid?_concat_of_isValue hkind]
          refine (ih hnodup).imp ?_ ?_
          · rintro ⟨hnone, hvalid⟩
            exact ⟨hnone, List.forall_mem_append.mpr ⟨hvalid, by simpa using hkind⟩⟩
          · rintro ⟨least, hsome, hleast⟩
            refine ⟨least, hsome, hleast.congr fun other hinvalid => ?_⟩
            have hne : other ≠ last := by
              rintro rfl
              rw [hkind] at hinvalid
              cases hinvalid
            simp [hne]
      | false =>
          refine .inr ⟨_, leastInvalid?_concat_of_not_isValue hkind, ?_⟩
          rcases ih hnodup with ⟨hnone, hvalid⟩ | ⟨least, hsome, hleast⟩
          · rw [hnone]
            refine isLeastInvalid_concat (by simp) hkind ?_ (.inl rfl)
            intro other hother hinvalid
            rw [hvalid other hother] at hinvalid
            cases hinvalid
          · rw [hsome]
            exact hleast.concat hkind
              (hfresh _ (List.mem_map_of_mem hleast.mem) _ (List.mem_singleton.mpr rfl))

/-- A declaration is reported as the least one if it is that. -/
theorem leastInvalid?_eq_some_iff (hnames : (symbols.map Prod.fst).Nodup) :
    symbols.leastInvalid? = some symbol ↔ symbols.IsLeastInvalid symbol := by
  rcases leastInvalid?_cases hnames with ⟨hnone, hvalid⟩ | ⟨least, hsome, hleast⟩
  · rw [hnone]
    constructor
    · rintro ⟨⟩
    · intro h
      have hkind := hvalid symbol h.mem
      rw [h.kind] at hkind
      cases hkind
  · rw [hsome]
    constructor
    · rintro ⟨⟩
      exact hleast
    · intro h
      rw [hleast.unique h]

/-- The names that are declared with types are among those that are declared. -/
theorem sublist_typed (symbols : Declarations) :
    (symbols.typed.map Prod.fst).Sublist (symbols.map Prod.fst) := by
  induction symbols with
  | nil => exact .slnil
  | cons symbol symbols ih =>
      rw [typed, List.filterMap_cons, List.map_cons]
      cases symbol.2.ty? with
      | none => exact ih.cons _
      | some type => exact ih.cons_cons _

/-- Symbols have their types in whatever order they are declared. -/
theorem lookup_typed_of_perm (horder : symbols.Perm symbols')
    (hnames : (symbols.map Prod.fst).Nodup) (name : String) :
    symbols'.typed.lookup name = symbols.typed.lookup name :=
  Function.lookup_of_perm (horder.filterMap _) (hnames.sublist symbols.sublist_typed) name

end Declarations

/-! ## Scopes -/

namespace Scope

variable {scope scope' : Scope} {registry : Registry} {symbols symbols' : Declarations}
  {fault : CompileError}

/-- Scopes with the same operators and the same types of symbols, in whatever order these are
kept. -/
structure Agrees (scope scope' : Scope) : Prop where
  registry : scope'.registry = scope.registry
  symbols : ∀ name, scope'.symbols.lookup name = scope.symbols.lookup name

/-- Declarations are refused for the least of those whose kinds write no values. -/
theorem declare_eq_error_iff (hnames : (symbols.map Prod.fst).Nodup) :
    declare registry symbols = .error fault ↔
      ∃ name kind, fault = .invalidSymbolKind name kind ∧ symbols.IsLeastInvalid (name, kind) := by
  simp only [← Declarations.leastInvalid?_eq_some_iff hnames]
  rw [declare]
  rcases symbols.leastInvalid? with - | ⟨name, kind⟩
  · simp
  · simp [eq_comm]

/-- Declarations are accepted if their kinds write values. -/
theorem declare_eq_ok_iff (hnames : (symbols.map Prod.fst).Nodup) :
    declare registry symbols = .ok scope ↔
      (∀ symbol ∈ symbols, symbol.2.isValue = true) ∧ scope = ⟨registry, symbols.typed⟩ := by
  rw [declare]
  rcases Declarations.leastInvalid?_cases hnames with ⟨hnone, hvalid⟩ | ⟨least, hsome, hleast⟩
  · rw [hnone]
    constructor
    · rintro ⟨⟩
      exact ⟨hvalid, rfl⟩
    · rintro ⟨-, rfl⟩
      rfl
  · rw [hsome]
    constructor
    · rintro ⟨⟩
    · rintro ⟨hvalid, -⟩
      have hkind := hvalid least hleast.mem
      rw [hleast.kind] at hkind
      cases hkind

/-- The refusal depends on nothing but the declarations whose kinds write no values. -/
theorem declare_eq_error_congr (hnames : (symbols.map Prod.fst).Nodup)
    (hnames' : (symbols'.map Prod.fst).Nodup)
    (hsame : ∀ symbol : String × Kind, symbol.2.isValue = false →
      (symbol ∈ symbols' ↔ symbol ∈ symbols)) :
    declare registry symbols' = .error fault ↔ declare registry symbols = .error fault := by
  rw [declare_eq_error_iff hnames, declare_eq_error_iff hnames']
  constructor
  · rintro ⟨name, kind, hfault, hleast⟩
    exact ⟨name, kind, hfault, hleast.congr fun symbol hkind => (hsame symbol hkind).symm⟩
  · rintro ⟨name, kind, hfault, hleast⟩
    exact ⟨name, kind, hfault, hleast.congr hsame⟩

/-- Declarations in another order are accepted alike. -/
theorem exists_declare_of_perm (hnames : (symbols.map Prod.fst).Nodup)
    (horder : symbols.Perm symbols') (h : declare registry symbols = .ok scope) :
    ∃ scope', declare registry symbols' = .ok scope' ∧ scope.Agrees scope' := by
  obtain ⟨hvalid, rfl⟩ := (declare_eq_ok_iff hnames).mp h
  have hnames' := (horder.map Prod.fst).nodup_iff.mp hnames
  refine ⟨⟨registry, symbols'.typed⟩, (declare_eq_ok_iff hnames').mpr ⟨?_, rfl⟩, rfl, ?_⟩
  · exact fun symbol hsymbol => hvalid symbol (horder.mem_iff.mpr hsymbol)
  · exact Declarations.lookup_typed_of_perm horder hnames

end Scope

/-! ## Compiling -/

namespace Draft

variable {scope scope' : Scope} {op : Operator}

/-- Operands that compile alike in two scopes do so one after another. -/
theorem emitRest_of_agrees {rest : List Expr}
    (hrest : ∀ e ∈ rest, ∀ d : Draft, emit scope' d e = emit scope d e) (type : Ty) (d : Draft) :
    emitRest scope' op type d rest = emitRest scope op type d rest := by
  induction rest generalizing type d with
  | nil => rfl
  | cons operand rest ih =>
      obtain ⟨hoperand, hrest⟩ := List.forall_mem_cons.mp hrest
      rw [emitRest, emitRest, hoperand]
      rcases emit scope d operand with ⟨fault | right, d₁⟩
      · rfl
      · exact ih hrest _ _

/-- Expressions compile alike in scopes that agree. -/
theorem emit_of_agrees (h : scope.Agrees scope') (e : Expr) (d : Draft) :
    emit scope' d e = emit scope d e := by
  induction e using Expr.induction generalizing d with
  | h kind text children ih =>
      -- Only forms ask for operators and only symbols for types.
      cases kind with
      | parenthesis =>
          cases hop : scope.registry.resolve text children.length with
          | none =>
              have hop' : scope'.registry.resolve text children.length = none := by
                rw [h.registry, hop]
              rw [emit_form_of_unknown (.inl hop), emit_form_of_unknown (.inl hop')]
          | some op =>
              cases children with
              | nil => rw [emit_form_of_unknown (.inr rfl), emit_form_of_unknown (.inr rfl)]
              | cons first rest =>
                  have hop' : scope'.registry.resolve text (rest.length + 1) = some op := by
                    rw [h.registry]
                    exact hop
                  obtain ⟨hfirst, hrest⟩ := List.forall_mem_cons.mp ih
                  rw [emit_form_cons hop, emit_form_cons hop', hfirst]
                  rcases emit scope d first with ⟨fault | type, d₁⟩
                  · rfl
                  · simp only [emitRest_of_agrees hrest]
      | symbol => rw [emit, emit, emitSymbol, emitSymbol, h.symbols]
      | bool => rw [emit, emit]
      | int => rw [emit, emit]
      | float => rw [emit, emit]
      | string => rw [emit, emit]

end Draft

namespace Builder

variable {b : Builder} {scope' : Scope}

/-- The builder with another scope. -/
def rescope (b : Builder) (scope : Scope) : Builder :=
  { b with scope := scope }

/-- Expressions are appended alike in scopes that agree. -/
theorem append_rescope (h : b.scope.Agrees scope') (e : Expr) :
    (b.rescope scope').append e = ((b.append e).1, (b.append e).2.rescope scope') := by
  have hemit : b.draft.emit scope' e = b.draft.emit b.scope e := Draft.emit_of_agrees h e b.draft
  obtain ⟨scope, draft, result, isFinalized⟩ := b
  cases isFinalized with
  | true => rfl
  | false =>
      simp only [append, rescope, Bool.false_eq_true, if_false]
      rw [hemit]
      rcases draft.emit scope e with ⟨fault | type, d⟩ <;> rfl

@[simp]
theorem finalize_rescope (b : Builder) (scope' : Scope) :
    (b.rescope scope').finalize = b.finalize.rescope scope' := by
  obtain ⟨scope, draft, result, isFinalized⟩ := b
  cases isFinalized <;> rfl

/-- Builders whose scopes agree go through the same runs. -/
theorem run_rescope (h : b.scope.Agrees scope') (actions : List Action) :
    (b.rescope scope').run actions = (b.run actions).rescope scope' ∧
      (b.rescope scope').outcomes actions = b.outcomes actions := by
  induction actions generalizing b with
  | nil => exact ⟨rfl, rfl⟩
  | cons action actions ih =>
      have hnext : (b.perform action).scope.Agrees scope' := by
        rwa [scope_perform]
      obtain ⟨hrun, houtcomes⟩ := ih hnext
      cases action with
      | append e =>
          have happend := append_rescope h e
          refine ⟨?_, ?_⟩
          · show ((b.rescope scope').append e).2.run actions = _
            rw [happend]
            exact hrun
          · rw [outcomes, outcomes, happend]
            exact congrArg _ houtcomes
      | finalize =>
          refine ⟨?_, ?_⟩
          · show (b.rescope scope').finalize.run actions = _
            rw [finalize_rescope]
            exact hrun
          · rw [outcomes, outcomes, finalize_rescope]
            exact houtcomes

@[simp]
theorem toProgram_rescope (b : Builder) (scope' : Scope) :
    (b.rescope scope').toProgram = b.toProgram := by
  rw [toProgram, finalize_rescope]
  rfl

end Builder

/-! ## Programs -/

namespace Program

variable {p : Program} {e : Expr} {registry : Registry} {symbols symbols' : Declarations}

/-- Declarations in another order make the same programs. -/
theorem compile_of_perm (hnames : (symbols.map Prod.fst).Nodup) (horder : symbols.Perm symbols')
    (e : Expr) (registry : Registry) :
    compile e symbols' registry = compile e symbols registry := by
  unfold compile
  cases hdeclare : Scope.declare registry symbols with
  | error fault =>
      have hnames' := (horder.map Prod.fst).nodup_iff.mp hnames
      rw [(Scope.declare_eq_error_congr hnames hnames' fun _ _ => horder.mem_iff.symm).mpr hdeclare]
  | ok scope =>
      obtain ⟨scope', hdeclare', hagrees⟩ := Scope.exists_declare_of_perm hnames horder hdeclare
      have happend : (Builder.ofScope scope').append e =
          (((Builder.ofScope scope).append e).1,
            ((Builder.ofScope scope).append e).2.rescope scope') :=
        Builder.append_rescope (b := .ofScope scope) hagrees e
      rw [hdeclare']
      dsimp only
      rw [happend]
      rcases (Builder.ofScope scope).append e with ⟨fault | type, b⟩
      · rfl
      · dsimp only
        rw [b.toProgram_rescope]

/-- The program of an expression is that of a run. -/
theorem exists_run_of_compile (h : compile e symbols registry = .ok p) :
    ∃ scope, p = ((Builder.ofScope scope).run [.append e]).toProgram := by
  unfold compile at h
  cases hdeclare : Scope.declare registry symbols with
  | error fault =>
      rw [hdeclare] at h
      cases h
  | ok scope =>
      refine ⟨scope, ?_⟩
      show p = ((Builder.ofScope scope).append e).2.toProgram
      rcases happend : (Builder.ofScope scope).append e with ⟨fault | type, b⟩
      · simp [hdeclare, happend] at h
      · simpa [hdeclare, happend] using h.symm

/-- Sorting puts slots in the order of their numbers. -/
theorem pairwise_mergeSort_slots (slots : List (String × Nat)) :
    (slots.mergeSort fun a b => a.2 ≤ b.2).Pairwise fun a b => a.2 ≤ b.2 := by
  refine (List.pairwise_mergeSort ?_ ?_ slots).imp of_decide_eq_true
  · intro a b c hab hbc
    exact decide_eq_true (Nat.le_trans (of_decide_eq_true hab) (of_decide_eq_true hbc))
  · intro a b
    simp only [Bool.or_eq_true, decide_eq_true_eq]
    exact Nat.le_total a.2 b.2

/-- Slots with different numbers are listed alike by every way of sorting them. -/
theorem slotNames_of_perm (hnumbers : (p.slots.map Prod.snd).Nodup) {sorted : List (String × Nat)}
    (hperm : sorted.Perm p.slots) (hsorted : sorted.Pairwise fun a b => a.2 ≤ b.2) :
    sorted.map Prod.fst = p.slotNames := by
  have hmerge := p.slots.mergeSort_perm fun a b => a.2 ≤ b.2
  rw [slotNames]
  congr 1
  refine List.Perm.eq_of_pairwise ?_ hsorted (pairwise_mergeSort_slots p.slots)
    (hperm.trans hmerge.symm)
  -- A list has only one sorted permutation if the order tells all its members apart.
  intro a b ha hb hab hba
  exact List.inj_on_of_nodup_map hnumbers (hperm.mem_iff.mp ha) (hmerge.mem_iff.mp hb)
    (Nat.le_antisymm hab hba)

/-- Programs whose slots have different names and are numbered from zero up, so that the names are
listed alike in whatever order the slots are kept and however they are sorted. -/
structure IgnoresSlotOrder (p : Program) : Prop where
  names : (p.slots.map Prod.fst).Nodup
  numbers : p.slots.map Prod.snd = List.range p.slots.length
  sorted : ∀ sorted : List (String × Nat), sorted.Perm p.slots →
    (sorted.Pairwise fun a b => a.2 ≤ b.2) → sorted.map Prod.fst = p.slotNames
  reordered : ∀ order : List (String × Nat), order.Perm p.slots →
    { p with slots := order }.slotNames = p.slotNames

end Program

/-- The slots of what a builder makes may be kept in any order. -/
theorem Builder.ignoresSlotOrder_run (scope : Scope) (actions : List Action) :
    ((ofScope scope).run actions).toProgram.IgnoresSlotOrder := by
  generalize hb : (ofScope scope).run actions = b
  have hslotted : b.draft.Slotted scope (takenSymbols scope actions) := by
    rw [← hb]
    exact slotted_run scope actions
  have hnumbers : b.toProgram.slots.map Prod.snd = List.range b.toProgram.slots.length := by
    rw [slots_toProgram, Draft.map_snd_slots, List.range_eq_range', Draft.slots_eq, List.length_map,
      List.length_zipIdx]
  have hnodup : (b.toProgram.slots.map Prod.snd).Nodup := by
    rw [hnumbers]
    exact List.nodup_range
  refine ⟨?_, hnumbers, fun sorted => Program.slotNames_of_perm hnodup, fun order hperm => ?_⟩
  · rw [slots_toProgram, Draft.map_fst_slots, hslotted.params]
    exact nodup_eraseDups _
  · exact Program.slotNames_of_perm hnodup ((List.mergeSort_perm order _).trans hperm)
      (Program.pairwise_mergeSort_slots order)

/-- **Compiling does not depend on the order of declarations or slots.** Declarations of different
names are refused if and only if the kind of one of them writes no values. What is reported is then
the name that comes first by its bytes among those with such kinds, together with its kind, in
whatever order the declarations stand and whatever other valid ones there are. Declarations that
are accepted in one order are accepted in every order. Builders then return the same and make the
same programs whatever is done with them, and every expression compiles to the same program or
fails alike. The slots of these programs are numbered one to one, so that their names are listed
alike in whatever order the slots are kept and however they are sorted. -/
theorem compilation_ignores_order {symbols symbols' : Declarations}
    (hnames : (symbols.map Prod.fst).Nodup) (horder : symbols.Perm symbols')
    (registry : Registry) :
    ((∃ fault, Scope.declare registry symbols = .error fault) ↔
      ∃ symbol ∈ symbols, symbol.2.isValue = false) ∧
    (∀ fault, Scope.declare registry symbols = .error fault ↔
      ∃ name kind, fault = .invalidSymbolKind name kind ∧ symbols.IsLeastInvalid (name, kind)) ∧
    (∀ fault, Scope.declare registry symbols' = .error fault ↔
      Scope.declare registry symbols = .error fault) ∧
    (∀ others : Declarations, (others.map Prod.fst).Nodup →
      (∀ symbol : String × Kind, symbol.2.isValue = false →
        (symbol ∈ others ↔ symbol ∈ symbols)) →
      ∀ fault, Scope.declare registry others = .error fault ↔
        Scope.declare registry symbols = .error fault) ∧
    (∀ scope, Scope.declare registry symbols = .ok scope →
      ∃ scope', Scope.declare registry symbols' = .ok scope' ∧ scope.Agrees scope' ∧
        ∀ actions,
          (Builder.ofScope scope').outcomes actions = (Builder.ofScope scope).outcomes actions ∧
          ((Builder.ofScope scope').run actions).toProgram =
            ((Builder.ofScope scope).run actions).toProgram ∧
          ((Builder.ofScope scope).run actions).toProgram.IgnoresSlotOrder) ∧
    ∀ e, Program.compile e symbols' registry = Program.compile e symbols registry ∧
      ∀ p, Program.compile e symbols registry = .ok p → p.IgnoresSlotOrder := by
  have hnames' : (symbols'.map Prod.fst).Nodup := (horder.map Prod.fst).nodup_iff.mp hnames
  refine ⟨?_, fun fault => Scope.declare_eq_error_iff hnames, fun fault => ?_, ?_, ?_, fun e => ?_⟩
  · constructor
    · rintro ⟨fault, hfault⟩
      obtain ⟨name, kind, -, hleast⟩ := (Scope.declare_eq_error_iff hnames).mp hfault
      exact ⟨(name, kind), hleast.mem, hleast.kind⟩
    · rintro ⟨symbol, hsymbol, hkind⟩
      cases hdeclare : Scope.declare registry symbols with
      | error fault => exact ⟨fault, rfl⟩
      | ok scope =>
          have hvalid := ((Scope.declare_eq_ok_iff hnames).mp hdeclare).1 symbol hsymbol
          rw [hkind] at hvalid
          cases hvalid
  · exact Scope.declare_eq_error_congr hnames hnames' fun _ _ => horder.mem_iff.symm
  · intro others hothers hsame fault
    exact Scope.declare_eq_error_congr hnames hothers hsame
  · intro scope hdeclare
    obtain ⟨scope', hdeclare', hagrees⟩ := Scope.exists_declare_of_perm hnames horder hdeclare
    refine ⟨scope', hdeclare', hagrees, fun actions => ?_⟩
    obtain ⟨hrun, houtcomes⟩ := Builder.run_rescope (b := .ofScope scope) hagrees actions
    refine ⟨houtcomes, ?_, Builder.ignoresSlotOrder_run scope actions⟩
    exact (congrArg Builder.toProgram hrun).trans (Builder.toProgram_rescope _ scope')
  · refine ⟨Program.compile_of_perm hnames horder e registry, fun p hp => ?_⟩
    obtain ⟨scope, rfl⟩ := Program.exists_run_of_compile hp
    exact Builder.ignoresSlotOrder_run scope [.append e]

/-- Of two refused names the one in ASCII is reported, though it is declared last or first and with
or without another; a difference has its parameters in the order of their slots. -/
theorem compilation_ignores_order_reversed :
    Scope.declare .builtin [("é", .parenthesis), ("a", .int), ("z", .symbol)] =
      .error (.invalidSymbolKind "z" .symbol) ∧
    Scope.declare .builtin [("z", .symbol), ("a", .int), ("é", .parenthesis)] =
      .error (.invalidSymbolKind "z" .symbol) ∧
    Scope.declare .builtin [("é", .parenthesis), ("z", .symbol)] =
      .error (.invalidSymbolKind "z" .symbol) ∧
    ∃ p, Program.compile (.form "-" [.atom .symbol "y", .atom .symbol "x"])
        [("y", .float), ("x", .int)] .builtin = .ok p ∧
      { p with slots := [("x", 1), ("y", 0)] }.slotNames = ["y", "x"] := by
  obtain ⟨-, hleast, hreversed, hothers, -⟩ := compilation_ignores_order
    (by decide : (List.map Prod.fst
      [("é", Kind.parenthesis), ("a", .int), ("z", .symbol)]).Nodup)
    (by decide : [("é", Kind.parenthesis), ("a", .int), ("z", .symbol)].Perm
      [("z", .symbol), ("a", .int), ("é", .parenthesis)]) .builtin
  have hfault := (hleast _).mpr ⟨"z", .symbol, rfl, by decide, by decide, by decide +kernel⟩
  refine ⟨hfault, (hreversed _).mpr hfault, (hothers _ (by decide) ?_ _).mpr hfault, ?_⟩
  · rintro ⟨name, kind⟩ hkind
    have hne : (name, kind) ≠ ("a", .int) := by
      rintro ⟨⟩
      cases hkind
    simp [hne]
  · obtain ⟨-, -, -, -, -, hcompile⟩ := compilation_ignores_order
      (by decide : (List.map Prod.fst [("x", Kind.int), ("y", .float)]).Nodup)
      (by decide : [("x", Kind.int), ("y", .float)].Perm [("y", .float), ("x", .int)]) .builtin
    obtain ⟨hsame, hslots⟩ := hcompile (.form "-" [.atom .symbol "y", .atom .symbol "x"])
    have hmap : (Program.compile (.form "-" [.atom .symbol "y", .atom .symbol "x"])
        [("x", .int), ("y", .float)] .builtin).map Program.slots = .ok [("y", 0), ("x", 1)] := by
      decide +kernel
    cases hp : Program.compile (.form "-" [.atom .symbol "y", .atom .symbol "x"])
        [("x", .int), ("y", .float)] .builtin with
    | error fault =>
        rw [hp] at hmap
        cases hmap
    | ok p =>
        have hnumbered : p.slots = [("y", 0), ("x", 1)] := by
          rw [hp] at hmap
          exact Except.ok.inj hmap
        have horders := hslots p hp
        refine ⟨p, hsame.trans hp, ?_⟩
        rw [horders.reordered _ (by rw [hnumbered]; decide)]
        exact (horders.sorted [("y", 0), ("x", 1)] (by rw [hnumbered]) (by decide)).symm

end Formula
