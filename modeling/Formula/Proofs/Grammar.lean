import Formula.Proofs.OpenForms

/-!
# The grammar of expressions

`Expr.words` lists the words of an expression: an atom is one word, a form is an opening
parenthesis, its operator, its operands and a closing parenthesis. Parsing accepts exactly the
sources whose words start with those of an expression, and what it returns is that expression.
All other sources are refused for the first word that cannot be part of an expression, or for
the way the words end.

In the proofs, the words of the open forms and the words still to come always make up the whole
source (`isProper_and_prefix_of_ofTokens`), and reading the words of one expression amounts to
adding it to the innermost open form (`ofTokens_append`).
-/

namespace Formula

/-- A token without its place: its kind and its text. -/
def Token.word (t : Token) : Kind × String :=
  (t.kind, t.text)

theorem Token.isOpen_iff {t : Token} : t.isOpen = true ↔ t.word = (.parenthesis, "(") := by
  simp [Token.isOpen, Token.word]

theorem Token.isClose_iff {t : Token} : t.isClose = true ↔ t.word = (.parenthesis, ")") := by
  simp [Token.isClose, Token.word]

/-- A token that is not of the kind of parentheses neither opens nor closes a form. -/
theorem Token.isOpen_isClose_of_kind {t : Token} (h : t.kind ≠ .parenthesis) :
    t.isOpen = false ∧ t.isClose = false := by
  simp [Token.isOpen, Token.isClose, h]

namespace Expr

/-! ## Words of expressions -/

mutual

/-- The words of an expression from left to right. -/
def words : Expr → List (Kind × String)
  | node .parenthesis operator operands =>
    (.parenthesis, "(") :: (.symbol, operator) :: (wordsAll operands ++ [(.parenthesis, ")")])
  | node kind text _ => [(kind, text)]

/-- The words of several expressions one after another. -/
def wordsAll : List Expr → List (Kind × String)
  | [] => []
  | e :: es => words e ++ wordsAll es

end

/-- Expressions as they are written: no atom in them has children. -/
inductive IsProper : Expr → Prop
  | atom {kind : Kind} (text : String) (h : kind ≠ .parenthesis) : IsProper (atom kind text)
  | form (operator : String) {operands : List Expr} (h : ∀ e ∈ operands, IsProper e) :
      IsProper (form operator operands)

@[simp]
theorem words_atom {kind : Kind} (h : kind ≠ .parenthesis) (text : String) :
    (atom kind text).words = [(kind, text)] := by
  cases kind <;> first | contradiction | rfl

@[simp]
theorem wordsAll_append (es es' : List Expr) :
    wordsAll (es ++ es') = wordsAll es ++ wordsAll es' := by
  induction es with
  | nil => rfl
  | cons e es ih => simp [wordsAll, ih]

/-! ## Words of open forms -/

/-- The words of an open form so far. -/
def OpenForm.words (f : OpenForm) : List (Kind × String) :=
  (.parenthesis, "(") :: (.symbol, f.operator) :: wordsAll f.operands.reverse

@[simp]
theorem OpenForm.words_close (f : OpenForm) : f.close.words = f.words ++ [(.parenthesis, ")")] :=
  rfl

@[simp]
theorem OpenForm.words_push (f : OpenForm) (e : Expr) : (f.push e).words = f.words ++ e.words := by
  simp [OpenForm.words, OpenForm.push, wordsAll_append, wordsAll]

/-- The words of nested open forms, of which the innermost comes first in the list. -/
def contextWords : List OpenForm → List (Kind × String)
  | [] => []
  | f :: context => contextWords context ++ f.words

/-- The operands of an open form are proper. -/
def OpenForm.IsProper (f : OpenForm) : Prop :=
  ∀ e ∈ f.operands, e.IsProper

theorem OpenForm.IsProper.close {f : OpenForm} (h : f.IsProper) : f.close.IsProper :=
  .form _ fun e he => h e (List.mem_reverse.1 he)

theorem OpenForm.IsProper.push {f : OpenForm} {e : Expr} (h : f.IsProper) (he : e.IsProper) :
    (f.push e).IsProper :=
  List.forall_mem_cons.2 ⟨he, h⟩

/-! ## Accepted words -/

variable {fault : Option LexError} {context : List OpenForm} {f : OpenForm} {t op : Token}
  {ts : List Token} {e : Expr} {err : ParseError}

/-- What is accepted is an expression whose words the source starts with: the words of the open
forms and those to come stay the same together while tokens are read. -/
theorem isProper_and_prefix_of_ofTokens
    (hts : ∀ t ∈ ts, t.kind = .parenthesis → t.isOpen = true ∨ t.isClose = true)
    (hcontext : ∀ f ∈ context, f.IsProper) (h : ofTokens fault context ts = .ok e) :
    e.IsProper ∧ e.words <+: contextWords context ++ ts.map Token.word := by
  -- A token that is no parenthesis is of another kind.
  have hkind : ∀ t ∈ ts, ¬t.isOpen = true → ¬t.isClose = true → t.kind ≠ .parenthesis :=
    fun t ht hopen hclose hkind => (hts t ht hkind).elim hopen hclose
  clear hts
  fun_induction ofTokens fault context ts with
  | case1 | case2 | case4 | case5 => cases h
  | case3 context t ht op ts hop ih =>
      have hopword : op.word = (.symbol, op.text) := by rw [Token.word, hop]
      have hwords : contextWords (⟨op.text, []⟩ :: context) ++ ts.map Token.word =
          contextWords context ++ (t :: op :: ts).map Token.word := by
        simp [contextWords, OpenForm.words, wordsAll, Token.isOpen_iff.1 ht, hopword]
      rw [← hwords]
      refine ih (List.forall_mem_cons.2 ⟨by simp [OpenForm.IsProper], hcontext⟩) h ?_
      exact fun u hu => hkind u (List.mem_cons_of_mem _ (List.mem_cons_of_mem _ hu))
  | case6 t ts hopen hclose f =>
      cases h
      refine ⟨(hcontext f List.mem_cons_self).close, ts.map Token.word, ?_⟩
      simp [contextWords, OpenForm.words_close, Token.isClose_iff.1 hclose]
  | case7 t ts hopen hclose f g context ih =>
      obtain ⟨hf, hg, hcontext⟩ :
          f.IsProper ∧ g.IsProper ∧ ∀ f ∈ context, f.IsProper := by
        simpa using hcontext
      have hwords : contextWords (g.push f.close :: context) ++ ts.map Token.word =
          contextWords (f :: g :: context) ++ (t :: ts).map Token.word := by
        simp [contextWords, OpenForm.words_push, OpenForm.words_close, Token.isClose_iff.1 hclose]
      rw [← hwords]
      refine ih (List.forall_mem_cons.2 ⟨hg.push hf.close, hcontext⟩) h ?_
      exact fun u hu => hkind u (List.mem_cons_of_mem _ hu)
  | case8 t ts hopen hclose =>
      cases h
      have ht := hkind t List.mem_cons_self hopen hclose
      refine ⟨.atom _ ht, ts.map Token.word, ?_⟩
      simp [contextWords, words_atom ht, Token.word]
  | case9 t ts hopen hclose f context ih =>
      have ht := hkind t List.mem_cons_self hopen hclose
      obtain ⟨hf, hcontext⟩ := List.forall_mem_cons.1 hcontext
      have hwords : contextWords (f.push (atom t.kind t.text) :: context) ++ ts.map Token.word =
          contextWords (f :: context) ++ (t :: ts).map Token.word := by
        simp [contextWords, OpenForm.words_push, words_atom ht, Token.word]
      rw [← hwords]
      refine ih (List.forall_mem_cons.2 ⟨hf.push (.atom _ ht), hcontext⟩) h ?_
      exact fun u hu => hkind u (List.mem_cons_of_mem _ hu)

/-- Reading the words of operands adds them to the innermost form. -/
theorem ofTokens_append_operands {es : List Expr}
    (hes : ∀ e ∈ es, ∀ (context : List OpenForm) (ts rest : List Token),
      ts.map Token.word = e.words →
        ofTokens fault context (ts ++ rest) = resume fault context e rest)
    (hts : ts.map Token.word = wordsAll es) (f : OpenForm) (context : List OpenForm)
    (rest : List Token) :
    ofTokens fault (f :: context) (ts ++ rest) =
      ofTokens fault ({ f with operands := es.reverse ++ f.operands } :: context) rest := by
  induction es generalizing f ts with
  | nil =>
      obtain rfl : ts = [] := by simpa [wordsAll] using hts
      rfl
  | cons e es ih =>
      obtain ⟨us, vs, rfl, hus, hvs⟩ := List.map_eq_append_iff.1 hts
      obtain ⟨he, hes⟩ := List.forall_mem_cons.1 hes
      rw [List.append_assoc, he _ _ _ hus, resume, ih hes hvs]
      simp [OpenForm.push]

/-- Reading the words of an expression reads the expression, whatever comes behind. -/
theorem ofTokens_append (he : e.IsProper) (context : List OpenForm) (ts rest : List Token)
    (hts : ts.map Token.word = e.words) :
    ofTokens fault context (ts ++ rest) = resume fault context e rest := by
  induction he generalizing context ts rest with
  | @atom kind text hkind =>
      rw [words_atom hkind] at hts
      obtain ⟨t, rfl, ht⟩ := List.map_eq_singleton_iff.1 hts
      obtain ⟨rfl, rfl⟩ := Prod.mk.inj ht
      obtain ⟨hopen, hclose⟩ := Token.isOpen_isClose_of_kind hkind
      exact ofTokens_atom hopen hclose
  | @form operator operands _ ih =>
      obtain ⟨t, us, rfl, ht, hus⟩ := List.map_eq_cons_iff.1 hts
      obtain ⟨op, vs, rfl, hop, hvs⟩ := List.map_eq_cons_iff.1 hus
      obtain ⟨operandTokens, closing, rfl, hoperands, hclosing⟩ := List.map_eq_append_iff.1 hvs
      obtain ⟨c, rfl, hc⟩ := List.map_eq_singleton_iff.1 hclosing
      obtain ⟨hkind, rfl⟩ := Prod.mk.inj hop
      rw [List.cons_append, List.cons_append, List.append_assoc,
        ofTokens_open (Token.isOpen_iff.2 ht) hkind, ofTokens_append_operands ih hoperands,
        List.singleton_append, ofTokens_close (Token.isClose_iff.2 hc)]
      simp [OpenForm.close]

/-! ## Refused words -/

/-- The first word that stands directly behind an opening parenthesis and is no symbol. -/
def misplaced? (ts : List Token) : Option Token :=
  ((ts.zip ts.tail).find? fun (t, op) => t.isOpen && op.kind != .symbol).map (·.2)

/-- Only opening parentheses ask for an operator. -/
theorem misplaced?_cons_of_not_open (ht : ¬t.isOpen = true) (ts : List Token) :
    misplaced? (t :: ts) = misplaced? ts := by
  cases ts <;> simp [misplaced?, ht]

/-- Inside a form, or if the first word does not close one, words are refused for the first
misplaced word, and for the way they end if there is none. -/
theorem error_of_ofTokens (hfirst : context = [] → ∀ t ∈ ts.head?, t.isClose = false)
    (h : ofTokens fault context ts = .error err) :
    err = (misplaced? ts).elim (endError fault) fun t => .expectingOperator t.offset := by
  fun_induction ofTokens fault context ts with
  | case1 | case2 => cases h; rfl
  | case3 context t ht op ts hop ih =>
      have hopen : ¬op.isOpen = true := by simp [Token.isOpen, hop]
      have hskip : misplaced? (t :: op :: ts) = misplaced? (op :: ts) := by
        simp [misplaced?, hop]
      rw [hskip, misplaced?_cons_of_not_open hopen]
      exact ih (by simp) h
  | case4 context t ht op ts hop =>
      cases h
      simp [misplaced?, ht, hop]
  | case5 t ts hopen hclose => simp [hclose] at hfirst
  | case6 | case8 => cases h
  | case7 t ts hopen hclose f g context ih =>
      rw [misplaced?_cons_of_not_open hopen]
      exact ih (by simp) h
  | case9 t ts hopen hclose f context ih =>
      rw [misplaced?_cons_of_not_open hopen]
      exact ih (by simp) h

/-- Why words are refused that do not start with those of an expression and end with `fault`, or
at the end of the source if there is none. A closing parenthesis that comes first closes nothing;
otherwise the first misplaced word counts, which stands before the end of the words. -/
def refusal (fault : Option LexError) (ts : List Token) : ParseError :=
  if let some t := ts.head?.filter Token.isClose then .unexpectedParenthesis t.offset
  else if let some t := misplaced? ts then .expectingOperator t.offset
  else if let some fault := fault then .lex fault
  else .unexpectedEnd

/-- Words start with a closing parenthesis or they do not. -/
theorem not_close_or_eq_cons (ts : List Token) :
    (∀ t ∈ ts.head?, t.isClose = false) ∨ ∃ t us, ts = t :: us ∧ t.isClose = true := by
  rcases ts with _ | ⟨t, us⟩
  · exact .inl (by simp)
  · cases hclose : t.isClose with
    | false => exact .inl (by simp [hclose])
    | true => exact .inr ⟨t, us, rfl, hclose⟩

/-- Only a closing parenthesis that comes first closes nothing. -/
theorem exists_close_of_ofTokens {offset : Nat}
    (h : ofTokens fault [] ts = .error (.unexpectedParenthesis offset)) :
    ∃ t, ts.head? = some t ∧ t.isClose = true ∧ t.offset = offset := by
  obtain hfirst | ⟨t, us, rfl, hclose⟩ := not_close_or_eq_cons ts
  · have herr := error_of_ofTokens (fun _ => hfirst) h
    cases hmisplaced : misplaced? ts <;> cases fault <;> rw [hmisplaced] at herr <;> cases herr
  · rw [ofTokens_of_close hclose] at h
    cases h
    exact ⟨t, rfl, hclose, rfl⟩

/-- Words are refused for their refusal only. -/
theorem eq_refusal_of_ofTokens (h : ofTokens fault [] ts = .error err) :
    err = refusal fault ts := by
  obtain hfirst | ⟨t, us, rfl, hclose⟩ := not_close_or_eq_cons ts
  · have hhead : ts.head?.filter Token.isClose = none :=
      Option.filter_eq_none_iff.2 fun t ht => by simp [hfirst t ht]
    rw [error_of_ofTokens (fun _ => hfirst) h, refusal.eq_def, hhead]
    cases misplaced? ts <;> cases fault <;> rfl
  · rw [ofTokens_of_close hclose] at h
    cases h
    simp [refusal, Option.filter, hclose]

/-- A proper expression whose words come first in a source. -/
def IsFirst (source : String) (e : Expr) : Prop :=
  e.IsProper ∧ e.words <+: (Reader.ofString source).readAll.tokens.map Token.word

/-- The result of parsing comes first in the source. -/
theorem isFirst_of_parse {source : String} (h : parse source = .ok e) : IsFirst source e := by
  rw [parse_eq] at h
  exact isProper_and_prefix_of_ofTokens
    (Reader.isOpen_or_isClose_of_mem_tokens (Reader.ofString source)) (by simp) h

/-- An expression that comes first in a source is the result of parsing. -/
theorem parse_of_isFirst {source : String} (h : IsFirst source e) : parse source = .ok e := by
  obtain ⟨he, rest, hrest⟩ := h
  obtain ⟨ts, us, htokens, hts, -⟩ := List.map_eq_append_iff.1 hrest.symm
  rw [parse_eq, htokens]
  exact ofTokens_append he [] ts us hts

/-- A source is refused for the refusal of its words only. -/
theorem eq_refusal_of_parse {source : String} (h : parse source = .error err) :
    err = refusal (Reader.ofString source).readAll.fault
      (Reader.ofString source).readAll.tokens := by
  rw [parse_eq] at h
  exact eq_refusal_of_ofTokens h

/-- In a source, only a closing parenthesis that comes first closes nothing. -/
theorem exists_close_of_parse {source : String} {offset : Nat}
    (h : parse source = .error (.unexpectedParenthesis offset)) :
    ∃ t, (Reader.ofString source).readAll.tokens.head? = some t ∧
      t.isClose = true ∧ t.offset = offset := by
  rw [parse_eq] at h
  exact exists_close_of_ofTokens h

/-- **Parsing accepts the grammar.** The result is the expression that comes first in the source.
A source without one is refused, for the reason that `refusal` gives; a parenthesis that closes
nothing is the reason if and only if it is the first word. -/
theorem parse_accepts_grammar (source : String) :
    (∀ e, parse source = .ok e ↔ IsFirst source e) ∧
    (∀ err, parse source = .error err ↔
      (∀ e, ¬IsFirst source e) ∧
        err = refusal (Reader.ofString source).readAll.fault
          (Reader.ofString source).readAll.tokens) ∧
    (∀ offset, parse source = .error (.unexpectedParenthesis offset) ↔
      ∃ t, (Reader.ofString source).readAll.tokens.head? = some t ∧
        t.isClose = true ∧ t.offset = offset) := by
  refine ⟨fun e => ⟨isFirst_of_parse, parse_of_isFirst⟩, fun err => ⟨?_, ?_⟩,
    fun offset => ⟨exists_close_of_parse, ?_⟩⟩
  · intro h
    refine ⟨fun e he => ?_, eq_refusal_of_parse h⟩
    cases (parse_of_isFirst he).symm.trans h
  · rintro ⟨hnone, rfl⟩
    cases h : parse source with
    | ok e => exact absurd (isFirst_of_parse h) (hnone e)
    | error err => rw [eq_refusal_of_parse h]
  · rintro ⟨t, ht, hclose, rfl⟩
    obtain ⟨us, hus⟩ := List.head?_eq_some_iff.1 ht
    rw [parse_eq, hus]
    exact ofTokens_of_close hclose

end Expr

end Formula
