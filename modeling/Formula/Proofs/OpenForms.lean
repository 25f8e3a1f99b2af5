import Formula.Expr.Parser
import Formula.Proofs.Reading

/-!
# Open forms

The stack of the parser holds the forms that are open, and above each of them its operands so far.
Here the same is said with a list of open forms, and with a list of all tokens instead of a reader
(`ofTokens`). Both ways of reading have the same result (`parse_eq`), so that properties of parsing
can be proved along the tokens.
-/

namespace Formula

/-- A closing parenthesis opens nothing. -/
theorem Token.isOpen_of_isClose {t : Token} (h : t.isClose = true) : t.isOpen = false := by
  simp_all [Token.isOpen, Token.isClose]

namespace Expr

/-- A form that is not closed yet: its operator and the operands so far in reverse. -/
structure OpenForm where
  /-- The operator. -/
  operator : String
  /-- The operands so far, the last one first. -/
  operands : List Expr

/-- Adds an operand to an open form. -/
def OpenForm.push (f : OpenForm) (e : Expr) : OpenForm :=
  { f with operands := e :: f.operands }

/-- The form as it stands when it is closed. -/
def OpenForm.close (f : OpenForm) : Expr :=
  form f.operator f.operands.reverse

/-- How a sequence of tokens ends: in an error, or at the end of the source. -/
def endError (fault : Option LexError) : ParseError :=
  fault.elim .unexpectedEnd .lex

/-- The first expression of a sequence of tokens, inside the open forms of `context`, the
innermost first. The sequence ends with `fault` or, if there is none, with the source. -/
def ofTokens (fault : Option LexError) (context : List OpenForm) :
    List Token → Except ParseError Expr
  | [] => .error (endError fault)
  | t :: ts =>
    if t.isOpen then
      match ts with
      | [] => .error (endError fault)
      | op :: ts =>
        if op.kind = .symbol then ofTokens fault (⟨op.text, []⟩ :: context) ts
        else .error (.expectingOperator op.offset)
    else if t.isClose then
      match context with
      | [] => .error (.unexpectedParenthesis t.offset)
      | [f] => .ok f.close
      | f :: g :: context => ofTokens fault (g.push f.close :: context) ts
    else
      match context with
      | [] => .ok (atom t.kind t.text)
      | f :: context => ofTokens fault (f.push (atom t.kind t.text) :: context) ts

variable {fault : Option LexError} {context : List OpenForm} {f : OpenForm} {r after : Reader}
  {t op : Token} {ts : List Token} {err : ParseError}

/-- Goes on after an expression: it is the result, or an operand of the innermost open form. -/
def resume (fault : Option LexError) :
    List OpenForm → Expr → List Token → Except ParseError Expr
  | [], e, _ => .ok e
  | f :: context, e, ts => ofTokens fault (f.push e :: context) ts

theorem ofTokens_open (ht : t.isOpen = true) (hop : op.kind = .symbol) :
    ofTokens fault context (t :: op :: ts) = ofTokens fault (⟨op.text, []⟩ :: context) ts := by
  simp [ofTokens, ht, hop]

theorem ofTokens_close (ht : t.isClose = true) :
    ofTokens fault (f :: context) (t :: ts) = resume fault context f.close ts := by
  rw [ofTokens.eq_def]
  cases context <;> simp [resume, ht, Token.isOpen_of_isClose ht]

theorem ofTokens_atom (hopen : t.isOpen = false) (hclose : t.isClose = false) :
    ofTokens fault context (t :: ts) = resume fault context (atom t.kind t.text) ts := by
  rw [ofTokens.eq_def]
  cases context <;> simp [resume, hopen, hclose]

/-- A closing parenthesis that comes first is refused. -/
theorem ofTokens_of_close (ht : t.isClose = true) :
    ofTokens fault [] (t :: ts) = .error (.unexpectedParenthesis t.offset) := by
  rw [ofTokens.eq_def]
  simp [ht, Token.isOpen_of_isClose ht]

/-! ## Stacks of open forms -/

/-- An open form on the stack: its operands above its operator. -/
def OpenForm.entries (f : OpenForm) : List Entry :=
  f.operands.map .done ++ [.opened f.operator]

/-- The stack of nested open forms, of which the innermost comes first in the list. -/
def stackOf (context : List OpenForm) : List Entry :=
  context.flatMap OpenForm.entries

theorem stackOf_eq_nil_iff : stackOf context = [] ↔ context = [] := by
  cases context <;> simp [stackOf, OpenForm.entries]

/-- Expressions on the stack belong to the form below them. -/
theorem closeForm?_done_append (es : List Expr) (operator : String) (below : List Entry) :
    closeForm? (es.map .done ++ .opened operator :: below) =
      some (form operator es.reverse, below) := by
  have hdone : ∀ entry ∈ es.map Entry.done, entry.isDone = true := by
    simp [Entry.isDone]
  have hoperands : (es.map Entry.done).reverse.filterMap Entry.expr? = es.reverse := by
    rw [← List.map_reverse, List.filterMap_map]
    exact List.filterMap_some
  simp only [closeForm?, List.dropWhile_append_of_pos hdone, List.takeWhile_append_of_pos hdone,
    List.dropWhile_cons, List.takeWhile_cons, Entry.isDone, Bool.false_eq_true, if_false,
    List.append_nil, hoperands]

@[simp]
theorem closeForm?_stackOf_cons (f : OpenForm) (context : List OpenForm) :
    closeForm? (stackOf (f :: context)) = some (f.close, stackOf context) := by
  have hstack : stackOf (f :: context) =
      f.operands.map .done ++ .opened f.operator :: stackOf context := by
    simp [stackOf, OpenForm.entries]
  rw [hstack, closeForm?_done_append]
  rfl

/-- A form is closed only inside the innermost one. -/
theorem exists_of_closeForm?_stackOf {e : Expr} {below : List Entry}
    (h : closeForm? (stackOf context) = some (e, below)) :
    ∃ f outer, context = f :: outer ∧ e = f.close ∧ below = stackOf outer := by
  cases context with
  | nil => cases h
  | cons f outer =>
      rw [closeForm?_stackOf_cons] at h
      cases h
      exact ⟨f, outer, rfl, rfl, rfl⟩

/-! ## The result of parsing -/

/-- A token that is read stands before those behind it. -/
theorem readAll_of_nextToken (h : nextToken r = .ok (t, after)) :
    r.readAll.tokens = t :: after.readAll.tokens ∧ r.readAll.fault = after.readAll.fault := by
  rw [Reader.readAll_of_token (nextToken_eq_ok_iff.1 h)]
  exact ⟨rfl, rfl⟩

/-- No token is read where the tokens end. -/
theorem readAll_of_nextToken_error (h : nextToken r = .error err) :
    r.readAll.tokens = [] ∧ endError r.readAll.fault = err := by
  unfold nextToken at h
  split at h
  · cases h
  · rename_i hnext
    cases h
    rw [Reader.readAll_of_fault hnext]
    exact ⟨rfl, rfl⟩
  · rename_i hnext
    cases h
    rw [Reader.readAll_of_end hnext]
    exact ⟨rfl, rfl⟩

/-- Reading on above the stack of open forms gives what their tokens give. -/
theorem map_readExpr_stackOf (context : List OpenForm) (r : Reader) :
    (readExpr (stackOf context) r).map Prod.fst =
      ofTokens r.readAll.fault context r.readAll.tokens := by
  -- Along the steps of the parser, whose stacks are always those of open forms.
  generalize hstack : stackOf context = stack
  fun_induction readExpr stack r generalizing context with
  | case1 stack r err h =>
      obtain ⟨htokens, rfl⟩ := readAll_of_nextToken_error h
      rw [htokens]
      rfl
  | case2 stack r t after h _ hopen err hend =>
      obtain ⟨htokens, hfault⟩ := readAll_of_nextToken h
      obtain ⟨hnone, rfl⟩ := readAll_of_nextToken_error hend
      rw [htokens, hnone, hfault, ofTokens.eq_def]
      simp only [if_pos hopen]
      rfl
  | case3 stack r t after h _ hopen op behind hop _ hkind ih =>
      obtain ⟨htokens, hfault⟩ := readAll_of_nextToken h
      obtain ⟨hbehind, hfault'⟩ := readAll_of_nextToken hop
      subst hstack
      rw [htokens, hbehind, hfault, hfault', ofTokens_open hopen hkind]
      exact ih (⟨op.text, []⟩ :: context) rfl
  | case4 stack r t after h _ hopen op behind hop _ hkind =>
      rw [(readAll_of_nextToken h).1, (readAll_of_nextToken hop).1, ofTokens.eq_def]
      simp only [if_pos hopen, if_neg hkind]
      rfl
  | case5 stack r t after h _ hopen hclose hnone =>
      subst hstack
      cases context with
      | nil =>
          rw [(readAll_of_nextToken h).1, ofTokens_of_close hclose]
          rfl
      | cons f context =>
          rw [closeForm?_stackOf_cons] at hnone
          cases hnone
  | case6 stack r t after h _ hopen hclose e hclosed =>
      subst hstack
      obtain ⟨f, context, rfl, rfl, hempty⟩ := exists_of_closeForm?_stackOf hclosed
      obtain rfl := stackOf_eq_nil_iff.1 hempty.symm
      rw [(readAll_of_nextToken h).1, ofTokens_close hclose]
      rfl
  | case7 stack r t after h _ hopen hclose e below hbelow hclosed ih =>
      subst hstack
      obtain ⟨htokens, hfault⟩ := readAll_of_nextToken h
      obtain ⟨f, context, rfl, rfl, rfl⟩ := exists_of_closeForm?_stackOf hclosed
      rw [htokens, hfault, ofTokens_close hclose]
      cases context with
      | nil => exact absurd rfl hbelow
      | cons g context => exact ih (g.push f.close :: context) rfl
  | case8 r t after h _ hopen hclose =>
      obtain rfl := stackOf_eq_nil_iff.1 hstack
      rw [(readAll_of_nextToken h).1,
        ofTokens_atom (eq_false_of_ne_true hopen) (eq_false_of_ne_true hclose)]
      rfl
  | case9 stack r t after h _ hopen hclose hne ih =>
      subst hstack
      obtain ⟨htokens, hfault⟩ := readAll_of_nextToken h
      rw [htokens, hfault,
        ofTokens_atom (eq_false_of_ne_true hopen) (eq_false_of_ne_true hclose)]
      cases context with
      | nil => exact absurd rfl hne
      | cons f context => exact ih (f.push (atom t.kind t.text) :: context) rfl

/-- Parsing reads the tokens of the source. -/
theorem parse_eq (source : String) :
    parse source = ofTokens (Reader.ofString source).readAll.fault []
      (Reader.ofString source).readAll.tokens :=
  map_readExpr_stackOf [] (Reader.ofString source)

end Expr

end Formula
