import Formula.Proofs.Grammar

/-!
# Sources that go on

A source may be typed in line by line. What parsing says of the lines so far is final, be it an
expression or an error, unless the error is that the source is incomplete: no further line
changes it (`parse_append_of_settled`). A source that ends before its expression does can always
be completed, by one more word and enough closing parentheses
(`exists_ok_of_unexpectedEnd`).
-/

namespace Formula

open Text

/-! ## Readers -/

namespace Reader

@[simp]
theorem ofString_append (s t : String) : ofString (s ++ t) = (ofString s).extend t.toList := by
  simp [ofString, extend]

/-- Closing parentheses are read one by one. -/
theorem readAll_replicate_close (n position : Nat) :
    (Reader.mk (List.replicate n ')') position false).readAll.tokens.length = n ∧
      ∀ t ∈ (Reader.mk (List.replicate n ')') position false).readAll.tokens, t.isClose = true := by
  induction n generalizing position with
  | zero =>
      have hnext : (Reader.mk [] position false).next = (none, ⟨[], position, true⟩) := rfl
      rw [List.replicate_zero, readAll_of_end hnext]
      simp
  | succ n ih =>
      have hnext : (Reader.mk (List.replicate (n + 1) ')') position false).next =
          (some (.ok ⟨")", .parenthesis, position⟩),
            ⟨List.replicate n ')', position + 1, false⟩) := by
        rw [next_of_running rfl]
        rfl
      obtain ⟨hlength, hclose⟩ := ih (position + 1)
      rw [readAll_of_token hnext]
      exact ⟨by simp [hlength], List.forall_mem_cons.2 ⟨rfl, hclose⟩⟩

/-- A letter and closing parentheses are read as a symbol and the parentheses. -/
theorem readAll_letter_close (n position : Nat) :
    ∃ x closers,
      (Reader.mk ('x' :: List.replicate n ')') position false).readAll.tokens = x :: closers ∧
      x.kind = .symbol ∧ closers.length = n ∧ ∀ t ∈ closers, t.isClose = true := by
  have hnext : (Reader.mk ('x' :: List.replicate n ')') position false).next =
      (some (.ok ⟨"x", .symbol, position⟩), ⟨List.replicate n ')', position + 1, false⟩) := by
    rw [next_of_running rfl]
    cases n <;> rfl
  obtain ⟨hlength, hclose⟩ := readAll_replicate_close n (position + 1)
  rw [readAll_of_token hnext]
  exact ⟨_, _, rfl, rfl, hlength, hclose⟩

end Reader

namespace Expr

variable {fault : Option LexError} {context : List OpenForm} {ts : List Token} {c : Char}
  {s : String}

/-! ## Settled sources -/

/-- Unless the words run out, what follows them does not matter. -/
theorem ofTokens_append_of_ne (h : ofTokens fault context ts ≠ .error (endError fault))
    (fault' : Option LexError) (more : List Token) :
    ofTokens fault' context (ts ++ more) = ofTokens fault context ts := by
  fun_induction ofTokens fault context ts with
  | case1 | case2 => contradiction
  | case3 context t ht op ts hop ih =>
      rw [List.cons_append, List.cons_append, ofTokens_open ht hop, ih h]
  | case4 context t ht op ts hop => simp [ofTokens, ht, hop]
  | case5 t ts hopen hclose => rw [List.cons_append, ofTokens_of_close hclose]
  | case6 t ts hopen hclose f => rw [List.cons_append, ofTokens_close hclose, resume]
  | case7 t ts hopen hclose f g context ih =>
      rw [List.cons_append, ofTokens_close hclose, resume, ih h]
  | case8 t ts hopen hclose =>
      rw [List.cons_append, ofTokens_atom (by simpa using hopen) (by simpa using hclose), resume]
  | case9 t ts hopen hclose f context ih =>
      rw [List.cons_append, ofTokens_atom (by simpa using hopen) (by simpa using hclose), resume,
        ih h]

/-- What parsing says of a source is final, unless the source is incomplete: it stays when the
source goes on after a blank. -/
theorem parse_append_of_settled (hc : isBlank c = true)
    (hs : ∀ err, parse s = .error err → err.isIncomplete = false) (t : String) :
    parse (s ++ String.singleton c ++ t) = parse s := by
  obtain ⟨later, htokens, hfault, -, hmalformed⟩ :=
    Reader.readAll_extend hc t.toList (Reader.ofString s) rfl
  have hreader : Reader.ofString (s ++ String.singleton c ++ t) =
      (Reader.ofString s).extend (c :: t.toList) := by
    rw [String.append_assoc, Reader.ofString_append]
    simp
  rw [parse_eq] at hs
  rw [parse_eq, parse_eq, hreader, htokens]
  by_cases hend : ofTokens (Reader.ofString s).readAll.fault [] (Reader.ofString s).readAll.tokens =
      .error (endError (Reader.ofString s).readAll.fault)
  · -- The words run out, so they end in an escape that is malformed, and that error stays.
    have hincomplete := hs _ hend
    rcases hlex : (Reader.ofString s).readAll.fault with _ | (o | ⟨o, e⟩)
    · rw [hlex] at hincomplete
      cases hincomplete
    · rw [hlex] at hincomplete
      cases hincomplete
    · obtain ⟨hnil, hsame⟩ := hmalformed o e hlex
      rw [hfault, hnil, hsame, List.append_nil, hlex]
  · exact ofTokens_append_of_ne hend _ _

/-! ## Incomplete sources -/

/-- Enough closing parentheses end all open forms. -/
theorem exists_resume_eq_ok {closers : List Token} (hclose : ∀ t ∈ closers, t.isClose = true)
    (hlength : context.length ≤ closers.length) (e : Expr) :
    ∃ e', resume fault context e closers = .ok e' := by
  induction context generalizing closers e with
  | nil => exact ⟨e, rfl⟩
  | cons f context ih =>
      obtain ⟨c, cs, rfl⟩ := List.exists_cons_of_length_pos (Nat.lt_of_lt_of_le (by simp) hlength)
      rw [resume, ofTokens_close (hclose c List.mem_cons_self)]
      exact ih (fun t ht => hclose t (List.mem_cons_of_mem _ ht)) (by simpa using hlength) _

/-- Words that run out are completed by a symbol, which is an operator, an operand or the whole
expression, and closing parentheses. -/
theorem exists_ofTokens_eq_ok {x : Token} {closers : List Token} (hx : x.kind = .symbol)
    (hclose : ∀ t ∈ closers, t.isClose = true)
    (hlength : context.length + ts.length ≤ closers.length)
    (h : ofTokens none context ts = .error .unexpectedEnd) :
    ∃ e, ofTokens fault context (ts ++ x :: closers) = .ok e := by
  obtain ⟨hxopen, hxclose⟩ := Token.isOpen_isClose_of_kind (t := x) (by simp [hx])
  fun_induction ofTokens none context ts with
  | case1 context =>
      rw [List.nil_append, ofTokens_atom hxopen hxclose]
      exact exists_resume_eq_ok hclose hlength _
  | case2 context t ht =>
      obtain ⟨c, cs, rfl⟩ := List.exists_cons_of_length_pos (Nat.lt_of_lt_of_le (by simp) hlength)
      rw [List.singleton_append, ofTokens_open ht hx, ofTokens_close (hclose c List.mem_cons_self)]
      exact exists_resume_eq_ok (fun t ht => hclose t (List.mem_cons_of_mem _ ht))
        (by simpa using hlength) _
  | case3 context t ht op ts hop ih =>
      rw [List.cons_append, List.cons_append, ofTokens_open ht hop]
      exact ih (by simp only [List.length_cons] at hlength ⊢; omega) h
  | case4 | case5 | case6 | case8 => cases h
  | case7 t ts hopen hcloses f g context ih =>
      rw [List.cons_append, ofTokens_close hcloses, resume]
      exact ih (by simp only [List.length_cons] at hlength ⊢; omega) h
  | case9 t ts hopen hcloses f context ih =>
      rw [List.cons_append, ofTokens_atom (by simpa using hopen) (by simpa using hcloses), resume]
      exact ih (by simp only [List.length_cons] at hlength ⊢; omega) h

/-- If the words run out at the end of a source, they do not end in an error. -/
theorem fault_eq_none_of_unexpectedEnd (h : ofTokens fault [] ts = .error .unexpectedEnd) :
    fault = none := by
  have hrefusal := eq_refusal_of_ofTokens h
  rw [refusal.eq_def] at hrefusal
  cases fault with
  | none => rfl
  | some fault =>
      split at hrefusal
      · cases hrefusal
      · split at hrefusal <;> cases hrefusal

/-- A source that ends before its expression does is completed by a word and closing
parentheses on a new line. -/
theorem exists_ok_of_unexpectedEnd (h : parse s = .error .unexpectedEnd) :
    ∃ t e, parse (s ++ t) = .ok e := by
  rw [parse_eq] at h
  let reading := (Reader.ofString s).readAll
  have hfault : reading.fault = none := fault_eq_none_of_unexpectedEnd h
  let closers := List.replicate reading.tokens.length ')'
  obtain ⟨later, htokens, -, hlater, -⟩ :=
    Reader.readAll_extend (c := '\n') (by decide) ('x' :: closers) (Reader.ofString s) rfl
  obtain ⟨x, xs, hxs, hx, hlength, hclose⟩ := Reader.readAll_letter_close reading.tokens.length
    ((Reader.ofString s).sourceEnd + Char.utf8Size '\n')
  have hmore : later.tokens = x :: xs := by
    rw [hlater hfault]
    exact hxs
  refine ⟨String.ofList ('\n' :: 'x' :: closers), ?_⟩
  rw [parse_eq, Reader.ofString_append, String.toList_ofList, htokens, hmore]
  have hend : ofTokens none [] reading.tokens = .error .unexpectedEnd := by
    rw [← hfault]
    exact h
  exact exists_ofTokens_eq_ok hx hclose (Nat.le_of_eq ((Nat.zero_add _).trans hlength.symm)) hend

/-- **Input line by line.** What parsing says of a source stays when another line follows, with
the same expression or the same error at the same place, unless the error is that the source is
incomplete. A source that ends before its expression does can be completed. -/
theorem parse_append_newline (s : String) :
    (∀ e, parse s = .ok e → ∀ t, parse (s ++ "\n" ++ t) = .ok e) ∧
    (∀ err, parse s = .error err → err.isIncomplete = false →
      ∀ t, parse (s ++ "\n" ++ t) = .error err) ∧
    (parse s = .error .unexpectedEnd → ∃ t e, parse (s ++ t) = .ok e) := by
  have hnewline : isBlank '\n' = true := by decide
  refine ⟨fun e he t => ?_, fun err herr hcomplete t => ?_, exists_ok_of_unexpectedEnd⟩
  · have hs : ∀ err, parse s = .error err → err.isIncomplete = false := by simp [he]
    exact (parse_append_of_settled hnewline hs t).trans he
  · have hs : ∀ err', parse s = .error err' → err'.isIncomplete = false := by simp_all
    exact (parse_append_of_settled hnewline hs t).trans herr

/-- A form with a word behind it, an escape that is malformed and a form without an operator meet
the three conditions. -/
theorem parse_append_newline_at_end :
    (parse "(f x) y" = .ok (.form "f" [.atom .symbol "x"]) ∧
      ∀ t, parse ("(f x) y" ++ "\n" ++ t) = .ok (.form "f" [.atom .symbol "x"])) ∧
    (parse "(f \"\\q\"" = .error (.lex (.malformedEscape 4 'q')) ∧
      ∀ t, parse ("(f \"\\q\"" ++ "\n" ++ t) = .error (.lex (.malformedEscape 4 'q'))) ∧
    (parse "(f (" = .error .unexpectedEnd ∧ ∃ t e, parse ("(f (" ++ t) = .ok e) := by
  have hform : parse "(f x) y" = .ok (.form "f" [.atom .symbol "x"]) := by decide +kernel
  have hescape : parse "(f \"\\q\"" = .error (.lex (.malformedEscape 4 'q')) := by decide +kernel
  have hopen : parse "(f (" = .error .unexpectedEnd := by decide +kernel
  exact ⟨⟨hform, (parse_append_newline _).1 _ hform⟩,
    ⟨hescape, (parse_append_newline _).2.1 _ hescape rfl⟩,
    ⟨hopen, (parse_append_newline _).2.2 hopen⟩⟩

end Expr

end Formula
