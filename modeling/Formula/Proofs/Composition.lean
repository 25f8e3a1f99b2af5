import Formula.Proofs.Spans

/-!
# Tokens of sources in parts

Where a token stands in a source matters to its offset only: a reader that starts further behind
yields the same tokens, or the same error, with offsets further behind (`Reader.readAll_shift`).
Blanks between two sources keep their tokens apart. So the tokens of a source in two parts with
blanks between them are those of the parts (`tokenize_append_blanks`).
-/

namespace Formula

open Text

/-! ## Shifts -/

/-- The token at an offset that is larger by `n` bytes. -/
def Token.shift (n : Nat) (t : Token) : Token :=
  { t with offset := t.offset + n }

/-- The error at an offset that is larger by `n` bytes. -/
def LexError.shift (n : Nat) : LexError → LexError
  | unterminatedString offset => unterminatedString (offset + n)
  | malformedEscape offset escape => malformedEscape (offset + n) escape

/-- What a reader yields, at an offset that is larger by `n` bytes. -/
def shiftYield (n : Nat) : Except LexError Token → Except LexError Token
  | .ok t => .ok (t.shift n)
  | .error fault => .error (fault.shift n)

/-- The text of a literal does not depend on where it stands, and an error moves with it. -/
theorem Escape.decodeFrom_shift (n offset : Nat) (found cs : List Char) :
    decodeFrom (offset + n) found cs =
      (decodeFrom offset found cs).mapError (LexError.shift n) := by
  fun_induction decodeFrom offset found cs with
  | case1 offset found =>
      rw [decodeFrom]
      rfl
  | case2 offset found cs denoted width hread ih =>
      rw [decodeFrom, hread]
      dsimp only
      rw [← ih]
      congr 1
      omega
  | case3 offset found cs hread =>
      rw [decodeFrom, hread]
      rfl
  | case4 offset found c cs hc ih =>
      rw [decodeFrom, ← ih]
      · congr 1
        omega
      · exact hc

namespace Reader

/-- The reader at a position that is larger by `n` bytes. -/
def shift (n : Nat) (r : Reader) : Reader :=
  { r with position := r.position + n }

/-- A word further behind is the same word. -/
theorem readWord_shift (n : Nat) (before : Reader) (offset : Nat) (cs : List Char) :
    readWord (before.shift n) (offset + n) cs =
      ((readWord before offset cs).1.map (shiftYield n),
        (readWord before offset cs).2.shift n) := by
  fun_cases readWord before offset cs with
  | case1 => rfl
  | case2 cs | case3 cs =>
      rw [readWord, Nat.add_right_comm]
      rfl
  | case4 cs hbody =>
      simp only [readWord, hbody]
      rfl
  | case5 cs body rest hbody stop fault htext =>
      have hdecode : Escape.decode (offset + n + 1) body = .error (fault.shift n) := by
        rw [Nat.add_right_comm, Escape.decode, Escape.decodeFrom_shift, ← Escape.decode, htext]
        rfl
      have hstop : offset + n + byteLength body + 2 = stop + n := by omega
      simp only [readWord, hbody, hdecode, hstop]
      rfl
  | case6 cs body rest hbody stop text htext =>
      have hdecode : Escape.decode (offset + n + 1) body = .ok text := by
        rw [Nat.add_right_comm, Escape.decode, Escape.decodeFrom_shift, ← Escape.decode, htext]
        rfl
      have hstop : offset + n + byteLength body + 2 = stop + n := by omega
      simp only [readWord, hbody, hdecode, hstop]
      rfl
  | case7 c cs hopen hclose hquote word =>
      rw [readWord, Nat.add_right_comm]
      · rfl
      · exact hopen
      · exact hclose
      · exact hquote

/-- A reader further behind yields the same, further behind. -/
theorem next_shift (n : Nat) (r : Reader) :
    (r.shift n).next = (r.next.1.map (shiftYield n), r.next.2.shift n) := by
  by_cases hr : r.stopped = true
  · rw [next_of_stopped hr, next_of_stopped (by exact hr)]
    rfl
  · have hr' : r.stopped = false := by simpa using hr
    rw [next_of_running hr', next_of_running (by exact hr'), ← readWord_shift, ← Nat.add_right_comm]
    rfl

/-- All tokens of a reader further behind, and its error, are the same, further behind. -/
theorem readAll_shift (n : Nat) (r : Reader) :
    (r.shift n).readAll.tokens = r.readAll.tokens.map (Token.shift n) ∧
      (r.shift n).readAll.fault = r.readAll.fault.map (LexError.shift n) := by
  induction r using readAll_induction with
  | @atEnd r after h =>
      have hnext := next_shift n r
      rw [h] at hnext
      rw [readAll_of_end hnext]
      exact ⟨rfl, rfl⟩
  | @atFault r fault after h =>
      have hnext := next_shift n r
      rw [h] at hnext
      rw [readAll_of_fault hnext]
      exact ⟨rfl, rfl⟩
  | @atToken r t after h ih =>
      have hnext := next_shift n r
      rw [h] at hnext
      rw [readAll_of_token hnext]
      exact ⟨congrArg (t.shift n :: ·) ih.1, ih.2⟩

/-! ## Blanks -/

/-- Blanks in front of a source yield nothing. -/
theorem readAll_blanks {blanks : List Char} (hblank : ∀ c ∈ blanks, isBlank c = true)
    (cs : List Char) (position : Nat) :
    (Reader.mk (blanks ++ cs) position false).readAll.tokens =
        (Reader.mk cs (position + byteLength blanks) false).readAll.tokens ∧
      (Reader.mk (blanks ++ cs) position false).readAll.fault =
        (Reader.mk cs (position + byteLength blanks) false).readAll.fault := by
  induction blanks generalizing position with
  | nil => exact ⟨rfl, rfl⟩
  | cons c blanks ih =>
      obtain ⟨hc, hblank⟩ := List.forall_mem_cons.mp hblank
      have hend : (Reader.mk [] position false).next.1 = none := rfl
      obtain ⟨htokens, hfault⟩ := readAll_extend_of_end hc rfl hend (blanks ++ cs)
      obtain ⟨htokens', hfault'⟩ := ih hblank (position + c.utf8Size)
      rw [byteLength_cons, ← Nat.add_assoc]
      exact ⟨htokens.trans htokens', hfault.trans hfault'⟩

end Reader

/-! ## Sources in two parts -/

/-- A source with an error is read up to it. -/
theorem tokenize_eq_error_iff {source : String} {fault : LexError} :
    tokenize source = .error fault ↔ (Reader.ofString source).readAll.fault = some fault := by
  unfold tokenize
  dsimp only
  cases (Reader.ofString source).readAll.fault <;> simp

/-- What is read from a source in two parts with blanks between them, if the first part has no
error. -/
theorem readAll_append_blanks {s w t : String} (hw : w ≠ "")
    (hblank : ∀ c ∈ w.toList, isBlank c = true) (hs : (Reader.ofString s).readAll.fault = none) :
    (Reader.ofString (s ++ w ++ t)).readAll.tokens = (Reader.ofString s).readAll.tokens ++
        (Reader.ofString t).readAll.tokens.map (Token.shift (s ++ w).utf8ByteSize) ∧
      (Reader.ofString (s ++ w ++ t)).readAll.fault =
        (Reader.ofString t).readAll.fault.map (LexError.shift (s ++ w).utf8ByteSize) := by
  obtain ⟨c, blanks, hcons⟩ : ∃ c blanks, w.toList = c :: blanks :=
    List.exists_cons_of_ne_nil (by simpa using hw)
  rw [hcons] at hblank
  obtain ⟨hc, hblank⟩ := List.forall_mem_cons.mp hblank
  have hsource : Reader.ofString (s ++ w ++ t) =
      (Reader.ofString s).extend (c :: (blanks ++ t.toList)) := by
    simp [Reader.ofString, Reader.extend, hcons]
  obtain ⟨later, htokens, hfault, hlater, -⟩ :=
    Reader.readAll_extend hc (blanks ++ t.toList) (Reader.ofString s) rfl
  -- Behind the first blank the others are skipped, and the second part is read at its place.
  obtain ⟨hskip, hskip'⟩ := Reader.readAll_blanks hblank t.toList
    ((Reader.ofString s).sourceEnd + c.utf8Size)
  have hplace : (Reader.mk t.toList ((Reader.ofString s).sourceEnd + c.utf8Size + byteLength blanks)
      false) = (Reader.ofString t).shift (s ++ w).utf8ByteSize := by
    have hbytes : (s ++ w).utf8ByteSize =
        (Reader.ofString s).sourceEnd + c.utf8Size + byteLength blanks := by
      rw [← byteLength_toList, String.toList_append, hcons, byteLength_append, byteLength_cons,
        ← Nat.add_assoc]
      simp [Reader.sourceEnd, Reader.ofString]
    rw [hbytes]
    simp [Reader.ofString, Reader.shift]
  obtain ⟨hshift, hshift'⟩ := Reader.readAll_shift (s ++ w).utf8ByteSize (Reader.ofString t)
  rw [hlater hs] at htokens hfault
  rw [hplace] at hskip hskip'
  rw [hsource, htokens, hfault]
  exact ⟨congrArg _ (hskip.trans hshift), hskip'.trans hshift'⟩

/-- **Blanks keep the tokens of two sources apart.** If the first source has no error, the tokens
of both with blanks between them are those of the first and those of the second, and an error of the
second is an error of both. What belongs to the second source is found behind the bytes of the first
and the blanks. -/
theorem tokenize_append_blanks {s w : String} {ts : List Token} (hs : tokenize s = .ok ts)
    (hw : w ≠ "") (hblank : ∀ c ∈ w.toList, isBlank c = true) (t : String) :
    (∀ us, tokenize t = .ok us →
      tokenize (s ++ w ++ t) = .ok (ts ++ us.map (Token.shift (s ++ w).utf8ByteSize))) ∧
    (∀ fault, tokenize t = .error fault →
      tokenize (s ++ w ++ t) = .error (fault.shift (s ++ w).utf8ByteSize)) := by
  obtain ⟨hnone, rfl⟩ := tokenize_eq_ok_iff.mp hs
  obtain ⟨htokens, hfault⟩ := readAll_append_blanks (t := t) hw hblank hnone
  constructor
  · intro us ht
    obtain ⟨hnone', rfl⟩ := tokenize_eq_ok_iff.mp ht
    rw [hnone'] at hfault
    exact tokenize_eq_ok_iff.mpr ⟨hfault, htokens⟩
  · intro fault ht
    rw [tokenize_eq_error_iff.mp ht] at hfault
    exact tokenize_eq_error_iff.mpr hfault

/-- A word and a literal behind characters of two and of three bytes, and an escape behind them that
is malformed. -/
theorem tokenize_append_blanks_wide :
    tokenize "(é" = .ok [⟨"(", .parenthesis, 0⟩, ⟨"é", .symbol, 1⟩] ∧
    tokenize "(é\u3000 \"\\n\")" = .ok [⟨"(", .parenthesis, 0⟩, ⟨"é", .symbol, 1⟩,
      ⟨"\n", .string, 7⟩, ⟨")", .parenthesis, 11⟩] ∧
    tokenize "(é\u3000 x \"\\q\"" = .error (.malformedEscape 10 'q') := by
  have hs : tokenize "(é" = .ok [⟨"(", .parenthesis, 0⟩, ⟨"é", .symbol, 1⟩] := by decide +kernel
  have hblank : ∀ c ∈ "\u3000 ".toList, isBlank c = true := List.all_eq_true.mp (by decide +kernel)
  have htext : tokenize "\"\\n\")" = .ok [⟨"\n", .string, 0⟩, ⟨")", .parenthesis, 4⟩] := by
    decide +kernel
  have hescape : tokenize "x \"\\q\"" = .error (.malformedEscape 3 'q') := by decide +kernel
  have hliteral := (tokenize_append_blanks hs (by decide) hblank _).1 _ htext
  have hfault := (tokenize_append_blanks hs (by decide) hblank _).2 _ hescape
  have hbytes : ("(é" ++ "\u3000 ").utf8ByteSize = 7 := by decide +kernel
  have hsource : "(é" ++ "\u3000 " ++ "\"\\n\")" = "(é\u3000 \"\\n\")" := by decide +kernel
  have hsource' : "(é" ++ "\u3000 " ++ "x \"\\q\"" = "(é\u3000 x \"\\q\"" := by decide +kernel
  rw [hsource, hbytes] at hliteral
  rw [hsource', hbytes] at hfault
  exact ⟨hs, hliteral, hfault⟩

end Formula
