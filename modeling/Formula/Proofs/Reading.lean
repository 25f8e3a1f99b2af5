import Formula.Token.Reader
import Mathlib.Data.List.TakeWhile

/-!
# What a reader yields

The tokens of a source depend on what has been read only. Here the source of a reader is made
longer by a blank and more text after it (`Reader.extend`): the tokens read before stay, and so
does a malformed escape, while a source that was read to its end is read on from behind the
blank (`readAll_extend`).

`Lexes` says what a token looks like in the source, and `readAll_induction` is induction over the
tokens of a reader.
-/

namespace Formula

open Text

/-! ## String literals -/

/-- A literal is its body, the closing quote and what follows it. -/
theorem eq_of_literalBodyFrom? {acc cs body rest : List Char}
    (h : literalBodyFrom? acc cs = some (body, rest)) :
    acc.reverse ++ cs = body ++ '"' :: rest := by
  fun_induction literalBodyFrom? acc cs with
  | case1 => simp at h
  | case2 acc cs =>
      obtain ⟨rfl, rfl⟩ := by simpa using h
      rfl
  | case3 acc c cs ih => simpa using ih h
  | case4 acc c cs _ _ ih => simpa using ih h

/-- A closed literal is not changed by what is written behind it. -/
theorem literalBodyFrom?_append {acc cs body rest : List Char} (ds : List Char)
    (h : literalBodyFrom? acc cs = some (body, rest)) :
    literalBodyFrom? acc (cs ++ ds) = some (body, rest ++ ds) := by
  fun_induction literalBodyFrom? acc cs with
  | case1 => simp at h
  | case2 acc cs =>
      obtain ⟨rfl, rfl⟩ := by simpa using h
      rfl
  | case3 acc c cs ih => simpa [literalBodyFrom?] using ih h
  | case4 acc c cs hquote hescape ih =>
      have hcs : cs ≠ [] := by
        rintro rfl
        simp [literalBodyFrom?] at h
      rw [List.cons_append, literalBodyFrom?, ih h]
      · exact hquote
      · rintro d ds' rfl hds
        obtain ⟨b, bs, rfl⟩ := List.exists_cons_of_ne_nil hcs
        exact hescape b bs rfl rfl

/-- A closed literal is read in the same way if the source goes on. -/
theorem literalBody?_append {cs body rest : List Char} (ds : List Char)
    (h : literalBody? cs = some (body, rest)) : literalBody? (cs ++ ds) = some (body, rest ++ ds) :=
  literalBodyFrom?_append ds h

/-! ## Single tokens -/

theorem isWordChar_iff (c : Char) :
    isWordChar c = true ↔ isBlank c = false ∧ c ≠ '(' ∧ c ≠ ')' := by
  simp [isWordChar, and_assoc]

theorem wordKind_ne_parenthesis (word : List Char) : wordKind word ≠ .parenthesis := by
  unfold wordKind
  split_ifs <;> decide

theorem wordKind_ne_string (word : List Char) : wordKind word ≠ .string := by
  unfold wordKind
  split_ifs <;> decide

/-- A run of characters ends at the end or at a character that is not part of it. -/
theorem not_of_mem_head?_dropWhile {p : Char → Bool} {cs : List Char} {c : Char}
    (h : c ∈ (cs.dropWhile p).head?) : p c = false := by
  have hhead := List.head?_dropWhile_not p cs
  rw [Option.mem_def.mp h] at hhead
  simpa using hhead

/-- The token at the start of a source that lies at `offset` and does not start with a blank, and
the reader behind it. -/
inductive Lexes (offset : Nat) : List Char → Token → Reader → Prop
  | opening (cs : List Char) :
      Lexes offset ('(' :: cs) ⟨"(", .parenthesis, offset⟩ ⟨cs, offset + 1, false⟩
  | closing (cs : List Char) :
      Lexes offset (')' :: cs) ⟨")", .parenthesis, offset⟩ ⟨cs, offset + 1, false⟩
  | literal {cs body rest text : List Char} (hbody : literalBody? cs = some (body, rest))
      (htext : Escape.decode (offset + 1) body = .ok text) :
      Lexes offset ('"' :: cs) ⟨String.ofList text, .string, offset⟩
        ⟨rest, offset + byteLength body + 2, false⟩
  | word {c : Char} (cs : List Char) (hc : c ≠ '(' ∧ c ≠ ')' ∧ c ≠ '"') :
      Lexes offset (c :: cs)
        ⟨String.ofList (c :: cs.takeWhile isWordChar), wordKind (c :: cs.takeWhile isWordChar),
          offset⟩
        ⟨cs.dropWhile isWordChar, offset + byteLength (c :: cs.takeWhile isWordChar), false⟩

namespace Reader

variable {r before after : Reader} {offset : Nat} {t : Token} {fault : LexError} {c : Char}
  {cs ds : List Char}

/-- The byte offset at which the source of a reader ends. -/
def sourceEnd (r : Reader) : Nat :=
  r.position + byteLength r.rest

/-- A reader that yields a token goes on. -/
theorem stopped_of_lexes (h : Lexes offset cs t after) : after.stopped = false := by
  cases h <;> rfl

/-- A token and what is left behind it take up the source. -/
theorem sourceEnd_of_lexes (h : Lexes offset cs t after) :
    after.sourceEnd = offset + byteLength cs := by
  cases h with
  | opening | closing =>
      simp only [sourceEnd, byteLength_cons]
      rw [Nat.add_assoc]
      rfl
  | @literal cs body rest text hbody htext =>
      have hcs : cs = body ++ '"' :: rest := by simpa using eq_of_literalBodyFrom? hbody
      have hquote : Char.utf8Size '"' = 1 := rfl
      simp only [sourceEnd, hcs, byteLength_cons, byteLength_append, hquote]
      omega
  | @word c cs hc =>
      have hcs : byteLength cs =
          byteLength (cs.takeWhile isWordChar) + byteLength (cs.dropWhile isWordChar) := by
        rw [← byteLength_append, List.takeWhile_append_dropWhile]
      simp only [sourceEnd, byteLength_cons, hcs]
      omega

/-- A token of the kind of parentheses is one of the two. -/
theorem isOpen_or_isClose_of_lexes (h : Lexes offset cs t after) (ht : t.kind = .parenthesis) :
    t.isOpen = true ∨ t.isClose = true := by
  cases h with
  | opening => exact .inl rfl
  | closing => exact .inr rfl
  | literal => cases ht
  | word => exact absurd ht (wordKind_ne_parenthesis _)

/-- Every token that a reader yields is a token of its source. -/
theorem lexes_of_readWord (h : readWord before offset cs = (some (.ok t), after)) :
    Lexes offset cs t after := by
  unfold readWord at h
  split at h
  · simp at h
  · obtain ⟨⟨⟩, ⟨⟩⟩ := Prod.mk.inj h
    exact .opening _
  · obtain ⟨⟨⟩, ⟨⟩⟩ := Prod.mk.inj h
    exact .closing _
  · split at h
    · simp at h
    · rename_i hbody
      dsimp only at h
      split at h
      · simp at h
      · rename_i htext
        obtain ⟨⟨⟩, ⟨⟩⟩ := Prod.mk.inj h
        exact .literal hbody htext
  · rename_i hopen hclose hquote
    obtain ⟨⟨⟩, ⟨⟩⟩ := Prod.mk.inj h
    exact .word _ ⟨hopen, hclose, hquote⟩

theorem next_of_running (h : r.stopped = false) :
    r.next = readWord r (r.position + byteLength (r.rest.takeWhile isBlank))
      (r.rest.dropWhile isBlank) := by
  simp [next, h]

/-- A reader yields the token that its source starts with after blanks. -/
theorem lexes_of_next (h : r.next = (some (.ok t), after)) :
    Lexes (r.position + byteLength (r.rest.takeWhile isBlank)) (r.rest.dropWhile isBlank) t
      after := by
  unfold next at h
  split at h
  · cases h
  · exact lexes_of_readWord h

/-- Reading a token does not move the end of the source. -/
theorem sourceEnd_of_next (h : r.next = (some (.ok t), after)) : after.sourceEnd = r.sourceEnd := by
  rw [sourceEnd_of_lexes (lexes_of_next h), Nat.add_assoc, ← byteLength_append,
    List.takeWhile_append_dropWhile]
  rfl

/-! ## All tokens -/

/-- Tokens found earlier stand before all others. -/
theorem readAllFrom_append (found earlier : List Token) (r : Reader) :
    readAllFrom (found ++ earlier) r =
      ⟨earlier.reverse ++ (readAllFrom found r).tokens, (readAllFrom found r).fault,
        (readAllFrom found r).final⟩ := by
  fun_induction readAllFrom found r with
  | case1 found r after h =>
      rw [readAllFrom]
      split <;> simp_all
  | case2 found r fault after h =>
      rw [readAllFrom]
      split <;> simp_all
  | case3 found r t after h hlt ih =>
      rw [readAllFrom]
      split <;> simp_all

theorem readAll_of_end (h : r.next = (none, after)) : r.readAll = ⟨[], none, after⟩ := by
  rw [readAll, readAllFrom]
  split <;> simp_all

theorem readAll_of_fault (h : r.next = (some (.error fault), after)) :
    r.readAll = ⟨[], some fault, after⟩ := by
  rw [readAll, readAllFrom]
  split <;> simp_all

/-- A token is followed by the tokens behind it. -/
theorem readAll_of_token (h : r.next = (some (.ok t), after)) :
    r.readAll = ⟨t :: after.readAll.tokens, after.readAll.fault, after.readAll.final⟩ := by
  have hr : r.readAll = readAllFrom [t] after := by
    rw [readAll, readAllFrom]
    split <;> simp_all
  rw [hr]
  exact readAllFrom_append [] [t] after

/-- Induction over what a reader yields: the end, an error, or a token and what is yielded after
it. -/
theorem readAll_induction {P : Reader → Reading → Prop}
    (atEnd : ∀ {r after}, r.next = (none, after) → P r ⟨[], none, after⟩)
    (atFault : ∀ {r fault after}, r.next = (some (.error fault), after) →
      P r ⟨[], some fault, after⟩)
    (atToken : ∀ {r t after}, r.next = (some (.ok t), after) → P after after.readAll →
      P r ⟨t :: after.readAll.tokens, after.readAll.fault, after.readAll.final⟩)
    (r : Reader) : P r r.readAll := by
  induction hn : r.rest.length using Nat.strongRecOn generalizing r with
  | ind n ih =>
    rcases hr : r.next with ⟨_ | fault | t, after⟩
    · rw [readAll_of_end hr]
      exact atEnd hr
    · rw [readAll_of_fault hr]
      exact atFault hr
    · rw [readAll_of_token hr]
      exact atToken hr (ih _ (hn ▸ length_rest_lt_of_next hr) after rfl)

/-- All tokens of the kind of parentheses are parentheses. -/
theorem isOpen_or_isClose_of_mem_tokens (r : Reader) :
    ∀ t ∈ r.readAll.tokens, t.kind = .parenthesis → t.isOpen = true ∨ t.isClose = true := by
  induction r using readAll_induction with
  | atEnd | atFault => simp
  | atToken h ih =>
      intro t ht hkind
      rcases List.mem_cons.1 ht with rfl | ht
      · exact isOpen_or_isClose_of_lexes (lexes_of_next h) hkind
      · exact ih t ht hkind

/-! ## Longer sources -/

/-- A reader whose source goes on with more characters. -/
def extend (r : Reader) (cs : List Char) : Reader :=
  { r with rest := r.rest ++ cs }

/-- A run ends where it ends, whatever comes behind a character that is not part of it. -/
theorem takeWhile_append_cons {p : Char → Bool} (hc : p c = false) (cs ds : List Char) :
    (cs ++ c :: ds).takeWhile p = cs.takeWhile p := by
  induction cs with
  | nil => simp [hc]
  | cons a as ih => by_cases ha : p a = true <;> simp [ha, ih]

/-- What is left behind a run goes on as the source does. -/
theorem dropWhile_append_cons {p : Char → Bool} (hc : p c = false) (cs ds : List Char) :
    (cs ++ c :: ds).dropWhile p = cs.dropWhile p ++ c :: ds := by
  induction cs with
  | nil => simp [hc]
  | cons a as ih => by_cases ha : p a = true <;> simp [ha, ih]

theorem isWordChar_of_isBlank (hc : isBlank c = true) : isWordChar c = false := by
  simp [isWordChar, hc]

/-- A token, or an escape that is malformed, is read in the same way if the source goes on after
a blank. -/
theorem readWord_append (hc : isBlank c = true) (hcs : cs ≠ [])
    (hclosed : ∀ o, (readWord before offset cs).1 ≠ some (.error (.unterminatedString o)))
    (before' : Reader) (ds : List Char) :
    readWord before' offset (cs ++ c :: ds) =
      ((readWord before offset cs).1, (readWord before offset cs).2.extend (c :: ds)) := by
  have hword := isWordChar_of_isBlank hc
  fun_cases readWord before offset cs with
  | case1 => contradiction
  | case2 cs => rfl
  | case3 cs => rfl
  | case4 cs hbody => simp [readWord, hbody] at hclosed
  | case5 cs body rest hbody stop fault htext =>
      simp only [List.cons_append, readWord, literalBody?_append _ hbody, htext]
      rfl
  | case6 cs body rest hbody stop text htext =>
      simp only [List.cons_append, readWord, literalBody?_append _ hbody, htext]
      rfl
  | case7 a cs hopen hclose hquote word =>
      rw [List.cons_append, readWord, takeWhile_append_cons hword, dropWhile_append_cons hword]
      · rfl
      · exact hopen
      · exact hclose
      · exact hquote

/-- A reader that does not stop at an end or in an open literal reads on in the same way if its
source goes on after a blank. -/
theorem next_extend (hc : isBlank c = true) (hr : r.stopped = false) (hsome : r.next.1 ≠ none)
    (hclosed : ∀ o, r.next.1 ≠ some (.error (.unterminatedString o))) (cs : List Char) :
    (r.extend (c :: cs)).next = (r.next.1, r.next.2.extend (c :: cs)) := by
  have hrest : r.rest.dropWhile isBlank ≠ [] := by
    intro h
    rw [next_of_running hr, h] at hsome
    exact hsome rfl
  have htake : (r.rest ++ c :: cs).takeWhile isBlank = r.rest.takeWhile isBlank := by
    have hlength : (r.rest.takeWhile isBlank).length ≠ r.rest.length := by
      intro h
      have hsplit := congrArg List.length
        (List.takeWhile_append_dropWhile (p := isBlank) (l := r.rest))
      rw [List.length_append] at hsplit
      exact hrest (List.length_eq_zero_iff.1 (by omega))
    rw [List.takeWhile_append, if_neg hlength]
  have hdrop : (r.rest ++ c :: cs).dropWhile isBlank = r.rest.dropWhile isBlank ++ c :: cs := by
    rw [List.dropWhile_append, if_neg (by simpa using hrest)]
  rw [next_of_running hr] at hclosed ⊢
  rw [next_of_running (by exact hr), extend, htake, hdrop]
  exact readWord_append hc hrest hclosed _ _

/-- Only the end of a source yields nothing. -/
theorem eq_nil_of_readWord (h : (readWord before offset cs).1 = none) : cs = [] := by
  revert h
  fun_cases readWord before offset cs <;> simp

/-- The reader before the blanks matters only to where an open literal leaves it. -/
theorem readWord_congr (before before' : Reader) (offset : Nat) (cs : List Char) :
    (readWord before' offset cs).1 = (readWord before offset cs).1 ∧
      ∀ {t after}, readWord before offset cs = (some (.ok t), after) →
        readWord before' offset cs = (some (.ok t), after) := by
  by_cases hopen : ∃ ds, cs = '"' :: ds ∧ literalBody? ds = none
  · obtain ⟨ds, rfl, hds⟩ := hopen
    simp [readWord, hds]
  · have heq : readWord before' offset cs = readWord before offset cs := by
      unfold readWord
      split
      · rfl
      · rfl
      · rfl
      · split
        · exact absurd ⟨_, rfl, ‹_›⟩ hopen
        · rfl
      · rfl
    exact ⟨congrArg Prod.fst heq, heq.trans⟩

/-- A reader behind a blank that follows the source, with `cs` left to read. -/
def behind (r : Reader) (c : Char) (cs : List Char) : Reader :=
  ⟨cs, r.sourceEnd + c.utf8Size, false⟩

/-- At the end of a source, reading goes on behind the blank that follows. -/
theorem next_extend_of_end (hc : isBlank c = true) (hr : r.stopped = false) (hend : r.next.1 = none)
    (cs : List Char) :
    (r.extend (c :: cs)).next =
      readWord (r.extend (c :: cs)) ((r.behind c cs).position + byteLength (cs.takeWhile isBlank))
        (cs.dropWhile isBlank) := by
  have hblank : ∀ a ∈ r.rest, isBlank a = true := by
    rw [next_of_running hr] at hend
    exact List.dropWhile_eq_nil_iff.1 (eq_nil_of_readWord hend)
  have htake : (r.rest ++ c :: cs).takeWhile isBlank = r.rest ++ c :: cs.takeWhile isBlank := by
    rw [List.takeWhile_append_of_pos hblank, List.takeWhile_cons_of_pos hc]
  have hdrop : (r.rest ++ c :: cs).dropWhile isBlank = cs.dropWhile isBlank := by
    rw [List.dropWhile_append_of_pos hblank, List.dropWhile_cons_of_pos hc]
  have hoffset : r.position + byteLength (r.rest ++ c :: cs.takeWhile isBlank) =
      (r.behind c cs).position + byteLength (cs.takeWhile isBlank) := by
    simp only [behind, sourceEnd, byteLength_append, byteLength_cons]
    omega
  rw [next_of_running (by exact hr), extend, htake, hdrop, hoffset]

/-- At the end of a source, the tokens behind the blank that follows are read. -/
theorem readAll_extend_of_end (hc : isBlank c = true) (hr : r.stopped = false)
    (hend : r.next.1 = none) (cs : List Char) :
    (r.extend (c :: cs)).readAll.tokens = (r.behind c cs).readAll.tokens ∧
      (r.extend (c :: cs)).readAll.fault = (r.behind c cs).readAll.fault := by
  have hextend := next_extend_of_end hc hr hend cs
  have hbehind : (r.behind c cs).next = readWord (r.behind c cs)
      ((r.behind c cs).position + byteLength (cs.takeWhile isBlank)) (cs.dropWhile isBlank) :=
    next_of_running rfl
  obtain ⟨hfirst, htoken⟩ := readWord_congr (r.behind c cs) (r.extend (c :: cs))
    ((r.behind c cs).position + byteLength (cs.takeWhile isBlank)) (cs.dropWhile isBlank)
  rw [← hextend, ← hbehind] at hfirst htoken
  rcases hnext : (r.behind c cs).next with ⟨_ | fault | t, after⟩
  · rw [readAll_of_end hnext, readAll_of_end (Prod.ext (hfirst.trans (by rw [hnext])) rfl)]
    exact ⟨rfl, rfl⟩
  · rw [readAll_of_fault hnext, readAll_of_fault (Prod.ext (hfirst.trans (by rw [hnext])) rfl)]
    exact ⟨rfl, rfl⟩
  · rw [readAll_of_token hnext, readAll_of_token (htoken hnext)]
    exact ⟨rfl, rfl⟩

/-- If the source goes on after a blank, the tokens stay and others may follow. Behind a source
that was read to its end these are the tokens behind the blank; behind a malformed escape there
are none and the error stays. -/
theorem readAll_extend (hc : isBlank c = true) (cs : List Char) (r : Reader)
    (hr : r.stopped = false) :
    ∃ later : Reading,
      (r.extend (c :: cs)).readAll.tokens = r.readAll.tokens ++ later.tokens ∧
      (r.extend (c :: cs)).readAll.fault = later.fault ∧
      (r.readAll.fault = none → later = (r.behind c cs).readAll) ∧
      ∀ o e, r.readAll.fault = some (.malformedEscape o e) →
        later.tokens = [] ∧ later.fault = r.readAll.fault := by
  revert hr
  induction r using readAll_induction with
  | @atEnd r after h =>
      intro hr
      obtain ⟨htokens, hfault⟩ := readAll_extend_of_end hc hr (by rw [h]) cs
      exact ⟨_, htokens, hfault, fun _ => rfl, by simp⟩
  | @atFault r fault after h =>
      intro hr
      refine ⟨(r.extend (c :: cs)).readAll, rfl, rfl, by simp, ?_⟩
      rintro o e ⟨⟩
      have hnext := next_extend hc hr (by simp [h]) (by simp [h]) cs
      rw [h] at hnext
      rw [readAll_of_fault hnext]
      exact ⟨rfl, rfl⟩
  | @atToken r t after h ih =>
      intro hr
      obtain ⟨later, htokens, hfault, hend, hmalformed⟩ := ih (stopped_of_lexes (lexes_of_next h))
      have hnext := next_extend hc hr (by simp [h]) (by simp [h]) cs
      rw [h] at hnext
      have hbehind : after.behind c cs = r.behind c cs := by
        simp only [behind, sourceEnd_of_next h]
      rw [readAll_of_token hnext, ← hbehind]
      exact ⟨later, congrArg (t :: ·) htokens, hfault, hend, hmalformed⟩

end Reader

end Formula
