import Formula.Proofs.Scanning

/-!
# Readers from call to call

What a reader has not read yet is always the source from its position on. So the position is within
the source and between two characters, and a scanner can read on from it. Each call of a reader
takes one of a few steps (`Reader.Step`), and none of them goes back. A step that yields something
uses up bytes or stops the reader, so there are at most as many of them as there are bytes
(`Reader.GoesThrough.exists_yield_count`).
-/

namespace Formula

open Text

namespace Reader

/-! ## Steps -/

/-- A reader that goes through a source, be it stopped or not: what it has not read yet is the
source from its position on. -/
def GoesThrough (r : Reader) (source : List Char) : Prop :=
  IsSlice source r.position (byteLength source) r.rest

/-- What a call of a reader in a source can do: the item that it yields and the reader after it. -/
inductive Step (source : List Char) (r : Reader) : Option (Except LexError Token) → Reader → Prop
  /-- A reader that has stopped stays as it is. -/
  | stay (hstopped : r.stopped = true) : Step source r none r
  /-- Behind the last token the reader stops at the end of the source. -/
  | finish (hrunning : r.stopped = false) : Step source r none ⟨[], byteLength source, true⟩
  /-- A token takes up some of the source, and the reader goes on behind it. -/
  | token {t : Token} {after : Reader} (hrunning : r.stopped = false)
      (hafter : after.GoesThrough source) (hgoes : after.stopped = false)
      (hlt : r.position < after.position) : Step source r (some (.ok t)) after
  /-- At a literal that is not closed the reader stops where it was. -/
  | unclosed {start : Nat} {gap tail : List Char} (hrunning : r.stopped = false)
      (hgap : IsSlice source r.position start gap) (hblank : ∀ c ∈ gap, isBlank c = true)
      (hopen : IsSlice source start (byteLength source) ('"' :: tail))
      (htail : ∀ body rest, IsBody body → tail ≠ body ++ '"' :: rest) :
      Step source r (some (.error (.unterminatedString start))) { r with stopped := true }
  /-- At an escape that is malformed the reader stops behind the literal. -/
  | malformed {start stop offset : Nat} {escape : Char} {gap body rest : List Char}
      (hrunning : r.stopped = false) (hgap : IsSlice source r.position start gap)
      (hblank : ∀ c ∈ gap, isBlank c = true)
      (hliteral : IsSlice source start stop ('"' :: (body ++ ['"']))) (hbody : IsBody body)
      (hrest : IsSlice source stop (byteLength source) rest)
      (hfault : Escape.decode (start + 1) body = .error (.malformedEscape offset escape)) :
      Step source r (some (.error (.malformedEscape offset escape))) ⟨rest, stop, true⟩

variable {source cs : List Char} {r before after : Reader} {offset n m : Nat} {fault : LexError}
  {item : Option (Except LexError Token)}

/-- An error is met in a literal, which is not closed or cannot be decoded. -/
theorem readWord_eq_error (h : readWord before offset cs = (some (.error fault), after)) :
    ∃ tail, cs = '"' :: tail ∧
      (literalBody? tail = none ∧ fault = .unterminatedString offset ∧
          after = { before with stopped := true } ∨
        ∃ body rest, literalBody? tail = some (body, rest) ∧
          Escape.decode (offset + 1) body = .error fault ∧
          after = ⟨rest, offset + byteLength body + 2, true⟩) := by
  revert h
  fun_cases readWord before offset cs with
  | case1 | case2 | case3 | case7 => simp
  | case6 => simp
  | case4 tail hnone =>
      rintro ⟨⟩
      exact ⟨tail, rfl, .inl ⟨hnone, rfl, rfl⟩⟩
  | case5 tail body rest hbody stop fault hfault =>
      rintro ⟨⟩
      exact ⟨tail, rfl, .inr ⟨body, rest, hbody, hfault, rfl⟩⟩

/-- A body is decoded, or an escape in it is malformed. -/
theorem exists_malformed_of_decode {body : List Char} (hbody : IsBody body)
    (h : Escape.decode offset body = .error fault) :
    ∃ offset escape, fault = .malformedEscape offset escape := by
  rcases hbody.written_or_malformed with ⟨items, rfl⟩ | ⟨items, letter, tail, rfl, htail⟩
  · rw [Escape.decode_written] at h
    cases h
  · rw [decode_malformed htail] at h
    cases h
    exact ⟨_, _, rfl⟩

/-- Before a reader there are blanks, and then what it reads next. -/
theorem GoesThrough.split_blanks (hr : r.GoesThrough source) :
    IsSlice source r.position (r.position + byteLength (r.rest.takeWhile isBlank))
        (r.rest.takeWhile isBlank) ∧
      IsSlice source (r.position + byteLength (r.rest.takeWhile isBlank)) (byteLength source)
        (r.rest.dropWhile isBlank) := by
  rw [GoesThrough, ← List.takeWhile_append_dropWhile (p := isBlank) (l := r.rest)] at hr
  exact hr.split

/-- A call that yields nothing takes a step to the end. -/
theorem GoesThrough.step_of_end (hr : r.GoesThrough source) (hrunning : r.stopped = false)
    (h : r.next = (none, after)) : Step source r none after := by
  have hend := hr.split_blanks.2
  rw [next_of_running hrunning] at h
  have hnil := eq_nil_of_readWord (congrArg Prod.fst h)
  rw [hnil] at h hend
  have hposition := hend.add_byteLength
  rw [byteLength_nil, Nat.add_zero] at hposition
  rw [readWord, hposition] at h
  cases h
  exact .finish hrunning

/-- A call that yields an error takes a step at a literal. -/
theorem GoesThrough.step_of_error (hr : r.GoesThrough source) (hrunning : r.stopped = false)
    (h : r.next = (some (.error fault), after)) : Step source r (some (.error fault)) after := by
  obtain ⟨hgap, hrest⟩ := hr.split_blanks
  have hblank : ∀ c ∈ r.rest.takeWhile isBlank, isBlank c = true :=
    fun c hc => List.mem_takeWhile_imp hc
  rw [next_of_running hrunning] at h
  obtain ⟨tail, htail, ⟨hnone, rfl, rfl⟩ | ⟨body, rest, hclosed, hfault, rfl⟩⟩ :=
    readWord_eq_error h
  · rw [htail] at hrest
    refine .unclosed hrunning hgap hblank hrest fun body rest hbody heq => ?_
    cases hnone.symm.trans (literalBody?_eq_some_iff.mpr ⟨hbody, heq⟩)
  · obtain ⟨hbody, rfl⟩ := literalBody?_eq_some_iff.mp hclosed
    obtain ⟨offset, escape, rfl⟩ := exists_malformed_of_decode hbody hfault
    have hliteral : r.rest.dropWhile isBlank = '"' :: (body ++ ['"']) ++ rest := by simp [htail]
    rw [hliteral] at hrest
    obtain ⟨hliteral, hrest⟩ := hrest.split
    rw [byteLength_quoted] at hliteral hrest
    exact .malformed hrunning hgap hblank hliteral hbody hrest hfault

/-- A call takes a step. -/
theorem GoesThrough.step (hr : r.GoesThrough source) : Step source r r.next.1 r.next.2 := by
  cases hstopped : r.stopped with
  | true =>
      rw [next_of_stopped hstopped]
      exact .stay hstopped
  | false =>
      rcases hnext : r.next with ⟨_ | fault | t, after⟩
      · exact hr.step_of_end hstopped hnext
      · exact hr.step_of_error hstopped hnext
      · obtain ⟨hafter, _, _, hgap, _, _, hlt, _⟩ := IsIn.next ⟨hr, hstopped⟩ hnext
        exact .token hstopped hafter.rest hafter.running (Nat.lt_of_le_of_lt hgap.le hlt)

/-- A step keeps a reader in its source. -/
theorem Step.goesThrough (h : Step source r item after) (hr : r.GoesThrough source) :
    after.GoesThrough source := by
  cases h with
  | stay => exact hr
  | finish => exact ⟨source, [], by simp, rfl, rfl⟩
  | token _ hafter => exact hafter
  | unclosed => exact hr
  | malformed _ _ _ _ _ hrest => exact hrest

/-- A step does not go back. -/
theorem Step.position_le (h : Step source r item after) (hr : r.GoesThrough source) :
    r.position ≤ after.position := by
  cases h with
  | stay => exact Nat.le_refl _
  | finish => exact hr.le
  | token _ _ _ hlt => exact Nat.le_of_lt hlt
  | unclosed => exact Nat.le_refl _
  | malformed _ hgap _ hliteral => exact hgap.le.trans hliteral.le

/-- Only a token lets a reader go on. -/
theorem Step.stopped_eq (h : Step source r item after) (hitem : ∀ t, item ≠ some (.ok t)) :
    after.stopped = true := by
  cases h with
  | stay hstopped => exact hstopped
  | finish | unclosed | malformed => rfl
  | token => exact absurd rfl (hitem _)

/-- A token lies behind the place where the reader was. -/
theorem Step.position_lt {t : Token} (h : Step source r (some (.ok t)) after) :
    r.position < after.position := by
  cases h with
  | token _ _ _ hlt => exact hlt

/-- A literal that is not closed opens behind blanks, and the reader does not move. -/
theorem Step.of_unterminated
    (h : Step source r (some (.error (.unterminatedString offset))) after) :
    after.position = r.position ∧ ∃ gap tail, IsSlice source r.position offset gap ∧
      (∀ c ∈ gap, isBlank c = true) ∧ IsSlice source offset (byteLength source) ('"' :: tail) ∧
      ∀ body rest, IsBody body → tail ≠ body ++ '"' :: rest := by
  cases h with
  | unclosed _ hgap hblank hopen htail => exact ⟨rfl, _, _, hgap, hblank, hopen, htail⟩

/-- A literal with a malformed escape stands behind blanks, and the reader stops behind it. -/
theorem Step.of_malformed {escape : Char}
    (h : Step source r (some (.error (.malformedEscape offset escape))) after) :
    ∃ start gap body, IsSlice source r.position start gap ∧ (∀ c ∈ gap, isBlank c = true) ∧
      IsSlice source start after.position ('"' :: (body ++ ['"'])) ∧ IsBody body ∧
      Escape.decode (start + 1) body = .error (.malformedEscape offset escape) := by
  cases h with
  | malformed _ hgap hblank hliteral hbody _ hfault =>
      exact ⟨_, _, _, hgap, hblank, hliteral, hbody, hfault⟩

/-- How many bytes a reader may still use up. -/
def bytesLeft (r : Reader) : Nat :=
  if r.stopped then 0 else byteLength r.rest

/-- A step that yields something leaves fewer bytes. -/
theorem Step.bytesLeft_lt (h : Step source r item after) (hr : r.GoesThrough source)
    (hitem : item ≠ none) : after.bytesLeft < r.bytesLeft := by
  have hlength : r.position + byteLength r.rest = byteLength source := hr.add_byteLength
  cases h with
  | stay | finish => exact absurd rfl hitem
  | token hrunning hafter hgoes hlt =>
      have hleft := hafter.add_byteLength
      rw [bytesLeft, bytesLeft, if_neg (by simp [hgoes]), if_neg (by simp [hrunning])]
      omega
  | unclosed hrunning hgap _ hopen =>
      have hstart := hgap.le
      have hleft := hopen.add_byteLength
      have hquote := Char.utf8Size_pos '"'
      rw [byteLength_cons] at hleft
      rw [bytesLeft, bytesLeft, if_pos rfl, if_neg (by simp [hrunning])]
      omega
  | malformed hrunning hgap _ hliteral _ hrest =>
      have hstart := hgap.le
      have hstop := hliteral.add_byteLength
      have hleft := hrest.le
      have hquote := Char.utf8Size_pos '"'
      rw [byteLength_cons] at hstop
      rw [bytesLeft, bytesLeft, if_pos rfl, if_neg (by simp [hrunning])]
      omega

/-! ## Runs -/

@[simp]
theorem advance_succ (r : Reader) (n : Nat) : r.advance (n + 1) = (r.advance n).next.2 := by
  induction n generalizing r with
  | zero => rfl
  | succ n ih => exact ih r.next.2

/-- Calls keep a reader in its source. -/
theorem GoesThrough.advance (hr : r.GoesThrough source) (n : Nat) :
    (r.advance n).GoesThrough source := by
  induction n with
  | zero => exact hr
  | succ n ih =>
      rw [advance_succ]
      exact ih.step.goesThrough ih

/-- Every call takes a step. -/
theorem GoesThrough.step_advance (hr : r.GoesThrough source) (n : Nat) :
    Step source (r.advance n) (r.advance n).next.1 (r.advance (n + 1)) := by
  rw [advance_succ]
  exact (hr.advance n).step

/-- After every call a scanner by positions can read on, and yields what the reader yields. -/
theorem GoesThrough.next?_advance (hr : r.GoesThrough source) (n : Nat) :
    Cursor.next? source (r.advance n).cursor =
      some ((r.advance n).next.1, (r.advance (n + 1)).cursor) := by
  rw [advance_succ]
  exact Cursor.next?_cursor (hr.advance n)

/-- A reader yields nothing any more after a call that yielded no token. -/
theorem GoesThrough.next_advance_eq_none (hr : r.GoesThrough source)
    (h : ∀ t, (r.advance n).next.1 ≠ some (.ok t)) (hlt : n < m) :
    (r.advance m).next.1 = none := by
  have hstopped : (r.advance m).stopped = true := by
    induction m, hlt using Nat.le_induction with
    | base => exact (hr.step_advance n).stopped_eq h
    | succ m _ ih => rwa [advance_succ, next_of_stopped ih]
  rw [next_of_stopped hstopped]

/-- A reader yields items, at most as many as it has bytes left, and then nothing any more. -/
theorem GoesThrough.exists_yield_count (hr : r.GoesThrough source) :
    ∃ count ≤ r.bytesLeft, ∀ n, (r.advance n).next.1 = none ↔ count ≤ n := by
  induction hleft : r.bytesLeft using Nat.strongRecOn generalizing r with
  | ind left ih =>
      -- The items are counted from the last one, and each has taken at least one byte.
      by_cases hnone : r.next.1 = none
      · refine ⟨0, Nat.zero_le _, fun n => iff_of_true ?_ (Nat.zero_le n)⟩
        cases n with
        | zero => exact hnone
        | succ n =>
            refine hr.next_advance_eq_none (fun t => ?_) n.succ_pos
            show r.next.1 ≠ some (.ok t)
            simp [hnone]
      · have hlt := hr.step.bytesLeft_lt hr hnone
        obtain ⟨count, hcount, hitems⟩ := ih _ (hleft ▸ hlt) (hr.step.goesThrough hr) rfl
        refine ⟨count + 1, by omega, fun n => ?_⟩
        cases n with
        | zero => exact iff_of_false hnone (by omega)
        | succ n => rw [Reader.advance, hitems, Nat.add_le_add_iff_right]

/-- A reader that has stopped without an error is at the end of its source. -/
theorem GoesThrough.position_of_stopped (hr : r.GoesThrough source) (hrunning : r.stopped = false)
    (hsound : ∀ m < n, ∀ fault, (r.advance m).next.1 ≠ some (.error fault))
    (hstopped : (r.advance n).stopped = true) : (r.advance n).position = byteLength source := by
  induction n with
  | zero => cases hrunning.symm.trans hstopped
  | succ n ih =>
      have hstep := hr.step_advance n
      -- The step that stopped the reader is the one to the end, since no other is without an error.
      generalize hitem : (r.advance n).next.1 = item at hstep
      generalize r.advance (n + 1) = after at hstep hstopped ⊢
      cases hstep with
      | stay hstopped => exact ih (fun m hm => hsound m (by omega)) hstopped
      | finish => rfl
      | token _ _ hgoes => cases hgoes.symm.trans hstopped
      | unclosed | malformed => exact absurd hitem (hsound n (by omega) _)

theorem goesThrough_ofString (source : String) : (ofString source).GoesThrough source.toList :=
  IsSlice.self _

/-- A reader of a string stands between two characters of it. -/
theorem GoesThrough.isValid {source : String} (hr : r.GoesThrough source.toList) :
    String.Pos.Raw.IsValid source ⟨r.position⟩ := by
  obtain ⟨before, after, hsource, hposition, -⟩ := hr
  rw [String.Pos.Raw.isValid_iff_exists_append]
  refine ⟨String.ofList before, String.ofList (r.rest ++ after), ?_, ?_⟩
  · rw [← String.toList_inj]
    simp [hsource]
  · rw [← hposition, ← String.toList_ofList (l := before), byteLength_toList, String.toList_ofList]
    rfl

end Reader

/-! ## Main results -/

/-- The reader of a source after a number of calls. -/
def readerAfter (source : String) (n : Nat) : Reader :=
  (Reader.ofString source).advance n

/-- What a reader of the source yields when it is called after a number of calls. -/
def itemAfter (source : String) (n : Nat) : Option (Except LexError Token) :=
  (readerAfter source n).next.1

/-- **Readers are safe and come to an end.** Let a reader of a source be called over and over. Its
position is always within the source and between two characters, it never goes back, and it goes on
with every token. A scanner by positions yields the same items and never makes a cut that is not
possible. There are at most as many items as the source has bytes, and then nothing any more; after
an error there is nothing at once. A literal that is not closed is reported at its opening quote and
leaves the position as it was; an escape that is malformed leaves it behind the closing quote. If
there is no error, the position is the end of the source at last. -/
theorem Reader.calls_progress (source : String) :
    (∀ n, (readerAfter source n).position ≤ source.utf8ByteSize ∧
      String.Pos.Raw.IsValid source ⟨(readerAfter source n).position⟩) ∧
    (∀ n, (readerAfter source n).position ≤ (readerAfter source (n + 1)).position) ∧
    (∀ n t, itemAfter source n = some (.ok t) →
      (readerAfter source n).position < (readerAfter source (n + 1)).position) ∧
    (∀ n, Cursor.next? source.toList (readerAfter source n).cursor =
      some (itemAfter source n, (readerAfter source (n + 1)).cursor)) ∧
    (∃ count ≤ source.utf8ByteSize, ∀ n, itemAfter source n = none ↔ count ≤ n) ∧
    (∀ n fault, itemAfter source n = some (.error fault) →
      ∀ m, n < m → itemAfter source m = none) ∧
    (∀ n offset, itemAfter source n = some (.error (.unterminatedString offset)) →
      (readerAfter source (n + 1)).position = (readerAfter source n).position ∧ ∃ gap tail,
        IsSlice source.toList (readerAfter source n).position offset gap ∧
        (∀ c ∈ gap, isBlank c = true) ∧
        IsSlice source.toList offset source.utf8ByteSize ('"' :: tail) ∧
        ∀ body rest, IsBody body → tail ≠ body ++ '"' :: rest) ∧
    (∀ n offset escape, itemAfter source n = some (.error (.malformedEscape offset escape)) →
      ∃ start gap body,
        IsSlice source.toList (readerAfter source n).position start gap ∧
        (∀ c ∈ gap, isBlank c = true) ∧
        IsSlice source.toList start (readerAfter source (n + 1)).position
          ('"' :: (body ++ ['"'])) ∧
        IsBody body ∧
        Escape.decode (start + 1) body = .error (.malformedEscape offset escape)) ∧
    ∀ n, itemAfter source n = none →
      (∀ m < n, ∀ fault, itemAfter source m ≠ some (.error fault)) →
      (readerAfter source (n + 1)).position = source.utf8ByteSize := by
  have hr := goesThrough_ofString source
  have hstep (n : Nat) : Step source.toList (readerAfter source n) (itemAfter source n)
      (readerAfter source (n + 1)) :=
    hr.step_advance n
  rw [← byteLength_toList]
  refine ⟨fun n => ⟨(hr.advance n).le, (hr.advance n).isValid⟩,
    fun n => (hstep n).position_le (hr.advance n), ?_, hr.next?_advance, hr.exists_yield_count,
    ?_, ?_, ?_, ?_⟩
  · intro n t ht
    exact (ht ▸ hstep n).position_lt
  · intro n fault hfault m hlt
    exact hr.next_advance_eq_none (fun t ht => by cases hfault.symm.trans ht) hlt
  · intro n offset hoffset
    exact (hoffset ▸ hstep n).of_unterminated
  · intro n offset escape hfault
    exact (hfault ▸ hstep n).of_malformed
  · intro n hnone hsound
    refine hr.position_of_stopped rfl (fun m hm fault hfault => ?_)
      ((hstep n).stopped_eq (by simp [hnone]))
    rcases Nat.lt_succ_iff_lt_or_eq.mp hm with hlt | rfl
    · exact hsound m hlt fault hfault
    · cases hnone.symm.trans hfault

end Formula
