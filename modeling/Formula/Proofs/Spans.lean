import Formula.Proofs.Reading
import Mathlib.Tactic.Tauto

/-!
# Spans of tokens

A token takes up the bytes from its offset to the place where the reader stands after it. The
spans of a source's tokens follow one another with nothing but blanks between them, so that
nothing is left out and nothing is read twice (`tokenize_tiles`). What a token is can be told
from its span and from the character behind it (`Token.Spells`).
-/

namespace Formula

open Text

/-! ## Slices -/

/-- The characters `piece` are those of a text from the byte `start` up to the byte `stop`. -/
def Text.IsSlice (cs : List Char) (start stop : Nat) (piece : List Char) : Prop :=
  ∃ before after, cs = before ++ piece ++ after ∧ byteLength before = start ∧
    start + byteLength piece = stop

/-- The quotes of a literal take two bytes. -/
@[simp]
theorem Text.byteLength_quoted (body : List Char) :
    byteLength ('"' :: (body ++ ['"'])) = byteLength body + 2 := by
  have hquote : Char.utf8Size '"' = 1 := rfl
  simp only [byteLength_cons, byteLength_append, byteLength_nil, hquote]
  omega

namespace Text.IsSlice

variable {cs piece left right : List Char} {start stop : Nat}

theorem self (cs : List Char) : IsSlice cs 0 (byteLength cs) cs :=
  ⟨[], [], by simp, rfl, Nat.zero_add _⟩

theorem le (h : IsSlice cs start stop piece) : start ≤ stop := by
  obtain ⟨_, _, _, _, rfl⟩ := h
  exact Nat.le_add_right _ _

/-- A slice in two pieces is two slices, the second of which starts where the first ends. -/
theorem split (h : IsSlice cs start stop (left ++ right)) :
    IsSlice cs start (start + byteLength left) left ∧
      IsSlice cs (start + byteLength left) stop right := by
  obtain ⟨before, after, rfl, rfl, rfl⟩ := h
  refine ⟨⟨before, right ++ after, by simp, rfl, rfl⟩, before ++ left, after, by simp, ?_, ?_⟩
  · simp
  · simp [Nat.add_assoc]

end Text.IsSlice

/-! ## Spellings -/

/-- A word that starts like a number: with a decimal digit or a point. -/
def Text.StartsLikeNumber (word : List Char) : Prop :=
  ∃ c ∈ word.head?, '0' ≤ c ∧ c ≤ '9' ∨ c = '.'

/-- A bare word of a kind, and what follows it: the word has no blanks and no parentheses, it
could not be longer, and its characters alone make up its kind. -/
structure Text.IsBareWord (kind : Kind) (word rest : List Char) : Prop where
  inside : ∀ c ∈ word, isBlank c = false ∧ c ≠ '(' ∧ c ≠ ')'
  maximal : ∀ c ∈ rest.head?, isBlank c = true ∨ c = '(' ∨ c = ')'
  float : kind = .float ↔ StartsLikeNumber word ∧ '.' ∈ word
  int : kind = .int ↔ StartsLikeNumber word ∧ '.' ∉ word
  bool : kind = .bool ↔ String.ofList word = "true" ∨ String.ofList word = "false"
  symbol : kind = .symbol ↔
    ¬StartsLikeNumber word ∧ String.ofList word ≠ "true" ∧ String.ofList word ≠ "false"

/-- The characters of a token in the source, and what follows them. All tokens but string literals
stand in the source as they are; the body of a literal denotes the text of the token. -/
structure Token.Spells (t : Token) (span rest : List Char) : Prop where
  verbatim : t.kind ≠ .string → String.ofList span = t.text
  parenthesis : t.kind = .parenthesis → span = ['('] ∨ span = [')']
  literal : t.kind = .string → ∃ body, span = '"' :: (body ++ ['"']) ∧
    Escape.decode (t.offset + 1) body = .ok t.text.toList
  bare : t.kind ≠ .parenthesis → t.kind ≠ .string → IsBareWord t.kind span rest

/-- Words that start like a number are known by their first character. -/
theorem startsNumber_iff (word : List Char) : startsNumber word = true ↔ StartsLikeNumber word := by
  cases word with
  | nil => simp [startsNumber, StartsLikeNumber]
  | cons c cs => simp [startsNumber, StartsLikeNumber, isDecimal]

/-- A truth value starts with a letter. -/
theorem not_startsLikeNumber_of_bool {word : List Char}
    (h : String.ofList word = "true" ∨ String.ofList word = "false") : ¬StartsLikeNumber word := by
  have hword : word = "true".toList ∨ word = "false".toList := by
    rcases h with h | h <;> simp [← h]
  rw [← startsNumber_iff]
  rcases hword with rfl | rfl <;> decide

/-- The kind of a word says how it starts, whether it has a point and whether it is a truth
value. -/
theorem wordKind_eq_iff (word : List Char) :
    (wordKind word = .float ↔ StartsLikeNumber word ∧ '.' ∈ word) ∧
    (wordKind word = .int ↔ StartsLikeNumber word ∧ '.' ∉ word) ∧
    (wordKind word = .bool ↔ String.ofList word = "true" ∨ String.ofList word = "false") ∧
    (wordKind word = .symbol ↔
      ¬StartsLikeNumber word ∧ String.ofList word ≠ "true" ∧ String.ofList word ≠ "false") := by
  have htrue : word = ['t', 'r', 'u', 'e'] ↔ String.ofList word = "true" := by
    rw [← String.toList_inj]
    simp
  have hfalse : word = ['f', 'a', 'l', 's', 'e'] ↔ String.ofList word = "false" := by
    rw [← String.toList_inj]
    simp
  have hbool : String.ofList word = "true" ∨ String.ofList word = "false" →
      ¬StartsLikeNumber word := not_startsLikeNumber_of_bool
  unfold wordKind
  by_cases hnumber : StartsLikeNumber word
  · have hno : ¬(String.ofList word = "true" ∨ String.ofList word = "false") :=
      fun h => hbool h hnumber
    rw [if_pos ((startsNumber_iff word).mpr hnumber)]
    by_cases hpoint : '.' ∈ word <;> simp [hnumber, hpoint, hno]
  · rw [if_neg (mt (startsNumber_iff word).mp hnumber)]
    by_cases hword : String.ofList word = "true" ∨ String.ofList word = "false"
    · have hsome : (decide (word = ['t', 'r', 'u', 'e']) ||
          decide (word = ['f', 'a', 'l', 's', 'e'])) = true := by
        simpa [htrue, hfalse] using hword
      rw [if_pos hsome]
      simp only [reduceCtorEq, false_iff, true_iff]
      tauto
    · have hnone : ¬(decide (word = ['t', 'r', 'u', 'e']) ||
          decide (word = ['f', 'a', 'l', 's', 'e'])) = true := by
        simpa [htrue, hfalse] using hword
      rw [if_neg hnone]
      simp only [reduceCtorEq, false_iff, true_iff]
      tauto

/-- A word of a source is a bare word. -/
theorem isBareWord_of_takeWhile {c : Char} (hc : isWordChar c = true) (cs : List Char) :
    IsBareWord (wordKind (c :: cs.takeWhile isWordChar)) (c :: cs.takeWhile isWordChar)
      (cs.dropWhile isWordChar) := by
  obtain ⟨hfloat, hint, hbool, hsymbol⟩ := wordKind_eq_iff (c :: cs.takeWhile isWordChar)
  refine ⟨?_, ?_, hfloat, hint, hbool, hsymbol⟩
  · intro d hd
    rw [← isWordChar_iff]
    rcases List.mem_cons.mp hd with rfl | hd
    · exact hc
    · exact List.mem_takeWhile_imp hd
  · intro d hd
    have hstop := not_of_mem_head?_dropWhile hd
    rw [← Bool.not_eq_true, isWordChar_iff] at hstop
    by_cases hblank : isBlank d = true
    · exact .inl hblank
    · right
      by_contra hno
      rw [not_or] at hno
      exact hstop ⟨by simpa using hblank, hno⟩

/-- A token that stands in front of a source takes up some characters of it, which spell the
token. -/
theorem exists_span_of_lexes {offset : Nat} {cs : List Char} {t : Token} {after : Reader}
    (h : Lexes offset cs t after) (hcs : ∀ c ∈ cs.head?, isBlank c = false) :
    t.offset = offset ∧ ∃ span, span ≠ [] ∧ cs = span ++ after.rest ∧
      after.position = offset + byteLength span ∧ t.Spells span after.rest := by
  cases h with
  | opening cs =>
      refine ⟨rfl, ['('], by simp, rfl, rfl, fun _ => rfl, fun _ => .inl rfl, ?_, ?_⟩
      · intro h
        cases h
      · intro h
        exact absurd rfl h
  | closing cs =>
      refine ⟨rfl, [')'], by simp, rfl, rfl, fun _ => rfl, fun _ => .inr rfl, ?_, ?_⟩
      · intro h
        cases h
      · intro h
        exact absurd rfl h
  | @literal cs body rest text hbody htext =>
      have hcs : cs = body ++ '"' :: rest := by simpa using eq_of_literalBodyFrom? hbody
      refine ⟨rfl, '"' :: (body ++ ['"']), by simp, by simp [hcs], ?_, ?_, ?_, ?_, ?_⟩
      · rw [byteLength_quoted, ← Nat.add_assoc]
      · intro h
        exact absurd rfl h
      · intro h
        cases h
      · intro _
        exact ⟨body, rfl, by simpa using htext⟩
      · intro _ h
        exact absurd rfl h
  | @word c cs hc =>
      have hword : isWordChar c = true := (isWordChar_iff c).mpr ⟨hcs c rfl, hc.1, hc.2.1⟩
      have hbare := isBareWord_of_takeWhile hword cs
      refine ⟨rfl, c :: cs.takeWhile isWordChar, by simp, ?_, rfl, fun _ => rfl, ?_, ?_,
        fun _ _ => hbare⟩
      · simp only [List.cons_append, List.takeWhile_append_dropWhile]
      · intro h
        exact absurd h (wordKind_ne_parenthesis _)
      · intro h
        exact absurd h (wordKind_ne_string _)

/-! ## Readers in a source -/

namespace Reader

variable {r after : Reader} {source : List Char} {t : Token}

/-- The reader after a number of tokens. -/
def advance (r : Reader) : Nat → Reader
  | 0 => r
  | n + 1 => r.next.2.advance n

/-- A reader in a source: what it has not read yet is the source from its position on. -/
structure IsIn (r : Reader) (source : List Char) : Prop where
  rest : IsSlice source r.position (byteLength source) r.rest
  running : r.stopped = false

/-- A reader that yields a token stays in the source. The token stands behind blanks only, and its
span ends where the reader is then. -/
theorem IsIn.next (hr : r.IsIn source) (h : r.next = (some (.ok t), after)) :
    after.IsIn source ∧ ∃ gap span, IsSlice source r.position t.offset gap ∧
      (∀ c ∈ gap, isBlank c = true) ∧ IsSlice source t.offset after.position span ∧
      t.offset < after.position ∧ t.Spells span after.rest := by
  have hlexes := lexes_of_next h
  obtain ⟨hoffset, span, hspan, hcs, hposition, hspells⟩ :=
    exists_span_of_lexes hlexes fun c hc => not_of_mem_head?_dropWhile hc
  have hrest : r.rest = r.rest.takeWhile isBlank ++ (span ++ after.rest) := by
    rw [← hcs, List.takeWhile_append_dropWhile]
  have hslice := hr.rest
  rw [hrest] at hslice
  obtain ⟨hgap, hslice⟩ := hslice.split
  rw [← hoffset] at hgap hslice hposition
  obtain ⟨hspanSlice, hafter⟩ := hslice.split
  rw [← hposition] at hspanSlice hafter
  have hbytes : 0 < byteLength span :=
    Nat.lt_of_lt_of_le (List.length_pos_iff.mpr hspan) (length_le_byteLength span)
  refine ⟨⟨hafter, stopped_of_lexes hlexes⟩, _, span, hgap, ?_, hspanSlice, by omega, hspells⟩
  exact fun c hc => List.mem_takeWhile_imp hc

/-- The tokens that a reader yields are those of all its tokens, one after another. -/
theorem next_advance (r : Reader) :
    ∀ i t, r.readAll.tokens[i]? = some t →
      (r.advance i).next = (some (.ok t), r.advance (i + 1)) := by
  induction r using readAll_induction with
  | atEnd | atFault => simp
  | @atToken r t after h ih =>
      intro i u hu
      have hafter : r.next.2 = after := by rw [h]
      cases i with
      | zero =>
          obtain rfl : t = u := by simpa using hu
          simp only [advance, h]
      | succ i =>
          simp only [advance, hafter]
          exact ih i u (by simpa using hu)

/-- After all its tokens a reader without an error is at the end. -/
theorem next_advance_length (r : Reader) (hfault : r.readAll.fault = none) :
    (r.advance r.readAll.tokens.length).next.1 = none := by
  revert hfault
  induction r using readAll_induction with
  | atEnd h => simp [advance, h]
  | atFault => simp
  | @atToken r t after h ih =>
      intro hfault
      simpa [advance, h] using ih hfault

/-- A reader stays in its source as long as it yields tokens. -/
theorem IsIn.advance (hr : r.IsIn source) {i : Nat} (hi : i ≤ r.readAll.tokens.length) :
    (r.advance i).IsIn source := by
  induction i with
  | zero => exact hr
  | succ i ih =>
      have htoken : r.readAll.tokens[i]? = some r.readAll.tokens[i] :=
        List.getElem?_eq_getElem hi
      exact ((ih (Nat.le_of_succ_le hi)).next (r.next_advance i _ htoken)).1

/-- A reader does not go back while it yields tokens. -/
theorem IsIn.position_le_advance (hr : r.IsIn source) {i j : Nat} (hij : i ≤ j)
    (hj : j ≤ r.readAll.tokens.length) : (r.advance i).position ≤ (r.advance j).position := by
  induction j, hij using Nat.le_induction with
  | base => exact Nat.le_refl _
  | succ j hij ih =>
      have htoken := r.next_advance j _ (List.getElem?_eq_getElem hj)
      obtain ⟨_, _, _, hgap, _, hspan, _⟩ := (hr.advance (Nat.le_of_succ_le hj)).next htoken
      exact (ih (Nat.le_of_succ_le hj)).trans (hgap.le.trans hspan.le)

/-- A reader that yields nothing more has only blanks before it. -/
theorem IsIn.isBlank_of_end (hr : r.IsIn source) (h : r.next.1 = none) :
    ∀ c ∈ r.rest, isBlank c = true := by
  rw [next_of_running hr.running] at h
  exact List.dropWhile_eq_nil_iff.mp (eq_nil_of_readWord h)

theorem isIn_ofString (source : String) : (ofString source).IsIn source.toList :=
  ⟨IsSlice.self _, rfl⟩

end Reader

/-! ## Tokens of a source -/

/-- The byte at which a reader of the source stands after a number of tokens. -/
def tokenStop (source : String) (i : Nat) : Nat :=
  ((Reader.ofString source).advance i).position

/-- A source without errors is read to its end. -/
theorem tokenize_eq_ok_iff {source : String} {tokens : List Token} :
    tokenize source = .ok tokens ↔ (Reader.ofString source).readAll.fault = none ∧
      (Reader.ofString source).readAll.tokens = tokens := by
  unfold tokenize
  dsimp only
  cases (Reader.ofString source).readAll.fault <;> simp

/-- **Tokens tile their source.** The reader yields the tokens in order and then nothing. The span
of a token is not empty, and what is in it spells the token. Spans do not overlap and stand in the
order of the tokens; before the first one, between two that follow one another and behind the
last one there are only blanks. -/
theorem tokenize_tiles {source : String} {tokens : List Token} (h : tokenize source = .ok tokens) :
    tokenStop source 0 = 0 ∧
    (∀ i t, tokens[i]? = some t →
      ((Reader.ofString source).advance i).next.1 = some (.ok t) ∧
      t.offset < tokenStop source (i + 1) ∧
      ∃ gap span rest,
        IsSlice source.toList (tokenStop source i) t.offset gap ∧ (∀ c ∈ gap, isBlank c = true) ∧
        IsSlice source.toList t.offset (tokenStop source (i + 1)) span ∧
        IsSlice source.toList (tokenStop source (i + 1)) source.utf8ByteSize rest ∧
        t.Spells span rest) ∧
    (∀ i j t u, i < j → tokens[i]? = some t → tokens[j]? = some u →
      tokenStop source (i + 1) ≤ u.offset) ∧
    ((Reader.ofString source).advance tokens.length).next.1 = none ∧
    ∃ gap, IsSlice source.toList (tokenStop source tokens.length) source.utf8ByteSize gap ∧
      ∀ c ∈ gap, isBlank c = true := by
  obtain ⟨hfault, rfl⟩ := tokenize_eq_ok_iff.mp h
  let r := Reader.ofString source
  have hin : ∀ i ≤ r.readAll.tokens.length, (r.advance i).IsIn source.toList :=
    fun i hi => (Reader.isIn_ofString source).advance hi
  have hstep : ∀ i t, r.readAll.tokens[i]? = some t →
      (r.advance i).IsIn source.toList ∧
        (r.advance i).next = (some (.ok t), r.advance (i + 1)) := by
    intro i t ht
    obtain ⟨hi, _⟩ := List.getElem?_eq_some_iff.mp ht
    exact ⟨hin i (Nat.le_of_lt hi), r.next_advance i t ht⟩
  refine ⟨rfl, ?_, ?_, r.next_advance_length hfault, ?_⟩
  · intro i t ht
    obtain ⟨hi, hnext⟩ := hstep i t ht
    obtain ⟨hafter, gap, span, hgap, hblank, hspan, hlt, hspells⟩ := hi.next hnext
    refine ⟨congrArg Prod.fst hnext, hlt, gap, span, _, hgap, hblank, hspan, ?_, hspells⟩
    rw [← byteLength_toList]
    exact hafter.rest
  · intro i j t u hij _ hu
    obtain ⟨hj, hnext⟩ := hstep j u hu
    obtain ⟨hlength, _⟩ := List.getElem?_eq_some_iff.mp hu
    obtain ⟨_, _, _, hgap, _⟩ := hj.next hnext
    have hle : (r.advance (i + 1)).position ≤ (r.advance j).position :=
      (Reader.isIn_ofString source).position_le_advance hij (Nat.le_of_lt hlength)
    exact hle.trans hgap.le
  · have hend := hin _ (Nat.le_refl _)
    refine ⟨_, ?_, hend.isBlank_of_end (r.next_advance_length hfault)⟩
    rw [← byteLength_toList]
    exact hend.rest

/-- A literal between a parenthesis and a word, behind characters of two and of three bytes. -/
theorem tokenize_tiles_adjacent :
    tokenize "é\u3000(\"\\n\"b)" =
      .ok [⟨"é", .symbol, 0⟩, ⟨"(", .parenthesis, 5⟩, ⟨"\n", .string, 6⟩, ⟨"b", .symbol, 10⟩,
        ⟨")", .parenthesis, 11⟩] ∧
    tokenStop "é\u3000(\"\\n\"b)" 3 ≤ 10 ∧
    ∃ span rest, IsSlice "é\u3000(\"\\n\"b)".toList 6 (tokenStop "é\u3000(\"\\n\"b)" 3) span ∧
      Token.Spells ⟨"\n", .string, 6⟩ span rest := by
  have h : tokenize "é\u3000(\"\\n\"b)" =
      .ok [⟨"é", .symbol, 0⟩, ⟨"(", .parenthesis, 5⟩, ⟨"\n", .string, 6⟩, ⟨"b", .symbol, 10⟩,
        ⟨")", .parenthesis, 11⟩] := by decide +kernel
  obtain ⟨_, hspans, horder, _⟩ := tokenize_tiles h
  obtain ⟨_, _, _, span, rest, _, _, hspan, _, hspells⟩ := hspans 2 ⟨"\n", .string, 6⟩ rfl
  exact ⟨h, horder 2 3 _ ⟨"b", .symbol, 10⟩ (by decide) rfl rfl, span, rest, hspan, hspells⟩

end Formula
