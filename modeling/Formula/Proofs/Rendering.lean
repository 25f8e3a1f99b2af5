import Formula.Expr
import Formula.Proofs.Grammar
import Formula.Proofs.Quoting

/-!
# Reading rendered expressions

An expression is rendered as the spellings of its words, with blanks between them (`Laid`). Read
again, a spelling gives the word back, unless it is that of a truth value, which becomes a symbol,
or of a text that has no escapes for all its characters (`Word.IsFaithful`). So a rendered
expression parses to itself exactly if all its leaves are spelled faithfully
(`parse_render_iff`).
-/

namespace Formula

open Text

/-! ## Words of a source -/

namespace Word

/-- The words that a reader can yield. -/
inductive IsLexeme : Kind × String → Prop
  | opening : IsLexeme (.parenthesis, "(")
  | closing : IsLexeme (.parenthesis, ")")
  | literal (text : String) : IsLexeme (.string, text)
  | bare {c : Char} {cs : List Char} (hc : c ≠ '"') (hword : ∀ d ∈ c :: cs, isWordChar d = true) :
      IsLexeme (wordKind (c :: cs), String.ofList (c :: cs))

/-- How a word is rendered. -/
def spelling (w : Kind × String) : List Char :=
  (Expr.renderAtom w.1 w.2).toList

/-- Words that are rendered as a source may have them: no truth values, and no texts with a
character that is written by its code. -/
def IsFaithful (w : Kind × String) : Prop :=
  w.1 ≠ .bool ∧ (w.1 = .string → ∀ c ∈ w.2.toList, ¬IsCoded c)

end Word

namespace Reader

variable {rest : List Char} {position : Nat} {w : Kind × String}

/-- A token of a source is a word that a reader can yield. -/
theorem isLexeme_of_next {r after : Reader} {t : Token} (h : r.next = (some (.ok t), after)) :
    Word.IsLexeme t.word := by
  have hlexes := lexes_of_next h
  have hblank : ∀ c ∈ (r.rest.dropWhile isBlank).head?, isBlank c = false :=
    fun c hc => not_of_mem_head?_dropWhile hc
  generalize r.rest.dropWhile isBlank = cs at hlexes hblank
  cases hlexes with
  | opening => exact .opening
  | closing => exact .closing
  | literal => exact .literal _
  | @word c cs hc =>
      have hfirst : isWordChar c = true := (isWordChar_iff c).mpr ⟨hblank c rfl, hc.1, hc.2.1⟩
      exact .bare hc.2.2 (List.forall_mem_cons.mpr ⟨hfirst, fun d hd => List.mem_takeWhile_imp hd⟩)

/-- All tokens of a source are words that a reader can yield. -/
theorem isLexeme_of_mem_tokens (r : Reader) : ∀ t ∈ r.readAll.tokens, Word.IsLexeme t.word := by
  induction r using readAll_induction with
  | atEnd | atFault => simp
  | atToken h ih => exact List.forall_mem_cons.mpr ⟨isLexeme_of_next h, ih⟩

/-! ## Spellings -/

/-- A source that does not start with a blank is read from its start. -/
theorem next_of_not_blank {c : Char} (hc : isBlank c = false) (cs : List Char) (position : Nat) :
    (Reader.mk (c :: cs) position false).next =
      readWord ⟨c :: cs, position, false⟩ position (c :: cs) := by
  rw [next_of_running rfl, List.takeWhile_cons_of_neg (by simp [hc]),
    List.dropWhile_cons_of_neg (by simp [hc])]
  rfl

/-- A bare word is read up to a character that does not belong to it. -/
theorem next_of_bare {c : Char} {cs : List Char} (hc : c ≠ '"')
    (hword : ∀ d ∈ c :: cs, isWordChar d = true) (hrest : ∀ d ∈ rest.head?, isWordChar d = false)
    (position : Nat) :
    (Reader.mk (c :: cs ++ rest) position false).next =
      (some (.ok ⟨String.ofList (c :: cs), wordKind (c :: cs), position⟩),
        ⟨rest, position + byteLength (c :: cs), false⟩) := by
  obtain ⟨hfirst, hcs⟩ := List.forall_mem_cons.mp hword
  have htake : (cs ++ rest).takeWhile isWordChar = cs := by
    rw [List.takeWhile_append_of_pos hcs]
    cases rest with
    | nil => simp
    | cons d rest => rw [List.takeWhile_cons_of_neg (by simp [hrest d rfl]), List.append_nil]
  have hdrop : (cs ++ rest).dropWhile isWordChar = rest := by
    rw [List.dropWhile_append_of_pos hcs]
    cases rest with
    | nil => rfl
    | cons d rest => rw [List.dropWhile_cons_of_neg (by simp [hrest d rfl])]
  obtain ⟨hblank, hopen, hclose⟩ := (isWordChar_iff c).mp hfirst
  rw [List.cons_append, next_of_not_blank hblank, readWord, htake, hdrop]
  · exact hopen
  · exact hclose
  · exact hc

/-- A quoted text is read as a literal, which may be malformed. -/
theorem next_of_quoted (text : String) (rest : List Char) (position : Nat) :
    (Reader.mk (Word.spelling (.string, text) ++ rest) position false).next =
      match Escape.decode (position + 1) (text.toList.flatMap quoteChar) with
      | .error fault => (some (.error fault),
          ⟨rest, position + byteLength (text.toList.flatMap quoteChar) + 2, true⟩)
      | .ok denoted => (some (.ok ⟨String.ofList denoted, .string, position⟩),
          ⟨rest, position + byteLength (text.toList.flatMap quoteChar) + 2, false⟩) := by
  have hspelling : Word.spelling (.string, text) ++ rest =
      '"' :: (text.toList.flatMap quoteChar ++ '"' :: rest) := by
    simp [Word.spelling, Expr.renderAtom, quote]
  rw [hspelling, next_of_not_blank (by decide)]
  cases hdenoted : Escape.decode (position + 1) (text.toList.flatMap quoteChar) <;>
    simp [readWord, literalBody?_quote, hdenoted]

/-- A word that is rendered faithfully is read again. -/
theorem next_of_faithful (hw : Word.IsLexeme w) (hfaithful : Word.IsFaithful w)
    (hrest : w.1 ≠ .parenthesis → ∀ c ∈ rest.head?, isWordChar c = false) (position : Nat) :
    ∃ t stop, (Reader.mk (Word.spelling w ++ rest) position false).next =
      (some (.ok t), ⟨rest, stop, false⟩) ∧ t.word = w := by
  cases hw with
  | opening =>
      exact ⟨⟨"(", .parenthesis, position⟩, _, next_of_not_blank (by decide) rest position, rfl⟩
  | closing =>
      exact ⟨⟨")", .parenthesis, position⟩, _, next_of_not_blank (by decide) rest position, rfl⟩
  | literal text =>
      have hdecode := (Escape.decode_quote_iff (position + 1) _).mpr (hfaithful.2 rfl)
      rw [next_of_quoted, hdecode]
      exact ⟨_, _, rfl, by simp [Token.word]⟩
  | @bare c cs hc hword =>
      have hspelling : Word.spelling (wordKind (c :: cs), String.ofList (c :: cs)) = c :: cs := by
        have hkind := wordKind_ne_string (c :: cs)
        have hbool := hfaithful.1
        simp only [Word.spelling]
        generalize wordKind (c :: cs) = kind at hkind hbool
        cases kind <;> first | contradiction | simp [Expr.renderAtom]
      rw [hspelling, next_of_bare hc hword (hrest (wordKind_ne_parenthesis _))]
      exact ⟨_, _, rfl, rfl⟩

/-- A word behind a number sign is a symbol. -/
theorem wordKind_number_sign (cs : List Char) : wordKind ('#' :: cs) = .symbol := by
  simp [wordKind, startsNumber, isDecimal]

/-- A word that is not rendered faithfully is not read again. -/
theorem word_ne_of_unfaithful (hw : Word.IsLexeme w) (hunfaithful : ¬Word.IsFaithful w)
    {t : Token} {after : Reader}
    (h : (Reader.mk (Word.spelling w ++ rest) position false).next = (some (.ok t), after)) :
    t.word ≠ w := by
  cases hw with
  | opening | closing => exact absurd ⟨nofun, nofun⟩ hunfaithful
  | literal text =>
      have hdecode : Escape.decode (position + 1) (text.toList.flatMap quoteChar) ≠
          .ok text.toList := by
        rw [ne_eq, Escape.decode_quote_iff]
        exact fun htext => hunfaithful ⟨nofun, fun _ => htext⟩
      rw [next_of_quoted] at h
      cases hdenoted : Escape.decode (position + 1) (text.toList.flatMap quoteChar) with
      | error fault => simp [hdenoted] at h
      | ok denoted =>
          rw [hdenoted] at h
          obtain ⟨⟨⟩, -⟩ := Prod.mk.inj h
          intro hsame
          have htext : String.ofList denoted = text := congrArg Prod.snd hsame
          exact hdecode (by rw [hdenoted, ← htext, String.toList_ofList])
  | @bare c cs hc hword =>
      -- Only a truth value is rendered in another way, behind a number sign.
      have hkind : wordKind (c :: cs) = .bool := by
        by_contra hne
        exact hunfaithful ⟨hne, fun h => absurd h (wordKind_ne_string _)⟩
      have hspelling : Word.spelling (wordKind (c :: cs), String.ofList (c :: cs)) =
          '#' :: c :: cs := by
        simp [Word.spelling, hkind, Expr.renderAtom]
      have hlexes := lexes_of_next h
      rw [hspelling, List.cons_append, List.dropWhile_cons_of_neg (by decide)] at hlexes
      intro hsame
      have hsymbol : t.kind = .symbol := by
        cases hlexes
        exact wordKind_number_sign ((c :: cs ++ rest).takeWhile isWordChar)
      have hbool : t.kind = .bool := (congrArg Prod.fst hsame).trans hkind
      cases hsymbol.symm.trans hbool

end Reader

/-! ## Rendered words -/

/-- Characters that render words one after another. Blanks may stand before a word, and behind a
word that is no parenthesis there is a character that does not belong to words, or the end. -/
inductive Laid : List (Kind × String) → List Char → Prop
  | nil : Laid [] []
  | blank {ws : List (Kind × String)} {cs : List Char} (h : Laid ws cs) : Laid ws (' ' :: cs)
  | word {ws : List (Kind × String)} {cs : List Char} (w : Kind × String)
      (hcs : w.1 ≠ .parenthesis → ∀ c ∈ cs.head?, isWordChar c = false) (h : Laid ws cs) :
      Laid (w :: ws) (Word.spelling w ++ cs)

/-- A blank before a source does not matter to its words. -/
theorem Reader.readAll_blank (cs : List Char) (position : Nat) :
    (Reader.mk (' ' :: cs) position false).readAll.tokens =
      (Reader.mk cs (position + 1) false).readAll.tokens := by
  have hend : (Reader.mk [] position false).next.1 = none := rfl
  exact (readAll_extend_of_end (c := ' ') (by decide) rfl hend cs).1

/-- Rendered words are read again, all of them, if and only if they are faithful. -/
theorem Laid.prefix_iff {ws : List (Kind × String)} {cs : List Char} (h : Laid ws cs)
    (hws : ∀ w ∈ ws, Word.IsLexeme w) (position : Nat) :
    ws <+: (Reader.mk cs position false).readAll.tokens.map Token.word ↔
      ∀ w ∈ ws, Word.IsFaithful w := by
  induction h generalizing position with
  | nil => simp
  | @blank ws cs _ ih =>
      rw [Reader.readAll_blank]
      exact ih hws (position + 1)
  | @word ws cs w hcs _ ih =>
      obtain ⟨hw, hrest⟩ := List.forall_mem_cons.mp hws
      rw [List.forall_mem_cons]
      by_cases hfaithful : Word.IsFaithful w
      · obtain ⟨t, stop, hnext, rfl⟩ := Reader.next_of_faithful hw hfaithful hcs position
        rw [Reader.readAll_of_token hnext, List.map_cons, List.prefix_cons_inj, ih hrest stop]
        simp [hfaithful]
      · have hno : ¬w :: ws <+: (Reader.mk (Word.spelling w ++ cs) position
            false).readAll.tokens.map Token.word := by
          rcases hnext : (Reader.mk (Word.spelling w ++ cs) position false).next with
            ⟨_ | fault | t, after⟩
          · simp [Reader.readAll_of_end hnext]
          · simp [Reader.readAll_of_fault hnext]
          · rw [Reader.readAll_of_token hnext, List.map_cons, List.cons_prefix_cons]
            exact fun h => Reader.word_ne_of_unfaithful hw hfaithful hnext h.1.symm
        simp [hno, hfaithful]

namespace Expr

variable {e : Expr}

/-! ## Rendered expressions -/

mutual

/-- The atoms of an expression from left to right. -/
def leaves : Expr → List (Kind × String)
  | node .parenthesis _ operands => leavesAll operands
  | node kind text _ => [(kind, text)]

/-- The atoms of several expressions one after another. -/
def leavesAll : List Expr → List (Kind × String)
  | [] => []
  | e :: es => leaves e ++ leavesAll es

end

/-- Characters that render an expression after any others, and its words before any others. -/
def LaysOut (e : Expr) (cs : List Char) : Prop :=
  (∀ before, (renderOnto before e).toList = before.toList ++ cs) ∧
    ∀ {ws : List (Kind × String)} {rest : List Char}, Laid ws rest →
      (∀ c ∈ rest.head?, isWordChar c = false) → Laid (e.words ++ ws) (cs ++ rest)

/-- Operands are rendered one after another, each behind a blank. -/
theorem exists_layout_operands {es : List Expr} (hes : ∀ e ∈ es, ∃ cs, LaysOut e cs) :
    ∃ cs, (∀ before, (renderOperandsOnto before es).toList = before.toList ++ cs) ∧
      ∀ {ws : List (Kind × String)} {rest : List Char}, Laid ws rest →
        (∀ c ∈ rest.head?, isWordChar c = false) →
          Laid (wordsAll es ++ ws) (cs ++ rest) ∧
            ∀ c ∈ (cs ++ rest).head?, isWordChar c = false := by
  induction es with
  | nil => exact ⟨[], by simp [renderOperandsOnto], fun h hrest => ⟨h, hrest⟩⟩
  | cons e es ih =>
      obtain ⟨⟨cs, hrender, hlaid⟩, hes⟩ := List.forall_mem_cons.mp hes
      obtain ⟨ds, hrenderAll, hlaidAll⟩ := ih hes
      refine ⟨' ' :: cs ++ ds, ?_, ?_⟩
      · intro before
        rw [renderOperandsOnto, hrenderAll, hrender]
        simp
      · intro ws rest h hrest
        obtain ⟨hoperands, hnext⟩ := hlaidAll h hrest
        have hfirst := (hlaid hoperands hnext).blank
        refine ⟨by simpa [wordsAll] using hfirst, ?_⟩
        simp only [List.cons_append, List.head?_cons, Option.mem_some_iff, forall_eq']
        decide

/-- A proper expression is rendered as its words. -/
theorem exists_layout (he : e.IsProper) : ∃ cs, LaysOut e cs := by
  induction he with
  | @atom kind text hkind =>
      refine ⟨Word.spelling (kind, text), ?_, ?_⟩
      · intro before
        cases kind <;> first | contradiction | simp [atom, renderOnto, Word.spelling]
      · intro ws rest h hrest
        rw [words_atom hkind]
        exact .word (kind, text) (fun _ => hrest) h
  | @form operator operands _ ih =>
      obtain ⟨cs, hrender, hlaid⟩ := exists_layout_operands ih
      refine ⟨'(' :: (operator.toList ++ cs ++ [')']), ?_, ?_⟩
      · intro before
        rw [form, renderOnto, String.toList_push, hrender]
        simp
      · intro ws rest h hrest
        have hclose : Laid ((.parenthesis, ")") :: ws) (')' :: rest) :=
          .word (.parenthesis, ")") (fun hne => absurd rfl hne) h
        obtain ⟨hoperands, hnext⟩ := hlaid hclose (by simp [isWordChar])
        have hoperator := Laid.word (.symbol, operator) (fun _ => hnext) hoperands
        have hopen := Laid.word (.parenthesis, "(") (fun hne => absurd rfl hne) hoperator
        simpa [form, words, Word.spelling, renderAtom] using hopen

/-- The words of an expression are faithful if its atoms are. -/
theorem isFaithful_words_iff (he : e.IsProper) :
    (∀ w ∈ e.words, Word.IsFaithful w) ↔ ∀ w ∈ e.leaves, Word.IsFaithful w := by
  induction he with
  | @atom kind text hkind =>
      cases kind <;> first | contradiction | simp [atom, words, leaves]
  | @form operator operands hoperands ih =>
      clear hoperands
      have hparenthesis : ∀ text, Word.IsFaithful (.parenthesis, text) :=
        fun _ => ⟨nofun, nofun⟩
      have hsymbol : Word.IsFaithful (.symbol, operator) := ⟨nofun, nofun⟩
      have hall : (∀ w ∈ wordsAll operands, Word.IsFaithful w) ↔
          ∀ w ∈ leavesAll operands, Word.IsFaithful w := by
        induction operands with
        | nil => simp [wordsAll, leavesAll]
        | cons e es ihes =>
            obtain ⟨he, hes⟩ := List.forall_mem_cons.mp ih
            simp only [wordsAll, leavesAll, List.forall_mem_append, he, ihes hes]
      simp only [form, words, leaves, List.forall_mem_cons, List.forall_mem_append, hparenthesis,
        hsymbol, hall, true_and, List.not_mem_nil, false_imp_iff, implies_true, and_true]

/-- **Rendering and reading again.** An expression that was read from a source and is rendered
parses to itself if and only if none of its leaves is a truth value or a text with a character
that is written by its code. -/
theorem parse_render_iff {source : String} (h : parse source = .ok e) :
    parse e.render = .ok e ↔
      ∀ leaf ∈ e.leaves, leaf.1 ≠ .bool ∧
        (leaf.1 = .string → ∀ c ∈ leaf.2.toList, ¬IsCoded c) := by
  obtain ⟨hproper, hstart⟩ := isFirst_of_parse h
  have hlexemes : ∀ w ∈ e.words, Word.IsLexeme w := by
    intro w hw
    obtain ⟨t, ht, rfl⟩ := List.mem_map.mp (hstart.subset hw)
    exact Reader.isLexeme_of_mem_tokens _ t ht
  obtain ⟨cs, hrender, hlaid⟩ := exists_layout hproper
  have hsource : Reader.ofString e.render = ⟨cs, 0, false⟩ := by
    rw [Reader.ofString, render, hrender]
    rfl
  have hwords : Laid e.words cs := by simpa using hlaid .nil (by simp)
  have hiff := hwords.prefix_iff hlexemes 0
  rw [isFaithful_words_iff hproper] at hiff
  refine ⟨fun hparse => hiff.mp ?_, fun hleaves => parse_of_isFirst ⟨hproper, ?_⟩⟩
  · rw [← hsource]
    exact (isFirst_of_parse hparse).2
  · rw [hsource]
    exact hiff.mpr hleaves

/-- A text of characters with short escapes is read again, and a null is not. -/
theorem parse_render_iff_null :
    (∃ e, parse "(f (g \"\\n\\\"\" -1) .5) x" = .ok e ∧ parse e.render = .ok e) ∧
      ∃ e, parse "(f \"\\0001\" x)" = .ok e ∧ parse e.render ≠ .ok e := by
  have hshort : parse "(f (g \"\\n\\\"\" -1) .5) x" =
      .ok (.form "f" [.form "g" [.atom .string "\n\"", .atom .symbol "-1"],
        .atom .float ".5"]) := by decide +kernel
  have hnull : parse "(f \"\\0001\" x)" =
      .ok (.form "f" [.atom .string "\x001", .atom .symbol "x"]) := by decide +kernel
  refine ⟨⟨_, hshort, (parse_render_iff hshort).mpr ?_⟩, ⟨_, hnull, ?_⟩⟩
  · simp [form, atom, leaves, leavesAll, isCoded_iff]
  · have hcoded : IsCoded '\x00' := (isCoded_iff _).mpr (by simp)
    rw [ne_eq, parse_render_iff hnull]
    simp [form, atom, leaves, leavesAll, hcoded]

end Expr

end Formula
