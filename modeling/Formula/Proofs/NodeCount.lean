import Formula.Proofs.Grammar
import Mathlib.Algebra.GroupWithZero.Nat

/-!
# Counting nodes

The nodes of a tree are counted by visiting the trees of a list one after another, while the
children of each are put onto the same list. What decreases is the number of nodes of all trees in
the list, by one in each round (`Tally.visits?_sizeList`), so counting ends, and with the number
that is defined by recursion.

The nodes of an expression that has been read are the words in it that are no parentheses. While it
is read, the words on the stack and the tokens still to be read make up its words, whatever is taken
off the stack and put back as a form (`words_of_readExpr`).
-/

namespace Formula

/-! ## Rounds of counting -/

namespace Expr

/-- A tree has its topmost node and the nodes of its children. -/
theorem size_eq_sum (e : Expr) : e.size = 1 + (e.children.map size).sum := by
  have hlist (es : List Expr) : sizeList es = (es.map size).sum := by
    induction es with
    | nil => rfl
    | cons e es ih => rw [sizeList, ih, List.map_cons, List.sum_cons]
  obtain ⟨kind, text, children⟩ := e
  rw [size, hlist, Nat.add_comm]
  rfl

namespace Tally

variable {t t' : Tally}

/-- A number of rounds, if there are trees to be visited in each of them. -/
def visits? : Nat → Tally → Option Tally
  | 0, t => some t
  | n + 1, t => t.visit?.bind (visits? n)

/-- There is a visit as long as there is a tree. -/
theorem visit?_eq_none_iff : t.visit? = none ↔ t.pending = [] := by
  unfold visit?
  split <;> simp_all

/-- After as many rounds as there are nodes, all nodes have been counted and no tree is left. -/
theorem visits?_sizeList (t : Tally) :
    t.visits? (sizeList t.pending) = some ⟨t.visited + sizeList t.pending, []⟩ := by
  -- The rounds are those of `finish`, in each of which one node less is to be visited.
  fun_induction finish t with
  | case1 t h =>
      obtain ⟨visited, pending⟩ := t
      obtain rfl : pending = [] := visit?_eq_none_iff.mp h
      rfl
  | case2 t t' h hcounted ih =>
      obtain ⟨hvisited, hpending⟩ := hcounted
      have htotal : t'.visited + sizeList t'.pending = t.visited + sizeList t.pending := by omega
      rw [hpending, visits?, h, Option.bind_some, ih, htotal, hpending]

/-- The count ends with the number of all nodes. -/
theorem finish_eq (t : Tally) : t.finish = t.visited + sizeList t.pending := by
  fun_induction finish t with
  | case1 t h =>
      rw [visit?_eq_none_iff.mp h]
      rfl
  | case2 t t' h hcounted ih =>
      rw [ih]
      omega

end Tally

/-- Counting with a list of trees agrees with counting by recursion. -/
@[simp]
theorem len_eq_size (e : Expr) : e.len = e.size := by
  rw [len, Tally.finish_eq]
  simp only [sizeList]
  omega

end Expr

/-! ## Tokens that are read -/

/-- The tokens that a reader yields one after another, and the reader behind them. -/
inductive Reader.Yields : Reader → List Token → Reader → Prop
  | nothing (r : Reader) : Yields r [] r
  | token {r after final : Reader} {t : Token} {ts : List Token}
      (h : r.next = (some (.ok t), after)) (hts : Yields after ts final) : Yields r (t :: ts) final

namespace Expr

variable {e : Expr} {stack below : List Entry} {r after : Reader} {t : Token}

/-- The words that an entry of the stack stands for. -/
def Entry.words : Entry → List (Kind × String)
  | opened operator => [(.parenthesis, "("), (.symbol, operator)]
  | done e => e.words

/-- The words that a stack stands for, from its bottom to its top. -/
def stackWords : List Entry → List (Kind × String)
  | [] => []
  | entry :: stack => stackWords stack ++ entry.words

/-- Finished expressions on top of a stack add their words, the last one on top. -/
@[simp]
theorem stackWords_done_append (es : List Expr) (stack : List Entry) :
    stackWords (es.map .done ++ stack) = stackWords stack ++ wordsAll es.reverse := by
  induction es with
  | nil => simp [wordsAll]
  | cons e es ih =>
      rw [List.map_cons, List.cons_append, stackWords, ih, List.reverse_cons, wordsAll_append]
      simp [Entry.words, wordsAll]

/-- Entries without an open form among them are expressions. -/
theorem exists_map_done {entries : List Entry} (h : ∀ entry ∈ entries, entry.isDone = true) :
    ∃ es : List Expr, entries = es.map .done := by
  induction entries with
  | nil => exact ⟨[], rfl⟩
  | cons entry entries ih =>
      obtain ⟨hentry, hentries⟩ := List.forall_mem_cons.mp h
      obtain ⟨es, rfl⟩ := ih hentries
      cases entry with
      | opened => cases hentry
      | done e => exact ⟨e :: es, rfl⟩

/-- A form that is closed is made of the uppermost open form and of what stands above it. -/
theorem eq_of_closeForm? (h : closeForm? stack = some (e, below)) :
    ∃ (operator : String) (es : List Expr), stack = es.map .done ++ .opened operator :: below ∧
      e = form operator es.reverse := by
  have habove : ∀ entry ∈ stack.takeWhile Entry.isDone, entry.isDone = true :=
    fun _ => List.mem_takeWhile_imp
  obtain ⟨es, hes⟩ := exists_map_done habove
  have hstack := List.takeWhile_append_dropWhile (p := Entry.isDone) (l := stack)
  unfold closeForm? at h
  split at h
  · rename_i operator below' hdrop
    rw [hes, hdrop] at hstack
    rw [hes, ← List.map_reverse, List.filterMap_map] at h
    obtain ⟨rfl, rfl⟩ := Prod.mk.inj (Option.some.inj h)
    exact ⟨operator, es, hstack.symm, congrArg (form operator) List.filterMap_some⟩
  · cases h

/-- Closing a form moves no words but adds the closing parenthesis. -/
theorem stackWords_of_closeForm? (h : closeForm? stack = some (e, below)) :
    stackWords below ++ e.words = stackWords stack ++ [(.parenthesis, ")")] := by
  obtain ⟨operator, es, rfl, rfl⟩ := eq_of_closeForm? h
  rw [stackWords_done_append]
  simp [stackWords, Entry.words, form, words]

/-- A token that is read and is neither of the parentheses is of another kind. -/
theorem kind_ne_of_nextToken (h : nextToken r = .ok (t, after)) (hopen : ¬t.isOpen = true)
    (hclose : ¬t.isClose = true) : t.kind ≠ .parenthesis := fun hkind =>
  (Reader.isOpen_or_isClose_of_lexes (Reader.lexes_of_next (nextToken_eq_ok_iff.mp h)) hkind).elim
    hopen hclose

/-- **No token is dropped or read twice.** The words on the stack and those of the tokens that are
read until an expression is complete are the words of the expression. -/
theorem words_of_readExpr (h : readExpr stack r = .ok (e, after)) :
    ∃ ts, r.Yields ts after ∧ e.words = stackWords stack ++ ts.map Token.word := by
  fun_induction readExpr stack r with
  | case1 | case2 | case4 | case5 => cases h
  | case3 stack r t between ht _ hopen op behind hop _ hkind ih =>
      obtain ⟨ts, hts, hwords⟩ := ih h
      have hopword : op.word = (.symbol, op.text) := by rw [Token.word, hkind]
      refine ⟨t :: op :: ts, .token (nextToken_eq_ok_iff.mp ht)
        (.token (nextToken_eq_ok_iff.mp hop) hts), ?_⟩
      rw [hwords]
      simp [stackWords, Entry.words, Token.isOpen_iff.mp hopen, hopword]
  | case6 stack r t behind ht _ hopen hclose e' hclosed =>
      cases h
      refine ⟨[t], .token (nextToken_eq_ok_iff.mp ht) (.nothing _), ?_⟩
      simpa [stackWords, Token.isClose_iff.mp hclose] using stackWords_of_closeForm? hclosed
  | case7 stack r t behind ht _ hopen hclose e' below hbelow hclosed ih =>
      obtain ⟨ts, hts, hwords⟩ := ih h
      refine ⟨t :: ts, .token (nextToken_eq_ok_iff.mp ht) hts, ?_⟩
      rw [hwords, stackWords, Entry.words, stackWords_of_closeForm? hclosed]
      simp [Token.isClose_iff.mp hclose]
  | case8 r t behind ht _ hopen hclose =>
      cases h
      refine ⟨[t], .token (nextToken_eq_ok_iff.mp ht) (.nothing _), ?_⟩
      rw [words_atom (kind_ne_of_nextToken ht hopen hclose)]
      rfl
  | case9 stack r t behind ht _ hopen hclose hne ih =>
      obtain ⟨ts, hts, hwords⟩ := ih h
      refine ⟨t :: ts, .token (nextToken_eq_ok_iff.mp ht) hts, ?_⟩
      rw [hwords, stackWords, Entry.words, words_atom (kind_ne_of_nextToken ht hopen hclose)]
      simp [Token.word]

/-! ## Words that are no parentheses -/

/-- If each node of some expressions is one of their words that are no parentheses, the same holds of
all of them together. -/
theorem sizeList_eq_countP {es : List Expr}
    (h : ∀ e ∈ es, e.size = e.words.countP (·.1 != .parenthesis)) :
    sizeList es = (wordsAll es).countP (·.1 != .parenthesis) := by
  induction es with
  | nil => rfl
  | cons e es ih =>
      obtain ⟨he, hes⟩ := List.forall_mem_cons.mp h
      rw [sizeList, wordsAll, List.countP_append, ← he, ← ih hes]

/-- Each node of a proper expression is one of its words that are no parentheses. -/
theorem IsProper.size_eq_countP (h : e.IsProper) :
    e.size = e.words.countP (·.1 != .parenthesis) := by
  induction h with
  | @atom kind text hkind =>
      rw [words_atom hkind]
      simp [Expr.atom, size, sizeList, hkind]
  | @form operator operands _ ih =>
      rw [Expr.form, size, sizeList_eq_countP ih, words]
      simp

/-- **Nodes are counted, and they are the words.** Counting the nodes of a tree comes to an end
after as many rounds as the tree has nodes, and gives their number, which is one more than its
children have together. The expression that a source is parsed to is made of exactly the tokens that
the reader has yielded when parsing ends, and has as many nodes as there are tokens among them that
are no parentheses. -/
theorem len_counts_nodes :
    (∀ e : Expr, Tally.visits? e.size ⟨0, [e]⟩ = some ⟨e.size, []⟩ ∧ e.len = e.size ∧
      e.size = 1 + (e.children.map size).sum) ∧
    (∀ source e, parse source = .ok e → ∃ consumed after,
      readExpr [] (Reader.ofString source) = .ok (e, after) ∧
      (Reader.ofString source).Yields consumed after ∧
      consumed.map Token.word = e.words ∧
      e.len = consumed.countP (·.kind != .parenthesis)) := by
  constructor
  · intro e
    have hrounds := Tally.visits?_sizeList ⟨0, [e]⟩
    have hsize : sizeList [e] = e.size := Nat.add_zero _
    rw [hsize, Nat.zero_add] at hrounds
    exact ⟨hrounds, len_eq_size e, size_eq_sum e⟩
  · intro source e h
    have hproper : e.IsProper := (isFirst_of_parse h).1
    rw [parse] at h
    cases hread : readExpr [] (Reader.ofString source) with
    | error err =>
        rw [hread] at h
        cases h
    | ok result =>
        obtain ⟨e', after⟩ := result
        rw [hread] at h
        cases h
        obtain ⟨consumed, hyields, hwords⟩ := words_of_readExpr hread
        refine ⟨consumed, after, rfl, hyields, hwords.symm, ?_⟩
        rw [len_eq_size, hproper.size_eq_countP, hwords, stackWords, List.nil_append,
          List.countP_map]
        rfl

/-- A form within a form, with an operand behind it and a word that is not read. -/
theorem len_counts_nodes_nested :
    parse "(f (g x) \"y\") z" = .ok (form "f" [form "g" [atom .symbol "x"], atom .string "y"]) ∧
      ∃ consumed after,
        readExpr [] (Reader.ofString "(f (g x) \"y\") z") =
          .ok (form "f" [form "g" [atom .symbol "x"], atom .string "y"], after) ∧
        (Reader.ofString "(f (g x) \"y\") z").Yields consumed after ∧
        consumed.map Token.word = words (form "f" [form "g" [atom .symbol "x"], atom .string "y"]) ∧
        len (form "f" [form "g" [atom .symbol "x"], atom .string "y"]) =
          consumed.countP (·.kind != .parenthesis) := by
  have hparse : parse "(f (g x) \"y\") z" =
      .ok (form "f" [form "g" [atom .symbol "x"], atom .string "y"]) := by decide +kernel
  exact ⟨hparse, len_counts_nodes.2 _ _ hparse⟩

end Expr

end Formula
