import Formula.Arena
import Formula.Operator.Builtin
import Formula.Proofs.Building
import Formula.Proofs.Evaluation
import Mathlib.Data.List.Nodup

/-!
# Embedded texts

Code refers to the texts in it by the addresses that a store has given out for them. The compiler
has the store keep a text whenever it takes one, so that the texts of the store are those taken so
far, and the records of texts have the addresses that were given out, one after another and in the
same order (`Draft.Embeds`).

In an arena such an address is that of a reference, and behind the reference is the text
(`Arena.Apart.text?_eq`). This holds wherever the boxes are, if those with bytes are at different
places and none is at zero (`Arena.Apart`), and it stays so however the arena grows. So the checker
finds the texts of the arena, in their order (`Checker.reads_of_steps`).
-/

namespace Formula

/-! ## Keeping texts one after another -/

namespace TextStore

variable {σ : Type} [TextStore σ]

/-- The store with some texts more. -/
def retainAll (store : σ) (texts : List String) : σ :=
  texts.foldl (fun store text => (retain store text).2) store

/-- The addresses that are given out when texts are kept one after another. -/
def returned (store : σ) : List String → List UInt64
  | [] => []
  | text :: texts => (retain store text).1 :: returned (retain store text).2 texts

variable (store : σ) (text : String) (texts more : List String)

@[simp]
theorem retainAll_nil : retainAll store [] = store := rfl

@[simp]
theorem retainAll_cons :
    retainAll store (text :: texts) = retainAll (retain store text).2 texts := rfl

@[simp]
theorem retainAll_append :
    retainAll store (texts ++ more) = retainAll (retainAll store texts) more :=
  List.foldl_append

@[simp]
theorem returned_nil : returned store [] = [] := rfl

@[simp]
theorem returned_cons :
    returned store (text :: texts) =
      (retain store text).1 :: returned (retain store text).2 texts := rfl

@[simp]
theorem returned_append :
    returned store (texts ++ more) =
      returned store texts ++ returned (retainAll store texts) more := by
  induction texts generalizing store with
  | nil => rfl
  | cons text texts ih => simp [ih]

@[simp]
theorem length_returned : (returned store texts).length = texts.length := by
  induction texts generalizing store with
  | nil => rfl
  | cons text texts ih => simp [ih]

end TextStore

/-! ## Arenas -/

@[simp]
theorem Text.fromUTF8?_toByteArray (text : String) :
    String.fromUTF8? text.toByteArray = some text := by
  rw [String.fromUTF8?, dif_pos text.isValidUTF8]
  rfl

namespace Arena

open TextStore

variable {a : Arena} {address : UInt64} {text : String} {texts : List String}

/-- The addresses of the boxes that have bytes in them. -/
def occupied (a : Arena) : List UInt64 :=
  (a.texts.toList.filter fun box => 0 < box.value.utf8ByteSize).map Boxed.address ++
    a.references.toList.map Boxed.address

/-- Boxes are where an allocator may put them: none is at zero, and no two that have bytes in them
are at the same place. Boxes without bytes may share an address. -/
structure Apart (a : Arena) : Prop where
  nonzero : (0 : UInt64) ∉ a.live
  distinct : a.occupied.Nodup

/-- Each reference refers to the text at its place. -/
def Linked (a : Arena) : Prop :=
  a.references.toList.map Boxed.value = a.texts.toList.map TextRef.of

/-- Texts are added at the end. -/
@[simp]
theorem texts_retainAll (a : Arena) (texts : List String) :
    (retainAll a texts).texts.toList.map Boxed.value =
      a.texts.toList.map Boxed.value ++ texts := by
  induction texts generalizing a with
  | nil => simp
  | cons text texts ih => simp [ih, retain]

/-- The references are at the addresses that were given out. -/
@[simp]
theorem references_retainAll (a : Arena) (texts : List String) :
    (retainAll a texts).references.toList.map Boxed.address =
      a.references.toList.map Boxed.address ++ returned a texts := by
  induction texts generalizing a with
  | nil => simp
  | cons text texts ih => simp [ih, retain]

/-- A new reference refers to the new text. -/
theorem Linked.retainAll (ha : a.Linked) (texts : List String) :
    (TextStore.retainAll a texts).Linked := by
  induction texts generalizing a with
  | nil => exact ha
  | cons text texts ih =>
      refine ih ?_
      unfold Linked at ha ⊢
      simp [retain, ha]

/-- The reference at an address is the only one there. -/
theorem Apart.find?_reference (ha : a.Apart) {ref : Boxed TextRef}
    (href : ref ∈ a.references.toList) :
    a.references.find? (·.address == ref.address) = some ref := by
  have hpairs : a.references.toList.Pairwise fun x y =>
      ¬((x.address == ref.address) = true ∧ (y.address == ref.address) = true) := by
    refine (List.pairwise_map.mp ha.distinct.of_append_right).imp ?_
    rintro x y hne ⟨hx, hy⟩
    exact hne ((beq_iff_eq.mp hx).trans (beq_iff_eq.mp hy).symm)
  rw [← Array.find?_toList, find?_eq_some_iff_of_pairwise hpairs]
  exact ⟨href, beq_self_eq_true _⟩

/-- A box with bytes is the only one at its address. -/
theorem Apart.find?_text (ha : a.Apart) {box : Boxed String} (hbox : box ∈ a.texts.toList)
    {size : Nat} (hpos : 0 < size) (hsize : size ≤ box.value.utf8ByteSize) :
    a.texts.find? (fun other => other.address == box.address && size ≤ other.value.utf8ByteSize) =
      some box := by
  have hpairs : a.texts.toList.Pairwise fun x y =>
      ¬((x.address == box.address && decide (size ≤ x.value.utf8ByteSize)) = true ∧
        (y.address == box.address && decide (size ≤ y.value.utf8ByteSize)) = true) := by
    have hdistinct := List.pairwise_filter.mp (List.pairwise_map.mp ha.distinct.of_append_left)
    refine hdistinct.imp ?_
    simp only [Bool.and_eq_true, beq_iff_eq, decide_eq_true_eq]
    rintro x y hne ⟨⟨hx, hxsize⟩, hy, hysize⟩
    exact hne (by omega) (by omega) (hx.trans hy.symm)
  rw [← Array.find?_toList, find?_eq_some_iff_of_pairwise hpairs]
  exact ⟨hbox, by simpa using hsize⟩

/-- A reference to a text refers to the bytes of the text. -/
theorem Apart.bytes?_of (ha : a.Apart) {box : Boxed String} (hbox : box ∈ a.texts.toList)
    (hsize : box.value.utf8ByteSize < UInt64.size) :
    a.bytes? (.of box) = some box.value.toByteArray := by
  have hlength : (TextRef.of box).length.toNat = box.value.utf8ByteSize :=
    UInt64.toNat_ofNat_of_lt' hsize
  unfold bytes?
  by_cases hzero : (TextRef.of box).length = 0
  · have hempty : box.value.utf8ByteSize = 0 := by
      rw [← hlength, hzero]
      rfl
    rw [if_pos hzero, String.utf8ByteSize_eq_zero_iff.mp hempty]
    rfl
  · have hpos : 0 < box.value.utf8ByteSize := by
      rw [← hlength]
      exact Nat.pos_of_ne_zero fun h => hzero (UInt64.toNat_inj.mp h)
    rw [if_neg hzero, hlength]
    dsimp only
    have hfind := ha.find?_text hbox hpos (Nat.le_refl _)
    show (a.texts.find? fun other => other.address == box.address && _).map _ = _
    rw [hfind, Option.map_some]
    exact congrArg some ByteArray.extract_zero_size

/-- Behind the address of a reference is the text at its place. -/
theorem Apart.text?_eq (ha : a.Apart) (hlinked : a.Linked) {k : Nat}
    (haddress : (a.references.toList.map Boxed.address)[k]? = some address)
    (htext : (a.texts.toList.map Boxed.value)[k]? = some text)
    (hsize : text.utf8ByteSize < UInt64.size) : a.text? address = some text := by
  rw [List.getElem?_map] at haddress htext
  obtain ⟨ref, href, rfl⟩ := Option.map_eq_some_iff.mp haddress
  obtain ⟨box, hbox, rfl⟩ := Option.map_eq_some_iff.mp htext
  have hvalue : ref.value = .of box := by
    have hplace := congrArg (fun values => values[k]?) hlinked
    simpa [href, hbox] using hplace
  have hmem : ref ∈ a.references.toList := List.mem_of_getElem? href
  have hmem' : box ∈ a.texts.toList := List.mem_of_getElem? hbox
  have hnonzero : ref.address ≠ 0 := by
    rintro hzero
    exact ha.nonzero (List.mem_append_right _ (List.mem_map.mpr ⟨ref, hmem, hzero⟩))
  have hstart : ref.value.start ≠ 0 := by
    rw [hvalue]
    rintro hzero
    exact ha.nonzero (List.mem_append_left _ (List.mem_map.mpr ⟨box, hmem', hzero⟩))
  rw [text?, if_neg hnonzero, descriptor?, ha.find?_reference hmem, Option.bind_some,
    if_neg hstart, hvalue, ha.bytes?_of hmem' hsize]
  exact Text.fromUTF8?_toByteArray box.value

variable {allocator : Allocator}

/-- An address that was given out has its text behind it, however many texts are kept later. -/
theorem exists_text?_of_returned (hsmall : ∀ text ∈ texts, text.utf8ByteSize < UInt64.size) {k : Nat}
    (hk : (returned (empty allocator) texts)[k]? = some address) :
    ∃ text, texts[k]? = some text ∧
      ∀ more, (TextStore.retainAll (empty allocator) (texts ++ more)).Apart →
        (TextStore.retainAll (empty allocator) (texts ++ more)).text? address = some text := by
  obtain ⟨hlt, -⟩ := List.getElem?_eq_some_iff.mp hk
  have hlinked : (empty allocator).Linked := rfl
  rw [length_returned] at hlt
  refine ⟨texts[k], List.getElem?_eq_getElem hlt, fun more ha => ?_⟩
  refine ha.text?_eq (k := k) (hlinked.retainAll _) ?_ ?_ (hsmall _ (List.getElem_mem hlt))
  · simpa [references_retainAll, List.getElem?_append_left, hlt] using hk
  · simp [texts_retainAll, List.getElem?_append_left, hlt]

/-- Whoever finds the texts of an arena behind its addresses reads, one after another, the texts that
were kept. -/
theorem map_read_returned (hsmall : ∀ text ∈ texts, text.utf8ByteSize < UInt64.size)
    (ha : (TextStore.retainAll (empty allocator) texts).Apart) {read : UInt64 → Option String}
    (hread : ∀ address text, (TextStore.retainAll (empty allocator) texts).text? address = some text →
      read address = some text) :
    (returned (empty allocator) texts).map read = texts.map some := by
  refine List.ext_getElem? fun k => ?_
  rw [List.getElem?_map, List.getElem?_map]
  cases hk : (returned (empty allocator) texts)[k]? with
  | none =>
      have hle := List.getElem?_eq_none_iff.mp hk
      rw [length_returned] at hle
      rw [List.getElem?_eq_none hle]
      rfl
  | some address =>
      obtain ⟨text, htext, hmore⟩ := exists_text?_of_returned hsmall hk
      have hfound := hmore []
      rw [List.append_nil] at hfound
      rw [htext, Option.map_some, Option.map_some, hread address text (hfound ha)]

/-- An arena owns the addresses that it has given out and no others. -/
theorem owns_retainAll (allocator : Allocator) (texts : List String) (address : UInt64) :
    (TextStore.retainAll (empty allocator) texts).owns address = true ↔
      address ∈ returned (empty allocator) texts := by
  have haddresses := references_retainAll (empty allocator) texts
  rw [owns, ← Array.any_toList, List.any_eq_true]
  simp only [beq_iff_eq]
  rw [← List.mem_map, haddresses]
  simp

end Arena

/-! ## Records of texts -/

/-- Values other than texts are written by words of other kinds. -/
theorem Ty.kind_ne_string {type : Ty} (h : type ≠ .string) : type.kind ≠ .string := by
  cases type with
  | bool | int | float => decide
  | string => exact absurd rfl h

namespace Record

/-- The address that a record of a text refers to. -/
def textAddress? (r : Record) : Option UInt64 :=
  if r.kind? = some .string then some r.payload else none

@[simp]
theorem textAddress?_ofKind (kind : Kind) (word : UInt64) :
    (ofKind kind word).textAddress? = if kind = .string then some word else none := by
  simp only [textAddress?, kind?_ofKind, Option.some.injEq]
  rfl

@[simp]
theorem textAddress?_apply (opcode : UInt64) : (apply opcode).textAddress? = none :=
  textAddress?_ofKind .parenthesis opcode

@[simp]
theorem textAddress?_markFloat (r : Record) : r.markFloat.textAddress? = r.textAddress? := by
  rw [textAddress?, kind?_markFloat]
  rfl

@[simp]
theorem textAddress?_clearMark (r : Record) : r.clearMark.textAddress? = r.textAddress? := by
  rw [textAddress?, kind?_clearMark]
  rfl

end Record

/-- The text of a text. -/
def Visit.string? (v : Visit) : Option String :=
  if v.kind = .string then some v.text else none

/-- The texts that the compiler takes, from left to right and as often as they occur. -/
def Expr.takenTexts (scope : Scope) (e : Expr) : List String :=
  (e.taken scope).filterMap Visit.string?

section Stores

variable {π σ : Type} [TextStore σ]

namespace Draft

open TextStore

variable {scope : Scope} {store : σ} {d d' : Draft π σ} {texts : List String}

/-- Drafts in which `texts` have been taken: a store has kept them one after another, the records
of texts have the addresses that it gave out for them, and none was too large. -/
structure Embeds (store : σ) (texts : List String) (d : Draft π σ) : Prop where
  kept : d.constants = retainAll store texts
  records : d.code.toList.filterMap Record.textAddress? = returned store texts
  small : ∀ text ∈ texts, text.utf8ByteSize < textSizeLimit

theorem embeds_ofStores (params : π) (store : σ) : Embeds store [] (ofStores params store) :=
  ⟨rfl, rfl, nofun⟩

/-- The length of a text that was taken is a word. -/
theorem Embeds.size_lt (hd : d.Embeds store texts) {text : String} (htext : text ∈ texts) :
    text.utf8ByteSize < UInt64.size :=
  (hd.small text htext).trans (by decide)

/-- A record that is no text takes no texts. -/
theorem Embeds.push (hd : d.Embeds store texts) {r : Record} (hr : r.textAddress? = none)
    (hcode : d'.code = d.code.push r) (hkept : d'.constants = d.constants) :
    d'.Embeds store texts :=
  ⟨hkept.trans hd.kept, by simp [hcode, hr, hd.records], hd.small⟩

/-- A text is kept, and its record has the address that is given out for it. -/
theorem Embeds.text (hd : d.Embeds store texts) {text : String}
    (hsize : text.utf8ByteSize < textSizeLimit) :
    (d.pushText text).Embeds store (texts ++ [text]) := by
  refine ⟨?_, ?_, ?_⟩
  · simp [hd.kept]
  · simp [hd.kept, hd.records]
  · intro other hother
    rcases List.mem_append.mp hother with hother | hother
    · exact hd.small other hother
    · rwa [List.mem_singleton.mp hother]

theorem Embeds.mark (hd : d.Embeds store texts) : d.mark.Embeds store texts :=
  ⟨hd.kept, (d.filterMap_code_mark Record.textAddress?_markFloat).trans hd.records, hd.small⟩

/-- Whoever finds the texts of an arena behind its addresses reads, behind those in the code, the
texts that were taken. -/
theorem Embeds.map_read {d : Draft π Arena} {allocator : Allocator}
    (hd : d.Embeds (Arena.empty allocator) texts) (hapart : d.constants.Apart)
    {read : UInt64 → Option String}
    (hread : ∀ address text, d.constants.text? address = some text → read address = some text) :
    (d.code.toList.filterMap Record.textAddress?).map read = texts.map some := by
  rw [hd.kept] at hapart hread
  rw [hd.records]
  exact Arena.map_read_returned (fun text htext => hd.size_lt htext) hapart hread

variable [SlotStore π]

/-- Taking a node takes the text that it is, if it is one. -/
theorem Takes.embeds {v : Visit} (h : Takes scope d v d') (hd : d.Embeds store texts) :
    d'.Embeds store (texts ++ v.string?.toList) := by
  cases h with
  | form name count => simpa [Visit.string?] using hd
  | @value type htype text word =>
      have hkind : type.kind ≠ .string := Ty.kind_ne_string htype
      have hnone : Visit.string? ⟨type.kind, text, 0⟩ = none := if_neg hkind
      rw [hnone, Option.toList_none, List.append_nil]
      exact hd.push (by simp [hkind]) (code_pushOperand ..) (constants_pushOperand ..)
  | text hsize => exact hd.text hsize
  | symbol hname =>
      have hnone (name : String) : Visit.string? ⟨.symbol, name, 0⟩ = none := rfl
      rw [hnone, Option.toList_none, List.append_nil]
      exact hd.push (by simp) (code_pushSymbol ..) (constants_pushSymbol ..)

/-- Taking nodes takes the texts among them. -/
theorem Emits.embeds {visits : List Visit} (h : Emits scope d visits d')
    (hd : d.Embeds store texts) : d'.Embeds store (texts ++ visits.filterMap Visit.string?) := by
  induction h with
  | refl => simpa using hd
  | @visit _ v _ _ _ hv ih =>
      have hlast := hv.embeds ih
      rw [List.filterMap_append, ← List.append_assoc]
      cases hstring : v.string? <;> simpa [hstring] using hlast
  | operator _ hop _ ih =>
      exact ih.push (by simp) (code_pushOperator ..) (constants_pushOperator ..)

/-- Steps do nothing with a store but keep more texts. -/
theorem exists_retainAll_of_steps (h : Steps scope d d') :
    ∃ more, d'.constants = retainAll d.constants more := by
  induction h with
  | refl => exact ⟨[], rfl⟩
  | tail _ hstep ih =>
      obtain ⟨more, hmore⟩ := ih
      cases hstep with
      | value htype word => exact ⟨more, by simpa using hmore⟩
      | @text text hsize => exact ⟨more ++ [text], by simp [hmore]⟩
      | symbol hname => exact ⟨more, by simpa using hmore⟩
      | operator hop => exact ⟨more, by simpa using hmore⟩

end Draft

end Stores

/-! ## Checking -/

/-- The checker has read the texts that records refer to, in their order. -/
theorem Checker.reads_of_steps {registry : Registry} {read : UInt64 → Option String}
    {params : Array Ty} {records : List Record} {s : Checker}
    (h : steps registry read params .start records = .ok s) :
    (records.filterMap Record.textAddress?).map read = s.strings.toList.map some := by
  refine (steps_induction
    (P := fun done s => (done.filterMap Record.textAddress?).map read = s.strings.toList.map some)
    rfl rfl ?_ h).1
  intro done s r i s' _ hdone hchecks
  cases hchecks with
  | const type htype hcell => simpa [Ty.kind_ne_string htype] using hdone
  | text hread => simp [hdone, hread]
  | argument hparam => simpa using hdone
  | apply hop hprimitive harity hlength htypes htakes => simpa using hdone

/-- If the texts behind the addresses in code are read, then a script of the code has these
texts. -/
theorem Script.strings_of_check {registry : Registry} {read : UInt64 → Option String}
    {records : List Record} {slotTags : List Nat} {script : Script} {texts : List String}
    (hread : (records.filterMap Record.textAddress?).map read = texts.map some)
    (h : check registry read (Record.toWords records) slotTags = .ok script) :
    script.strings.toList = texts := by
  obtain ⟨first, rest, params, s, hwords, -, hsteps, hfinish⟩ := check_eq_ok_iff.mp h
  obtain ⟨type, -, -, rfl⟩ := Checker.finish_eq_ok_iff.mp hfinish
  rw [Record.ofWords?_toWords, Option.some.injEq] at hwords
  have hstrings := Checker.reads_of_steps hsteps
  -- The checker reads the first record without its mark.
  rw [List.filterMap_cons, Record.textAddress?_clearMark, ← List.filterMap_cons, ← hwords,
    hread] at hstrings
  exact ((List.map_inj_right fun _ _ => Option.some.inj).mp hstrings).symm

/-! ## Runs of builders -/

namespace Builder

open TextStore

/-- The texts that a run has taken, from left to right and as often as they occur. -/
def takenTexts (scope : Scope) (actions : List Action) : List String :=
  (appended actions).flatMap (·.takenTexts scope)

section Stores

variable {π σ : Type} [TextStore σ]

/-- What is embedded in the code of a builder is embedded in its program. -/
theorem embeds_finalize {b : Builder π σ} {store : σ} {texts : List String}
    (h : b.draft.Embeds store texts) : b.finalize.draft.Embeds store texts := by
  rcases draft_finalize b with hdraft | hdraft <;> rw [hdraft]
  · exact h
  · exact h.mark

variable [SlotStore π]

/-- After a run the texts in the code are those that were taken. -/
theorem embeds_run (scope : Scope) (params : π) (store : σ) (actions : List Action) :
    ((ofStores scope params store).run actions).draft.Embeds store (takenTexts scope actions) := by
  have hinduction := run_induction (b := ofStores scope params store)
    (P := fun es d => d.Embeds store (es.flatMap (·.takenTexts scope)))
  refine hinduction ?_ (fun es d hd => hd.mark) rfl [] (Draft.embeds_ofStores params store) actions
  intro es e d hd
  rw [List.flatMap_append, List.flatMap_singleton]
  exact (Draft.emits_taken scope e d).embeds hd

/-- A run does nothing with a store but keep more texts. -/
theorem exists_retainAll_run (b : Builder π σ) (actions : List Action) :
    ∃ more, (b.run actions).draft.constants = retainAll b.draft.constants more := by
  refine run_keeps (P := fun d : Draft π σ => ∃ more, d.constants = retainAll b.draft.constants more)
    ?_ (fun d hd => hd) ⟨[], rfl⟩ actions
  rintro e d ⟨more, hmore⟩
  obtain ⟨later, hlater⟩ := Draft.exists_retainAll_of_steps (Draft.emit_steps b.scope e d)
  exact ⟨more ++ later, by rw [hlater, hmore, retainAll_append]⟩

end Stores

/-- **Texts are embedded in the order in which they are taken.** After every run of a builder that
keeps texts in an arena, also where expressions failed, the texts of the arena are those that the
compiler has taken so far, from left to right and as often as they occur. The records of texts have,
in the same order, the addresses that the arena gave out when it kept them, and the arena owns these
addresses and no others. Wherever the allocator puts the boxes, if they are apart then behind each of
these addresses is the text that was kept there, byte for byte, however many texts are kept later and
whatever else is done with the builder. So if the program of the builder is accepted, by a checker
with any registry that finds the texts of the arena behind its addresses, then the texts of the
script are those of the arena in their order. -/
theorem texts_embedded (scope : Scope) (allocator : Allocator) (actions : List Action) :
    let b := (ofStores scope SlotTable.empty (Arena.empty allocator)).run actions
    let arena := b.draft.constants
    let texts := takenTexts scope actions
    let addresses := returned (Arena.empty allocator) texts
    arena.texts.toList.map Boxed.value = texts ∧
    b.draft.code.toList.filterMap Record.textAddress? = addresses ∧
    (∀ address, arena.owns address = true ↔ address ∈ addresses) ∧
    (∀ (k : Nat) (address : UInt64), addresses[k]? = some address → ∃ text,
      texts[k]? = some text ∧
      (∀ more, (retainAll arena more).Apart → (retainAll arena more).text? address = some text) ∧
      ∀ later, (b.run later).draft.constants.Apart →
        (b.run later).draft.constants.text? address = some text) ∧
    (arena.Apart → ∀ (registry : Registry) (read : UInt64 → Option String) (script : Script),
      (∀ address text, b.toProgram.constants.text? address = some text →
        read address = some text) →
      Script.check registry read b.toProgram.words b.toProgram.slotTags = .ok script →
      script.strings.toList = texts ∧
        script.strings = b.toProgram.constants.texts.map Boxed.value) := by
  intro b arena texts addresses
  have hd : b.draft.Embeds (Arena.empty allocator) texts := embeds_run scope _ _ actions
  have hkept : arena = retainAll (Arena.empty allocator) texts := hd.kept
  have htexts : arena.texts.toList.map Boxed.value = texts := by
    simp [hkept, Arena.texts_retainAll]
  refine ⟨htexts, hd.records, ?_, ?_, ?_⟩
  · intro address
    rw [hkept]
    exact Arena.owns_retainAll allocator texts address
  · intro k address hk
    obtain ⟨text, htext, hmore⟩ :=
      Arena.exists_text?_of_returned (fun text htext => hd.size_lt htext) hk
    simp only [retainAll_append, ← hkept] at hmore
    refine ⟨text, htext, hmore, ?_⟩
    intro later hapart
    obtain ⟨more, hlater⟩ := exists_retainAll_run b later
    rw [hlater] at hapart ⊢
    exact hmore more hapart
  · intro hapart registry read script hread hcheck
    have hfinal : b.finalize.draft.Embeds (Arena.empty allocator) texts := embeds_finalize hd
    have hconstants : b.toProgram.constants = arena := hfinal.kept.trans hkept.symm
    rw [← hconstants] at hapart
    have hstrings := Script.strings_of_check (hfinal.map_read hapart hread) hcheck
    refine ⟨hstrings, Array.toList_inj.mp ?_⟩
    rw [hstrings, Array.toList_map, hconstants, htexts]

/-- Puts each box with bytes on a page of its own, and boxes without bytes at one. -/
def pagedAllocator : Allocator :=
  ⟨fun live bytes => if bytes = 0 then 1 else UInt64.ofNat (0x1000 * (live.length + 1))⟩

/-- A symbol fails, and the length of a text and its place in another one are added, and then that of
a text without bytes. The four texts are kept at four addresses, of which the first and the third have
the same text behind them. Two more texts without bytes are put where the fourth is. -/
theorem texts_embedded_twice :
    let actions : List Action := [.append (.atom .symbol "y"), .append (.form "+"
      [.form "len" [.atom .string "é"], .form "index" [.atom .string "café", .atom .string "é"],
        .form "len" [.atom .string ""]])]
    let b := (ofStores ⟨.builtin, []⟩ SlotTable.empty (Arena.empty pagedAllocator)).run actions
    let arena := b.draft.constants
    arena.texts.toList.map Boxed.value = ["é", "café", "é", ""] ∧
    b.draft.code.toList.filterMap Record.textAddress? = [0x2000, 0x4000, 0x6000, 0x8000] ∧
    arena.owns 0x8000 = true ∧ arena.owns 1 = false ∧
    (retainAll arena ["", "x", ""]).Apart ∧
    (retainAll arena ["", "x", ""]).text? 0x4000 = some "café" ∧
    arena.Apart ∧
    ∃ script, Script.check .builtin b.toProgram.constants.text? b.toProgram.words
      b.toProgram.slotTags = .ok script ∧ script.strings = #["é", "café", "é", ""] := by
  intro actions b arena
  obtain ⟨htexts, haddresses, howns, hreads, hstrings⟩ :=
    texts_embedded ⟨.builtin, []⟩ pagedAllocator actions
  have htaken : takenTexts ⟨.builtin, []⟩ actions = ["é", "café", "é", ""] := by decide +kernel
  rw [htaken] at htexts haddresses howns hreads hstrings
  have hapart : arena.Apart := ⟨by decide +kernel, by decide +kernel⟩
  have hgrown : (retainAll arena ["", "x", ""]).Apart := ⟨by decide +kernel, by decide +kernel⟩
  refine ⟨htexts, haddresses.trans (by decide +kernel), (howns _).mpr (by decide +kernel), ?_,
    hgrown, ?_, hapart, ?_⟩
  · rw [Bool.eq_false_iff, ne_eq, howns]
    decide +kernel
  · obtain ⟨text, htext, hmore, -⟩ := hreads 1 0x4000 (by decide +kernel)
    cases htext
    exact hmore ["", "x", ""] hgrown
  · let script : Script := ⟨#[.text 0, .apply (.unary .textLength), .text 1, .text 2,
      .apply (.binary .textIndex), .apply (.binary .add), .text 3, .apply (.unary .textLength),
      .apply (.binary .add)], #["é", "café", "é", ""], 3, false⟩
    have hcheck : Script.check .builtin b.toProgram.constants.text? b.toProgram.words
        b.toProgram.slotTags = .ok script := by decide +kernel
    exact ⟨script, hcheck, Array.toList_inj.mp (hstrings hapart _ _ _ (fun _ _ h => h) hcheck).1⟩

end Builder

end Formula
