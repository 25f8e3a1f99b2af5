import Formula.Session
import Mathlib.Data.List.Nodup
import Mathlib.Data.List.Perm.Basic

/-!
# The life of handles

A session goes through compilations, calls, releases and drops, and the generator it works with
may accept or refuse any code along the way. Whether it accepts the program of a source is said
apart from the ledger (`Engine.accepted?`), and a handle is given out exactly then
(`Engine.compile_eq`). The handles of the stored functions together with those freed are always the
handles given out, each of them once (`Session.Sound`). So no handle is lost and none is freed
twice, whatever the order of the steps.
-/

namespace Formula

/-! ## Calls of released functions -/

namespace Function

/-- Arguments are refused for what they are, not for a release. -/
theorem slotsFor_ne_released (args : Arguments) (params : List (String × Ty)) :
    slotsFor args params ≠ .error .released := by
  induction params with
  | nil => nofun
  | cons param params ih =>
      obtain ⟨name, type⟩ := param
      simp only [slotsFor]
      split
      · nofun
      · split
        · rename_i fault _
          cases fault <;> nofun
        · split
          · rename_i fault hfault
            rw [hfault] at ih
            exact ih
          · nofun

/-- A call answers that the function is released if and only if it is. -/
theorem call_eq_released_iff (f : Function) (args : Arguments) :
    f.call args = .error .released ↔ f.isReleased = true := by
  unfold call
  split
  · rename_i hreleased
    simp [hreleased]
  · rename_i hlive
    have hslots := slotsFor_ne_released args (f.program.slotNames.zip f.program.slotTypes)
    split
    · rename_i fault hfault
      rw [hfault] at hslots
      exact ⟨fun h => absurd (congrArg Except.error (Except.error.inj h)) hslots,
        fun h => absurd h hlive⟩
    · exact ⟨nofun, fun h => absurd h hlive⟩

/-- A call with words answers that the function is released if and only if it is. -/
theorem callWords_eq_released_iff (f : Function) (read : UInt64 → Option String)
    (words : Array UInt64) : f.callWords read words = .error .released ↔ f.isReleased = true := by
  unfold callWords
  dsimp only
  split_ifs with hreleased hfew
  · simp [hreleased]
  · exact ⟨nofun, fun h => absurd h hreleased⟩
  · exact ⟨nofun, fun h => absurd h hreleased⟩

end Function

/-! ## Acceptance by the generator -/

namespace Engine

/-- The program of a source and the script that the generator makes of it, if the source parses, the
expression compiles and the generator accepts the code. -/
def accepted? (engine : Engine) (source : String) (symbols : Declarations) :
    Option (Program × Script) := do
  let e ← (Expr.parse source).toOption
  let program ← (Program.compile e symbols engine.registry).toOption
  let script ← engine.generator.generate program.words program.slotTags program.constants.text?
  return (program, script)

/-- A handle is given out if and only if the generator accepts, and then it goes into the function.
In all other cases there is an error, and the ledger stays as it is. -/
theorem compile_eq (engine : Engine) (ledger : Ledger) (source : String) (symbols : Declarations) :
    (engine.accepted? source symbols = none ∧
        ∃ fault, engine.compile ledger source symbols = (.error fault, ledger)) ∨
      ∃ program script, engine.accepted? source symbols = some (program, script) ∧
        engine.compile ledger source symbols =
          (.ok ⟨some ledger.next, program, script, engine.requiredStack program⟩,
            ledger.accept) := by
  unfold accepted? compile create Generator.compile
  cases Expr.parse source with
  | error fault => exact .inl ⟨rfl, .parse fault, rfl⟩
  | ok e =>
    dsimp only [Except.toOption, Option.bind_eq_bind, Option.bind_some]
    cases Program.compile e symbols engine.registry with
    | error fault => exact .inl ⟨rfl, .compile fault, rfl⟩
    | ok program =>
      dsimp only [Option.bind_some]
      cases engine.generator.generate program.words program.slotTags program.constants.text? with
      | none => exact .inl ⟨rfl, .backend, rfl⟩
      | some script => exact .inr ⟨program, script, rfl, rfl⟩

/-- A function is built under the handle that is asked for. -/
theorem handle_of_build {engine : Engine} {handle : Nat} {source : String}
    {symbols : Declarations} {f : Function} (h : engine.build handle source symbols = .ok f) :
    f.handle = some handle := by
  unfold build at h
  rcases compile_eq engine (.startingAt handle) source symbols with
    ⟨-, fault, hcompile⟩ | ⟨program, script, -, hcompile⟩
  · rw [hcompile] at h
    cases h
  · rw [hcompile] at h
    cases h
    rfl

end Engine

namespace Session

variable {s : Session} {name : String} {f : Function}

/-! ## Steps -/

/-- What can happen in a session. -/
inductive Step where
  /-- A source is compiled, and the function takes the place of an older one. -/
  | compile (name source : String) (symbols : Declarations)
  | call (name : String) (args : Arguments)
  | callWords (name : String) (read : UInt64 → Option String) (words : Array UInt64)
  | release (name : String)
  | drop (name : String)
  /-- From now on the generator behaves in another way. -/
  | regenerate (generator : Generator)

/-- What a step answers. -/
inductive Reply where
  | built (result : Except BuildError Function)
  /-- The result of a call, if there is a function with the name. -/
  | called (result : Option (Except CallError Outcome))
  | done

/-- The number of programs that the generator of an engine accepts in a step. -/
def Step.acceptances (engine : Engine) : Step → Nat
  | compile _ source symbols => (engine.accepted? source symbols).toList.length
  | _ => 0

/-- Steps that end the function with a name if there is one. -/
def Step.Ends : Step → String → Prop
  | compile name _ _, other | release name, other | drop name, other => name = other
  | _, _ => False

/-- One step. -/
def perform (s : Session) : Step → Reply × Session
  | .compile name source symbols =>
    let (result, after) := s.compile name source symbols
    (.built result, after)
  | .call name args => (.called ((s.find? name).map (·.call args)), s)
  | .callWords name read words => (.called ((s.find? name).map (·.callWords read words)), s)
  | .release name => (.done, s.release name)
  | .drop name => (.done, s.drop name)
  | .regenerate generator => (.done, { s with engine := { s.engine with generator := generator } })

/-- The session after some steps. -/
def run (s : Session) (steps : List Step) : Session :=
  steps.foldl (fun s step => (s.perform step).2) s

/-- The number of programs that the generators of a session accept in some steps. -/
def acceptances (s : Session) : List Step → Nat
  | [] => 0
  | step :: steps => step.acceptances s.engine + (s.perform step).2.acceptances steps

/-- Keeps a new function under a name that is not in use, with a new handle. -/
def add (s : Session) (name : String) (f : Function) : Session :=
  { s with functions := (name, f) :: s.functions, ledger := s.ledger.accept }

/-! ## Functions by name -/

/-- The function with a name is the first one or one of the others. -/
theorem lookup_cons_eq (key other : String) (f : Function)
    (functions : List (String × Function)) :
    ((key, f) :: functions).lookup other =
      if key = other then some f else functions.lookup other := by
  rw [List.lookup_cons]
  by_cases hkey : key = other
  · simp [hkey]
  · have hne : (other == key) = false := by simpa using Ne.symm hkey
    simp [hkey, hne]

@[simp]
theorem functions_drop (s : Session) (name : String) :
    (s.drop name).functions = s.functions.filter (·.1 != name) := by
  unfold drop
  cases hfind : s.find? name with
  | none =>
      have hother := List.lookup_eq_none_iff.mp hfind
      refine (List.filter_eq_self.mpr fun entry hentry => ?_).symm
      rw [bne_comm]
      exact hother entry hentry
  | some f => simp

@[simp]
theorem first_drop (s : Session) (name : String) : (s.drop name).ledger.first = s.ledger.first := by
  unfold drop
  cases s.find? name <;> simp

@[simp]
theorem accepted_drop (s : Session) (name : String) :
    (s.drop name).ledger.accepted = s.ledger.accepted := by
  unfold drop
  cases s.find? name <;> simp

@[simp]
theorem freed_drop (s : Session) (name : String) :
    (s.drop name).ledger.freed =
      ((s.find? name).bind Function.handle).toList ++ s.ledger.freed := by
  unfold drop
  cases s.find? name <;> simp

@[simp]
theorem first_release (s : Session) (name : String) :
    (s.release name).ledger.first = s.ledger.first := by
  unfold release
  cases s.find? name <;> simp

@[simp]
theorem accepted_release (s : Session) (name : String) :
    (s.release name).ledger.accepted = s.ledger.accepted := by
  unfold release
  cases s.find? name <;> simp

@[simp]
theorem freed_release (s : Session) (name : String) :
    (s.release name).ledger.freed =
      ((s.find? name).bind Function.handle).toList ++ s.ledger.freed := by
  unfold release
  cases s.find? name <;> simp

@[simp]
theorem next_drop (s : Session) (name : String) : (s.drop name).ledger.next = s.ledger.next := by
  simp [Ledger.next]

/-- A handle is given out before or after a drop to the same effect. -/
theorem drop_accept (s : Session) (name : String) :
    { s with ledger := s.ledger.accept }.drop name =
      { s.drop name with ledger := (s.drop name).ledger.accept } := by
  unfold drop find?
  cases s.functions.lookup name with
  | none => rfl
  | some f =>
      simp only [free]
      cases f.handle <;> rfl

/-- A compilation drops the older function and keeps the new one, which has the next handle, if the
generator accepts, and changes nothing otherwise. -/
theorem compile_eq (s : Session) (name source : String) (symbols : Declarations) :
    (s.engine.accepted? source symbols = none ∧
        ∃ fault, s.compile name source symbols = (.error fault, s)) ∨
      ∃ f, s.engine.accepted? source symbols = some (f.program, f.script) ∧
        f.handle = some s.ledger.next ∧
        s.compile name source symbols = (.ok f, (s.drop name).add name f) := by
  unfold compile
  rcases s.engine.compile_eq s.ledger source symbols with
    ⟨haccepted, fault, h⟩ | ⟨program, script, haccepted, h⟩
  · exact .inl ⟨haccepted, fault, by rw [h]⟩
  · refine .inr ⟨⟨some s.ledger.next, program, script, s.engine.requiredStack program⟩, haccepted,
      rfl, ?_⟩
    rw [h]
    dsimp only
    rw [drop_accept]
    rfl

/-- A drop forgets the function with the name and no other. -/
@[simp]
theorem find?_drop (s : Session) (name other : String) :
    (s.drop name).find? other = if name = other then none else s.find? other := by
  unfold find?
  rw [functions_drop]
  induction s.functions with
  | nil => simp
  | cons entry functions ih =>
      obtain ⟨key, f⟩ := entry
      by_cases hkey : key = name
      · subst hkey
        have hskip : ((key, f) :: functions).filter (·.1 != key) =
            functions.filter (·.1 != key) := by simp
        rw [hskip, ih, lookup_cons_eq]
        split_ifs <;> rfl
      · have hkeep : ((key, f) :: functions).filter (·.1 != name) =
            (key, f) :: functions.filter (·.1 != name) := by simp [hkey]
        rw [hkeep, lookup_cons_eq, lookup_cons_eq, ih]
        by_cases hother : key = other
        · have hname : ¬name = other := fun h => hkey (hother.trans h.symm)
          simp [hother, hname]
        · simp [hother]

/-- A release releases the function with the name and no other. -/
@[simp]
theorem find?_release (s : Session) (name other : String) :
    (s.release name).find? other =
      if name = other then (s.find? other).map Function.release else s.find? other := by
  have hmap : ∀ functions : List (String × Function),
      (functions.map (releaseNamed name)).lookup other =
        if name = other then (functions.lookup other).map Function.release
        else functions.lookup other := by
    intro functions
    induction functions with
    | nil => simp
    | cons entry functions ih =>
        obtain ⟨key, f⟩ := entry
        have hkey : (releaseNamed name (key, f)).1 = key := by
          unfold releaseNamed
          split <;> rfl
        rw [List.map_cons, ← Prod.eta (releaseNamed name (key, f)), hkey, lookup_cons_eq,
          lookup_cons_eq, ih]
        by_cases hother : key = other
        · subst hother
          by_cases hname : name = key
          · simp [releaseNamed, hname]
          · simp [releaseNamed, hname, Ne.symm hname]
        · simp [hother]
  unfold release
  cases hfind : s.find? name with
  | none =>
      by_cases hother : name = other
      · subst hother
        simp [hfind]
      · simp [hother]
  | some f => simpa [find?] using hmap s.functions

/-! ## Handles -/

/-- The handles of functions that are not released. -/
def handles (functions : List (String × Function)) : List Nat :=
  functions.filterMap (·.2.handle)

/-- Names are in use once, and each handle given out so far either belongs to one function or has
been freed once. -/
structure Sound (s : Session) : Prop where
  names : (s.functions.map Prod.fst).Nodup
  balance : (handles s.functions ++ s.ledger.freed).Perm
    (List.range' s.ledger.first s.ledger.accepted)

/-- There are as many handles as functions that are not released. -/
theorem length_handles (functions : List (String × Function)) :
    (handles functions).length = functions.countP (fun entry => !entry.2.isReleased) := by
  induction functions with
  | nil => rfl
  | cons entry functions ih =>
      cases hhandle : entry.2.handle with
      | none => simp_all [handles, Function.isReleased]
      | some handle => simp_all [handles, Function.isReleased]

/-- The handle of one function among those of all. -/
theorem handles_split (before after : List (String × Function)) (name : String) (f : Function) :
    (handles (before ++ (name, f) :: after)).Perm
      (f.handle.toList ++ handles (before ++ after)) := by
  have hmiddle : (before ++ (name, f) :: after).Perm ((name, f) :: (before ++ after)) :=
    List.perm_middle
  refine (hmiddle.filterMap (·.2.handle)).trans (.of_eq ?_)
  cases hhandle : f.handle <;> simp [handles, hhandle]

/-- A stored function stands at one place among the others. -/
theorem exists_split (hnames : (s.functions.map Prod.fst).Nodup) (hfind : s.find? name = some f) :
    ∃ before after, s.functions = before ++ (name, f) :: after ∧
      ∀ entry ∈ before ++ after, entry.1 ≠ name := by
  obtain ⟨before, after, hsplit, -⟩ := List.lookup_eq_some_iff.mp hfind
  refine ⟨before, after, hsplit, ?_⟩
  intro entry hentry hname
  rw [hsplit, List.map_append, List.map_cons, List.nodup_middle, List.nodup_cons,
    ← List.map_append] at hnames
  exact hnames.1 (List.mem_map.mpr ⟨entry, hentry, hname⟩)

/-- A release changes one function among the others. -/
theorem functions_release (hfind : s.find? name = some f) {before after : List (String × Function)}
    (hsplit : s.functions = before ++ (name, f) :: after)
    (hothers : ∀ entry ∈ before ++ after, entry.1 ≠ name) :
    (s.release name).functions = before ++ (name, f.release) :: after := by
  have hkeep : ∀ entry ∈ before ++ after, releaseNamed name entry = entry := by
    intro entry hentry
    simp [releaseNamed, hothers entry hentry]
  have hbefore : before.map (releaseNamed name) = before :=
    (List.map_congr_left fun entry hentry => hkeep entry (by simp [hentry])).trans (List.map_id _)
  have hafter : after.map (releaseNamed name) = after :=
    (List.map_congr_left fun entry hentry => hkeep entry (by simp [hentry])).trans (List.map_id _)
  have hfunctions : (s.release name).functions = s.functions.map (releaseNamed name) := by
    simp [release, hfind]
  rw [hfunctions, hsplit, List.map_append, List.map_cons, hbefore, hafter]
  simp [releaseNamed]

/-! ## What steps keep -/

/-- The handle of a function that ends goes from the handles in use to those freed. -/
theorem Sound.perm_freed (hs : s.Sound) {before after : List (String × Function)}
    (hsplit : s.functions = before ++ (name, f) :: after) :
    (handles (before ++ after) ++ (f.handle.toList ++ s.ledger.freed)).Perm
      (List.range' s.ledger.first s.ledger.accepted) := by
  have hhandles := handles_split before after name f
  rw [← hsplit] at hhandles
  rw [← List.append_assoc]
  exact ((List.perm_append_comm.trans hhandles.symm).append_right s.ledger.freed).trans hs.balance

/-- A drop keeps a session sound. -/
theorem Sound.drop (hs : s.Sound) (name : String) : (s.drop name).Sound := by
  cases hfind : s.find? name with
  | none =>
      have hsame : s.drop name = s := by
        unfold Session.drop
        rw [hfind]
      rwa [hsame]
  | some f =>
      obtain ⟨before, after, hsplit, hothers⟩ := exists_split hs.names hfind
      have hfunctions : (s.drop name).functions = before ++ after := by
        have hkeep : (before ++ after).filter (·.1 != name) = before ++ after :=
          List.filter_eq_self.mpr fun entry hentry => by simpa using hothers entry hentry
        rw [functions_drop, hsplit, ← hkeep]
        simp
      refine ⟨?_, ?_⟩
      · rw [functions_drop]
        exact hs.names.sublist (List.filter_sublist.map Prod.fst)
      · rw [hfunctions, freed_drop, first_drop, accepted_drop, hfind]
        exact hs.perm_freed hsplit

/-- A release keeps a session sound. -/
theorem Sound.release (hs : s.Sound) (name : String) : (s.release name).Sound := by
  cases hfind : s.find? name with
  | none =>
      have hsame : s.release name = s := by
        unfold Session.release
        rw [hfind]
      rwa [hsame]
  | some f =>
      obtain ⟨before, after, hsplit, hothers⟩ := exists_split hs.names hfind
      have hnames := hs.names
      rw [hsplit] at hnames
      refine ⟨?_, ?_⟩
      · rw [functions_release hfind hsplit hothers]
        simpa using hnames
      · rw [functions_release hfind hsplit hothers, freed_release, first_release,
          accepted_release, hfind]
        exact ((handles_split before after name f.release).append_right _).trans
          (hs.perm_freed hsplit)

/-- A new function keeps a session sound if it has the next handle and a name of its own. -/
theorem Sound.add (hs : s.Sound) (hname : s.find? name = none)
    (hf : f.handle = some s.ledger.next) : (s.add name f).Sound := by
  refine ⟨?_, ?_⟩
  · have hunused : name ∉ s.functions.map Prod.fst := by
      intro hmem
      obtain ⟨entry, hentry, rfl⟩ := List.mem_map.mp hmem
      have hne := List.lookup_eq_none_iff.mp hname entry hentry
      simp at hne
    exact List.nodup_cons.mpr ⟨hunused, hs.names⟩
  · have hnext : handles (s.add name f).functions ++ (s.add name f).ledger.freed =
        s.ledger.next :: (handles s.functions ++ s.ledger.freed) := by
      simp [Session.add, handles, hf]
    have hrange : List.range' s.ledger.first (s.ledger.accepted + 1) =
        List.range' s.ledger.first s.ledger.accepted ++ [s.ledger.next] :=
      List.range'_1_concat
    rw [hnext]
    refine (hs.balance.cons _).trans ?_
    show (s.ledger.next :: List.range' s.ledger.first s.ledger.accepted).Perm
      (List.range' s.ledger.first (s.ledger.accepted + 1))
    rw [hrange]
    exact (List.perm_append_singleton _ _).symm

/-- Every step keeps a session sound. -/
theorem Sound.perform (hs : s.Sound) (step : Step) : (s.perform step).2.Sound := by
  cases step with
  | compile name source symbols =>
      show (s.compile name source symbols).2.Sound
      rcases compile_eq s name source symbols with ⟨-, fault, h⟩ | ⟨f, -, hf, h⟩
      · rw [h]
        exact hs
      · rw [h]
        refine (hs.drop name).add ?_ ?_
        · simp
        · simp [hf]
  | call name args => exact hs
  | callWords name read words => exact hs
  | release name => exact hs.release name
  | drop name => exact hs.drop name
  | regenerate generator => exact ⟨hs.names, hs.balance⟩

/-- Every run keeps a session sound. -/
theorem Sound.run (hs : s.Sound) (steps : List Step) : (s.run steps).Sound := by
  induction steps generalizing s with
  | nil => exact hs
  | cons step steps ih => exact ih (hs.perform step)

theorem sound_start (engine : Engine) : (start engine).Sound :=
  ⟨List.nodup_nil, .refl _⟩

/-- The handles given out are those in use and those freed. -/
theorem Sound.accepted_eq (hs : s.Sound) :
    s.ledger.accepted =
      s.ledger.freed.length + s.functions.countP (fun entry => !entry.2.isReleased) := by
  have hlength := hs.balance.length_eq
  rw [List.length_append, length_handles, List.length_range'] at hlength
  omega

/-- No handle is freed twice, and none that is in use is freed. -/
theorem Sound.nodup (hs : s.Sound) : (handles s.functions ++ s.ledger.freed).Nodup :=
  hs.balance.nodup_iff.mpr List.nodup_range'

/-! ## What steps do -/

/-- What a step may do to a session. -/
structure Transition (s : Session) (step : Step) (reply : Reply) (s' : Session) : Prop where
  /-- Handles are given out when the generator accepts. -/
  given : s'.ledger.accepted = s.ledger.accepted + step.acceptances s.engine
  /-- A handle is freed if a step ends the function that owns it. -/
  freed : s'.ledger.freed = s.ledger.freed ∨ ∃ name f handle, step.Ends name ∧
    s.find? name = some f ∧ f.handle = some handle ∧ s'.ledger.freed = handle :: s.ledger.freed
  /-- When the generator accepts, the function is kept, with the script and the handle that the
  generator gave out for it. -/
  accepted : ∀ name source symbols program script, step = .compile name source symbols →
    s.engine.accepted? source symbols = some (program, script) →
    ∃ f, reply = .built (.ok f) ∧ s'.find? name = some f ∧ f.handle = some s.ledger.next ∧
      f.program = program ∧ f.script = script
  /-- When it does not come to that, the compilation fails. -/
  unaccepted : ∀ name source symbols, step = .compile name source symbols →
    s.engine.accepted? source symbols = none → ∃ fault, reply = .built (.error fault)
  /-- A compilation that fails changes nothing. -/
  refused : ∀ fault, reply = .built (.error fault) → s' = s
  /-- A function that is released stays without its handle. -/
  released : ∀ name, step = .release name → s'.find? name = (s.find? name).map Function.release
  dropped : ∀ name, step = .drop name → s'.find? name = none
  /-- Functions with other names stay as they are. -/
  others : ∀ name, ¬step.Ends name → s'.find? name = s.find? name

/-- Freeing what a function owns, if there is one, frees nothing or the handle of the function. -/
theorem freed_cases (name : String) {freed : List Nat} {step : Step} (hends : step.Ends name)
    (hfreed : freed = ((s.find? name).bind Function.handle).toList ++ s.ledger.freed) :
    freed = s.ledger.freed ∨ ∃ name f handle, step.Ends name ∧ s.find? name = some f ∧
      f.handle = some handle ∧ freed = handle :: s.ledger.freed := by
  cases howned : (s.find? name).bind Function.handle with
  | none => exact .inl (by simp [hfreed, howned])
  | some handle =>
      obtain ⟨f, hfind, hhandle⟩ := Option.bind_eq_some_iff.mp howned
      exact .inr ⟨name, f, handle, hends, hfind, hhandle, by simp [hfreed, howned]⟩

/-- A compilation is such a transition. -/
theorem transition_compile (s : Session) (name source : String) (symbols : Declarations) :
    Transition s (.compile name source symbols) (s.perform (.compile name source symbols)).1
      (s.perform (.compile name source symbols)).2 := by
  rcases compile_eq s name source symbols with ⟨haccepted, fault, h⟩ | ⟨f, haccepted, hf, h⟩
  · have hperform : s.perform (.compile name source symbols) = (.built (.error fault), s) := by
      simp [perform, h]
    have hnone : (Step.compile name source symbols).acceptances s.engine = 0 := by
      simp [Step.acceptances, haccepted]
    rw [hperform]
    refine ⟨by rw [hnone]; rfl, .inl rfl, ?_, ?_, fun _ _ => rfl, nofun, nofun, fun _ _ => rfl⟩
    · rintro _ _ _ _ _ ⟨⟩ hsome
      rw [haccepted] at hsome
      cases hsome
    · rintro _ _ _ ⟨⟩ _
      exact ⟨fault, rfl⟩
  · have hperform : s.perform (.compile name source symbols) =
        (.built (.ok f), (s.drop name).add name f) := by
      simp [perform, h]
    have hone : (Step.compile name source symbols).acceptances s.engine = 1 := by
      simp [Step.acceptances, haccepted]
    have hfind : ∀ other, ((s.drop name).add name f).find? other =
        if name = other then some f else (s.drop name).find? other :=
      fun other => lookup_cons_eq name other f (s.drop name).functions
    rw [hperform]
    refine ⟨?_, freed_cases name rfl (freed_drop s name), ?_, ?_, nofun, nofun, nofun, ?_⟩
    · rw [hone]
      exact congrArg (· + 1) (accepted_drop s name)
    · rintro _ _ _ _ _ ⟨⟩ hsome
      obtain ⟨rfl, rfl⟩ := Prod.mk.inj (Option.some.inj (haccepted.symm.trans hsome))
      exact ⟨f, rfl, by rw [hfind, if_pos rfl], hf, rfl, rfl⟩
    · rintro _ _ _ ⟨⟩ hnone
      rw [haccepted] at hnone
      cases hnone
    · intro other hother
      have hne : name ≠ other := hother
      simp [hfind, hne]

/-- Every step is such a transition. -/
theorem transition_perform (s : Session) (step : Step) :
    Transition s step (s.perform step).1 (s.perform step).2 := by
  cases step with
  | compile name source symbols => exact transition_compile s name source symbols
  | call name args => exact ⟨rfl, .inl rfl, nofun, nofun, nofun, nofun, nofun, fun _ _ => rfl⟩
  | callWords name read words =>
      exact ⟨rfl, .inl rfl, nofun, nofun, nofun, nofun, nofun, fun _ _ => rfl⟩
  | release name =>
      refine ⟨accepted_release s name, freed_cases name rfl (freed_release s name), nofun, nofun,
        nofun, ?_, nofun, ?_⟩
      · rintro _ ⟨⟩
        exact (find?_release s name name).trans (if_pos rfl)
      · intro other hother
        exact (find?_release s name other).trans (if_neg hother)
  | drop name =>
      refine ⟨accepted_drop s name, freed_cases name rfl (freed_drop s name), nofun, nofun, nofun,
        nofun, ?_, ?_⟩
      · rintro _ ⟨⟩
        exact (find?_drop s name name).trans (if_pos rfl)
      · intro other hother
        exact (find?_drop s name other).trans (if_neg hother)
  | regenerate generator =>
      exact ⟨rfl, .inl rfl, nofun, nofun, nofun, nofun, nofun, fun _ _ => rfl⟩

/-- The handles given out in a run are as many as the programs that the generators accept. -/
theorem accepted_run (s : Session) (steps : List Step) :
    (s.run steps).ledger.accepted = s.ledger.accepted + s.acceptances steps := by
  induction steps generalizing s with
  | nil => rfl
  | cons step steps ih =>
      show ((s.perform step).2.run steps).ledger.accepted = _
      rw [ih, (transition_perform s step).given, acceptances, Nat.add_assoc]

/-! ## The end of a session -/

/-- Dropping several functions leaves those with other names. -/
theorem functions_run_drop (s : Session) (names : List String) :
    (s.run (names.map .drop)).functions = s.functions.filter (·.1 ∉ names) ∧
      (s.run (names.map .drop)).ledger.accepted = s.ledger.accepted := by
  induction names generalizing s with
  | nil => simp [run]
  | cons name names ih =>
      obtain ⟨hfunctions, haccepted⟩ := ih (s.drop name)
      refine ⟨?_, ?_⟩
      · show ((s.drop name).run (names.map .drop)).functions = _
        rw [hfunctions, functions_drop, List.filter_filter]
        refine List.filter_congr fun entry _ => ?_
        rw [Bool.eq_iff_iff]
        simp [and_comm]
      · show ((s.drop name).run (names.map .drop)).ledger.accepted = _
        simp [haccepted]

/-- To close a session is to drop its functions one after another. -/
theorem close_eq_run (s : Session) :
    s.close = s.run (s.functions.map fun entry => .drop entry.1) := by
  rw [close, run, List.foldl_map]
  rfl

/-- A sound session that is closed has no functions left and has freed all handles. -/
theorem Sound.close (hs : s.Sound) :
    s.close.functions = [] ∧ s.close.ledger.freed.length = s.ledger.accepted := by
  have hsteps : (s.functions.map fun entry => Step.drop entry.1) =
      (s.functions.map Prod.fst).map .drop := by
    rw [List.map_map]
    rfl
  obtain ⟨hfunctions, haccepted⟩ := functions_run_drop s (s.functions.map Prod.fst)
  rw [← hsteps, ← close_eq_run] at hfunctions haccepted
  have hnone : s.close.functions = [] := by
    rw [hfunctions, List.filter_eq_nil_iff]
    intro entry hentry
    simpa using ⟨entry.2, hentry⟩
  have hcount := (hs.run (s.functions.map fun entry => .drop entry.1)).accepted_eq
  rw [← close_eq_run, haccepted, hnone] at hcount
  exact ⟨hnone, by simpa using hcount.symm⟩

/-- **Handles are balanced in every session.** Whatever the steps and the generators, the programs
that the generators accepted are as many as the handles freed and those of the functions that are not
released, and no handle is freed twice. A source that a generator accepts becomes a function that is
kept with the handle, a step frees a handle only if it ends the function that owns it, and a
compilation that fails changes nothing. A released function says so when it is called, whatever its
script. When no function is left, all handles are freed. -/
theorem handles_balanced (engine : Engine) (steps : List Step) :
    let s := (start engine).run steps
    let accepted := (start engine).acceptances steps
    s.ledger.accepted = accepted ∧
    accepted = s.ledger.freed.length + s.functions.countP (fun entry => !entry.2.isReleased) ∧
    (handles s.functions ++ s.ledger.freed).Nodup ∧
    (∀ step, Transition s step (s.perform step).1 (s.perform step).2) ∧
    (∀ name f, s.find? name = some f → f.isReleased = true → ∀ args read words,
      (s.perform (.call name args)).1 = .called (some (.error .released)) ∧
      (s.perform (.callWords name read words)).1 = .called (some (.error .released)) ∧
      ∀ script, { f with script := script }.call args = .error .released ∧
        { f with script := script }.callWords read words = .error .released) ∧
    (s.functions = [] → s.ledger.freed.length = accepted) ∧
    s.close.functions = [] ∧ s.close.ledger.freed.length = accepted := by
  intro s accepted
  have hs : s.Sound := (sound_start engine).run steps
  have haccepted : s.ledger.accepted = accepted := (accepted_run _ steps).trans (Nat.zero_add _)
  have hcount := hs.accepted_eq
  have hclose := hs.close
  rw [haccepted] at hcount hclose
  refine ⟨haccepted, hcount, hs.nodup, transition_perform s, ?_, ?_, hclose⟩
  · intro name f hfind hreleased args read words
    have hcall := (Function.call_eq_released_iff f args).mpr hreleased
    have hcallWords := (Function.callWords_eq_released_iff f read words).mpr hreleased
    refine ⟨?_, ?_, ?_⟩
    · simp [perform, hfind, hcall]
    · simp [perform, hfind, hcallWords]
    · intro script
      exact ⟨(Function.call_eq_released_iff _ args).mpr hreleased,
        (Function.callWords_eq_released_iff _ read words).mpr hreleased⟩
  · intro hnone
    rw [hnone] at hcount
    simpa using hcount.symm

/-- A function is replaced, another compilation fails, and the new function is released twice. Then
the generator refuses a program and accepts one again. -/
theorem handles_balanced_replaced :
    let steps : List Step := [.compile "f" "(+ 1 2)" [], .compile "f" "(+" [],
      .compile "f" "3" [], .release "f", .release "f", .regenerate (.refusing false),
      .compile "g" "4" [], .regenerate (.checking .builtin false), .compile "g" "(* 4 5)" []]
    let s := (start .standard).run steps
    (start .standard).acceptances steps = 3 ∧ s.ledger.freed = [2, 1] ∧
      (start .standard).acceptances steps = s.ledger.freed.length + 1 ∧
      (s.perform (.call "f" [])).1 = .called (some (.error .released)) ∧
      s.close.ledger.freed.length = 3 := by
  intro steps s
  have haccepted : (start .standard).acceptances steps = 3 := by decide +kernel
  have hfreed : s.ledger.freed = [2, 1] := by decide +kernel
  have hlive : s.functions.countP (fun entry => !entry.2.isReleased) = 1 := by decide +kernel
  have hreleased : ((s.find? "f").map Function.isReleased) = some true := by decide +kernel
  obtain ⟨f, hfind, hf⟩ := Option.map_eq_some_iff.mp hreleased
  obtain ⟨-, hcount, -, -, hcalls, -, -, hclose⟩ := handles_balanced .standard steps
  refine ⟨haccepted, hfreed, hlive ▸ hcount, ?_, hclose.trans haccepted⟩
  exact (hcalls "f" f hfind hf [] (fun _ => none) #[]).1

end Session

end Formula
