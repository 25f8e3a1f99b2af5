import Formula.Engine

/-!
# Sessions

A session keeps functions by name. A function gives its handle back to the generator when it is
released, replaced or dropped, and never twice.
-/

namespace Formula

/-- Functions by name, and the handles behind them. -/
structure Session where
  /-- Makes the functions. -/
  engine : Engine
  /-- The functions by name. -/
  functions : List (String × Function)
  /-- The handles of the generator. -/
  ledger : Ledger

namespace Session

/-- A session without functions. -/
def start (engine : Engine) : Session :=
  ⟨engine, [], .startingAt 1⟩

/-- The function with a name. -/
def find? (s : Session) (name : String) : Option Function :=
  s.functions.lookup name

/-- Frees the handle of a function, if it still has one. -/
def free (s : Session) (f : Function) : Session :=
  match f.handle with
  | none => s
  | some handle => { s with ledger := s.ledger.free handle }

@[simp]
theorem engine_free (s : Session) (f : Function) : (s.free f).engine = s.engine := by
  unfold free
  cases f.handle <;> rfl

@[simp]
theorem functions_free (s : Session) (f : Function) : (s.free f).functions = s.functions := by
  unfold free
  cases f.handle <;> rfl

@[simp]
theorem first_free (s : Session) (f : Function) : (s.free f).ledger.first = s.ledger.first := by
  unfold free
  cases f.handle <;> rfl

@[simp]
theorem accepted_free (s : Session) (f : Function) :
    (s.free f).ledger.accepted = s.ledger.accepted := by
  unfold free
  cases f.handle <;> rfl

@[simp]
theorem freed_free (s : Session) (f : Function) :
    (s.free f).ledger.freed = f.handle.toList ++ s.ledger.freed := by
  unfold free
  cases f.handle <;> rfl

/-- Forgets the function with a name and frees its handle. -/
def drop (s : Session) (name : String) : Session :=
  match s.find? name with
  | none => s
  | some f => { s with functions := s.functions.filter (·.1 != name) }.free f

/-- Compiles a source and keeps the function under a name, in place of an older one. -/
def compile (s : Session) (name source : String) (symbols : Declarations) :
    Except BuildError Function × Session :=
  match s.engine.compile s.ledger source symbols with
  | (.error fault, ledger) => (.error fault, { s with ledger := ledger })
  | (.ok f, ledger) =>
    let s := { s with ledger := ledger }.drop name
    (.ok f, { s with functions := (name, f) :: s.functions })

/-- A named function, released if it has the given name. -/
def releaseNamed (name : String) (entry : String × Function) : String × Function :=
  if entry.1 == name then (entry.1, entry.2.release) else entry

/-- Releases the function with a name. -/
def release (s : Session) (name : String) : Session :=
  match s.find? name with
  | none => s
  | some f =>
    { s with functions := s.functions.map (releaseNamed name) }.free f

/-- Drops all functions. -/
def close (s : Session) : Session :=
  s.functions.foldl (fun s (name, _) => s.drop name) s

end Session

end Formula
