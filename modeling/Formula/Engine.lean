import Formula.Expr.Parser
import Formula.Function
import Formula.Operator.Builtin
import Formula.Program.Builder
import Formula.StackGuard

/-!
# Engines

An engine turns the source of a formula into a function: it parses the source, compiles the
expression and hands the code to a generator, which makes a script of it or refuses it. With a script
the generator gives out a handle, which it takes back when the function is released.
-/

namespace Formula

/-! ## Generators -/

/-- Makes scripts of compiled code. -/
structure Generator where
  /-- The script of code for parameters of given types, if the generator accepts it. -/
  generate : (words : List UInt64) → (slotTags : List Nat) →
    (read : UInt64 → Option String) → Option Script
  /-- Whether scripts run without help from the caller's stack. -/
  isNative : Bool

/-- The handles of a generator, numbered in the order in which they are given out. -/
structure Ledger where
  /-- The first handle. -/
  first : Nat
  /-- The number of programs accepted so far, each of which was given a handle. -/
  accepted : Nat
  /-- The handles freed so far, the last one first. -/
  freed : List Nat

namespace Ledger

/-- No handle has been given out, and the first one will be `first`. -/
def startingAt (first : Nat) : Ledger :=
  ⟨first, 0, []⟩

/-- The handle that is given out next. -/
def next (ledger : Ledger) : Nat :=
  ledger.first + ledger.accepted

/-- Gives out the next handle. -/
def accept (ledger : Ledger) : Ledger :=
  { ledger with accepted := ledger.accepted + 1 }

/-- Takes a handle back. -/
def free (ledger : Ledger) (handle : Nat) : Ledger :=
  { ledger with freed := handle :: ledger.freed }

variable (ledger : Ledger) (first handle : Nat)

@[simp]
theorem next_startingAt : (startingAt first).next = first := rfl

@[simp]
theorem first_accept : ledger.accept.first = ledger.first := rfl

@[simp]
theorem accepted_accept : ledger.accept.accepted = ledger.accepted + 1 := rfl

@[simp]
theorem freed_accept : ledger.accept.freed = ledger.freed := rfl

@[simp]
theorem first_free : (ledger.free handle).first = ledger.first := rfl

@[simp]
theorem accepted_free : (ledger.free handle).accepted = ledger.accepted := rfl

@[simp]
theorem freed_free : (ledger.free handle).freed = handle :: ledger.freed := rfl

end Ledger

namespace Generator

/-- Hands the code of a program to the generator: a handle and a script, unless the code is
refused. -/
def compile (g : Generator) (ledger : Ledger) (program : Program) :
    Option (Nat × Script) × Ledger :=
  match g.generate program.words program.slotTags program.constants.text? with
  | none => (none, ledger)
  | some script => (some (ledger.next, script), ledger.accept)

/-- The generator that checks code against a registry. -/
def checking (registry : Registry) (isNative : Bool) : Generator :=
  ⟨fun words slotTags read => (Script.check registry read words slotTags).toOption, isNative⟩

/-- The generator that refuses all code. -/
def refusing (isNative : Bool) : Generator :=
  ⟨fun _ _ _ => none, isNative⟩

end Generator

/-! ## Engines -/

/-- How much stack a call asks for beyond the values of its own. -/
structure Config where
  /-- Bytes for every call. -/
  frameReserve : Nat := 256
  /-- Bytes for calls of scripts that run on the caller's stack. -/
  interpreterReserve : Nat := 64 * 1024

/-- Turns sources into functions. -/
structure Engine where
  /-- Makes the scripts. -/
  generator : Generator
  /-- The operators, if they are not the built-in ones. -/
  customRegistry : Option Registry
  /-- How much stack calls ask for. -/
  config : Config

/-- Why a source does not become a function. -/
inductive BuildError where
  | parse (fault : ParseError)
  | compile (fault : CompileError)
  /-- The generator refuses the code. -/
  | backend
deriving DecidableEq, Repr

/-- The wording of a build error. -/
def BuildError.message : BuildError → String
  | parse fault => fault.message
  | compile fault => fault.message
  | backend => "code generator failed to compile the expression"

namespace Engine

/-- The engine with the built-in operators. -/
def standard : Engine :=
  ⟨.checking .builtin false, none, {}⟩

/-- The operators of the engine. -/
def registry (engine : Engine) : Registry :=
  engine.customRegistry.getD .builtin

/-- The bytes of stack that calls of a program ask for. -/
def requiredStack (engine : Engine) (program : Program) : Nat :=
  let required := StackGuard.addBytes program.maxStackBytes engine.config.frameReserve
  if engine.generator.isNative then required
  else StackGuard.addBytes required engine.config.interpreterReserve

/-- The function of a program, with the handle and the script that the generator gives. -/
def create (engine : Engine) (ledger : Ledger) (program : Program) :
    Except BuildError Function × Ledger :=
  match engine.generator.compile ledger program with
  | (none, ledger) => (.error .backend, ledger)
  | (some (handle, script), ledger) =>
    (.ok ⟨some handle, program, script, engine.requiredStack program⟩, ledger)

/-- The function of a source. -/
def compile (engine : Engine) (ledger : Ledger) (source : String) (symbols : Declarations) :
    Except BuildError Function × Ledger :=
  match Expr.parse source with
  | .error fault => (.error (.parse fault), ledger)
  | .ok e =>
    match Program.compile e symbols engine.registry with
    | .error fault => (.error (.compile fault), ledger)
    | .ok program => engine.create ledger program

/-- The function of a program, under a handle. -/
def load (engine : Engine) (handle : Nat) (program : Program) : Except BuildError Function :=
  (engine.create (.startingAt handle) program).1

/-- The function of a source, under a handle. -/
def build (engine : Engine) (handle : Nat) (source : String) (symbols : Declarations) :
    Except BuildError Function :=
  (engine.compile (.startingAt handle) source symbols).1

/-- Loading a program is up to the generator. -/
theorem load_eq (engine : Engine) (handle : Nat) (program : Program) :
    engine.load handle program =
      match engine.generator.generate program.words program.slotTags program.constants.text? with
      | none => .error .backend
      | some script => .ok ⟨some handle, program, script, engine.requiredStack program⟩ := by
  unfold load create Generator.compile
  cases engine.generator.generate program.words program.slotTags program.constants.text? <;> rfl

/-- Building parses, compiles and loads. -/
theorem build_eq (engine : Engine) (handle : Nat) (source : String) (symbols : Declarations) :
    engine.build handle source symbols =
      match Expr.parse source with
      | .error fault => .error (.parse fault)
      | .ok e =>
        match Program.compile e symbols engine.registry with
        | .error fault => .error (.compile fault)
        | .ok program => engine.load handle program := by
  unfold build compile
  cases Expr.parse source with
  | error fault => rfl
  | ok e => cases hcompile : Program.compile e symbols engine.registry <;> simp only [hcompile, load]

/-- A description of the engine. -/
def describe (engine : Engine) : String :=
  let native := engine.generator.isNative
  let custom := engine.customRegistry.isSome
  let frame := engine.config.frameReserve
  let interpreter := engine.config.interpreterReserve
  "Jit \x7b " ++ s!"native: {native}, custom_registry: {custom}, config: JitConfig "
    ++ "\x7b " ++ s!"frame_reserve: {frame}, interpreter_reserve: {interpreter} " ++ "\x7d \x7d"

end Engine

end Formula
