/-
Timeline/Program/Compile.lean

Compiling a scenario to a program.  All faults are collected: those of the
expansion, then dangling references, then unmatched brackets, each error once.
The program is there in any case, and leaves out what could not be expanded.
-/
import Timeline.Program.Brackets
import Timeline.Program.Expansion

namespace Timeline

/-- What a scenario is compiled against. -/
structure CompileOptions where
  blocks : Blocks := {}
  /-- The initial values of the targets. -/
  values : Table Float := {}
  /-- The names of the functions that may be called. -/
  functions : List String := []
  /-- Whether a scenario with errors gives no program. -/
  strict : Bool := true

/-- A program and all that is wrong with it. -/
structure Compilation where
  program : Program
  errors : List CompileError

/-- Compile a scenario, collecting all errors. -/
def Scenario.compile (scenario : Scenario) (options : CompileOptions) : Compilation :=
  let draft := scenario.draft options.blocks
  let program := draft.program
  let errors := draft.errors ++ program.dangling options.values options.functions
    ++ program.unbalanced
  ⟨program, errors.eraseDups⟩

/-- Compile a scenario; if the options are strict, the errors take the place of a program that has
some. -/
def Scenario.compile? (scenario : Scenario) (options : CompileOptions) :
    Except (List CompileError) Compilation :=
  let compilation := scenario.compile options
  if options.strict && !compilation.errors.isEmpty then .error compilation.errors
  else .ok compilation

end Timeline
