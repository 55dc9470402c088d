import Chip8.Execution

/-!
# The interpreter

An interpreter is a configuration and a source of random bytes. It holds nothing of
the machine, so one interpreter may drive several machines in turn. A step fetches
the word at the program counter and executes it. A step that fails leaves the machine
at the faulting instruction, with the fetched word remembered and nothing else
changed, and it takes no random byte.
-/

namespace Chip8

/-- A configuration and a source of random bytes. -/
structure Interpreter where
  config : Config
  random : Random.Source

namespace Interpreter

/-- The interpreter of a configuration. The seed is `entropy` if the configuration
names none. -/
def ofConfig (config : Config) (entropy : UInt64) : Interpreter :=
  ⟨config, .ofSeed (config.seed.getD entropy)⟩

structure Step where
  result : Except Fault Signal
  machine : Machine
  interpreter : Interpreter
  log : List Log.Record

/-- The machine after a successful step, whose timers may have gone on. -/
def afterStep (config : Config) (m : Machine) : Machine :=
  match config.timerMode with
  | .perStep => m.tick
  | .external => m

def executeWord (interpreter : Interpreter) (m : Machine) (word : Word) : Step :=
  match (Instruction.decode word).execute interpreter.config interpreter.random m with
  | .error fault => ⟨.error fault, m, interpreter, [.fetched m.pc word]⟩
  | .ok effect =>
    ⟨.ok effect.signal, afterStep interpreter.config effect.machine,
      { interpreter with random := effect.random }, .fetched m.pc word :: effect.log⟩

def step (interpreter : Interpreter) (m : Machine) : Step :=
  match m.fetch? with
  | none => ⟨.error (.fetchOutOfBounds m.pc), { m with repainted := false }, interpreter, []⟩
  | some word => interpreter.executeWord { m with repainted := false, word := word } word

def reset (_ : Interpreter) (m : Machine) : Logged Machine := ⟨m.reset, [.reset m.reset.pc]⟩

theorem step_of_fetch?_eq_none {interpreter : Interpreter} {m : Machine} (h : m.fetch? = none) :
    interpreter.step m =
      ⟨.error (.fetchOutOfBounds m.pc), { m with repainted := false }, interpreter, []⟩ := by
  simp [step, h]

theorem step_of_fetch?_eq_some {interpreter : Interpreter} {m : Machine} {word : Word}
    (h : m.fetch? = some word) :
    interpreter.step m =
      interpreter.executeWord { m with repainted := false, word := word } word := by
  simp [step, h]

end Interpreter

end Chip8
