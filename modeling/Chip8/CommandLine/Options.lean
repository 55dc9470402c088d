import Chip8.Binary32
import Chip8.Config

/-!
# The options of the command line

The command line names the program to run and settles the configuration. A switch is
an option without a value; a setting is an option with one. Where the machine's timers
are not driven by its instructions, they are driven from outside.
-/

namespace Chip8.CommandLine

inductive Refusal
  | missingProgram
  /-- An argument means nothing, or a second program is named. -/
  | unknownArgument
  | missingValue
  | emptyPath
  | badValue
  | repeated
  /-- A value is given to an option that takes none. -/
  | needlessValue
  | help
  deriving DecidableEq, Repr

/-- The options without a value. -/
inductive Switch
  | lenient
  | shiftVy
  | logicResetsFlag
  /-- Let every instruction be a tick of the timers. -/
  | timersPerStep
  /-- List the program instead of running it. -/
  | listing
  deriving DecidableEq, Repr

inductive Setting
  | rate
  | seed
  deriving DecidableEq, Repr

inductive Kind
  | switch (s : Switch)
  | setting (s : Setting)
  | help
  deriving DecidableEq, Repr

/-- The option of a name, written after two dashes. -/
def Kind.ofName? : String → Option Kind
  | "cpu-hz" => some (.setting .rate)
  | "lenient" => some (.switch .lenient)
  | "shift-vy" => some (.switch .shiftVy)
  | "logic-resets-flag" => some (.switch .logicResetsFlag)
  | "timers-per-step" => some (.switch .timersPerStep)
  | "seed" => some (.setting .seed)
  | "disasm" => some (.switch .listing)
  | "help" => some .help
  | _ => none

/-- The option of a letter, written after one dash. -/
def Kind.ofLetter? (letter : Char) : Option Kind :=
  if letter = 'h' then some .help else none

structure Options where
  path : String
  /-- The bits of the instructions a second. -/
  rate : UInt32
  seed : Option UInt64
  switches : List Switch
  deriving DecidableEq, Repr

namespace Options

def has (o : Options) (s : Switch) : Bool := s ∈ o.switches

def config (o : Options) : Config where
  unknownPolicy := if o.has .lenient then .lenient else .strict
  shiftSource := if o.has .shiftVy then .vy else .vx
  logicResetsFlag := o.has .logicResetsFlag
  timerMode := if o.has .timersPerStep then .perStep else .external
  seed := o.seed

end Options

end Chip8.CommandLine
