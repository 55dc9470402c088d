import Chip8.CommandLine.Options

/-!
# Usage

What is said to a user who asks for help, or whose command line was refused.
-/

namespace Chip8.CommandLine

def usage : String := "\n".intercalate [
  "Usage: chip8 [OPTIONS] <PROGRAM>",
  "",
  "  --cpu-hz <RATE>      instructions a second (700 if not given)",
  "  --lenient            pass over unknown instructions",
  "  --shift-vy           shifts read the second register",
  "  --logic-resets-flag  bitwise operations clear the flag register",
  "  --timers-per-step    timers tick with every instruction, not 60 times a second",
  "  --seed <SEED>        what the random bytes grow from",
  "  --disasm             list the program instead of running it",
  "  -h, --help           show this text"]

def Refusal.message : Refusal → String
  | missingProgram => "no program is named"
  | unknownArgument => "an argument is not known"
  | missingValue => "an option lacks its value"
  | emptyPath => "the path of the program is empty"
  | badValue => "the value of an option cannot be read"
  | repeated => "an option is given twice"
  | needlessValue => "an option that takes no value is given one"
  | help => usage

end Chip8.CommandLine
