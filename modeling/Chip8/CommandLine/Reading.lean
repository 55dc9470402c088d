import Chip8.CommandLine.Options

/-!
# Reading the command line

Arguments are taken one by one. A setting and its value stand in one argument, joined
by an equals sign, or in two; `--` ends the options, and after it every argument names
the program.

A setting given in two arguments and the path of the program are checked only when the
next argument has been recognised, so an argument that means nothing is refused before
a bad value in front of it. Until then they wait, and `Progress` keeps what waits.
-/

namespace Chip8.CommandLine

/-- What an argument looks like. -/
inductive Token
  /-- The end of the options. -/
  | separator
  /-- A name after two dashes, and what follows its equals sign. -/
  | long (name : String) (value : Option String)
  /-- A letter after one dash; further letters are not looked at. -/
  | short (letter : Char)
  /-- Anything else, a lone dash among it. -/
  | plain (text : String)
  deriving DecidableEq, Repr

/-- What an option with two dashes says after them. -/
def Token.ofLong (chars : List Char) : Token :=
  let name := chars.takeWhile (· ≠ '=')
  match chars.dropWhile (· ≠ '=') with
  | [] => .long (String.ofList name) none
  | _ :: value => .long (String.ofList name) (some (String.ofList value))

def Token.ofString (text : String) : Token :=
  match text.toList with
  | ['-', '-'] => .separator
  | '-' :: '-' :: rest => .ofLong rest
  | '-' :: letter :: _ => .short letter
  | _ => .plain text

/-- What has been read but not checked. -/
inductive Waiting
  | nothing
  /-- A setting, and its value if that has been read. -/
  | setting (s : Setting) (value : Option String)
  | path (text : String)
  deriving DecidableEq, Repr

/-- How far a command line has been read. -/
structure Progress where
  switches : List Switch
  rate : Option UInt32
  seed : Option UInt64
  path : Option String
  waiting : Waiting
  ended : Bool
  deriving DecidableEq, Repr

namespace Progress

def start : Progress := ⟨[], none, none, none, .nothing, false⟩

/-- Settles an option whose value has been read, by its old value and a new one. -/
def replace? {α : Type} (old new : Option α) : Except Refusal (Option α) :=
  match old, new with
  | some _, _ => .error .repeated
  | none, none => .error .badValue
  | none, some value => .ok (some value)

/-- The number of a seed, absent if it does not fit into 64 bits. -/
def seedOfString? (text : String) : Option UInt64 :=
  (Text.natural? text).bind fun n => if n < UInt64.size then some (UInt64.ofNat n) else none

def set (p : Progress) (s : Setting) (value : String) : Except Refusal Progress :=
  match s with
  | .rate => (replace? p.rate (Binary32.ofString? value)).map fun rate => { p with rate }
  | .seed => (replace? p.seed (seedOfString? value)).map fun seed => { p with seed }

/-- Checks what waits. -/
def settle (p : Progress) : Except Refusal Progress :=
  let free := { p with waiting := .nothing }
  match p.waiting with
  | .nothing => .ok p
  | .setting _ none => .error .missingValue
  | .setting s (some value) => free.set s value
  | .path text => if text = "" then .error .emptyPath else .ok { free with path := some text }

/-- Takes an option, with the value joined to it if there is one. -/
def takeOption (p : Progress) : Kind → Option String → Except Refusal Progress
  | .switch _, some _ => .error .needlessValue
  | .help, some _ => .error .needlessValue
  | .switch s, none => do
    let p ← p.settle
    if s ∈ p.switches then .error .repeated else .ok { p with switches := s :: p.switches }
  | .help, none => do
    let _ ← p.settle
    .error .help
  | .setting s, some value => do
    let p ← p.settle
    p.set s value
  | .setting s, none => do
    let p ← p.settle
    .ok { p with waiting := .setting s none }

/-- Whether a program is named, be its path checked or not. -/
def namesProgram (p : Progress) : Bool :=
  match p.waiting with
  | .path _ => true
  | _ => p.path.isSome

def takeProgram (p : Progress) (text : String) : Except Refusal Progress :=
  if p.namesProgram then .error .unknownArgument
  else do
    let p ← p.settle
    .ok { p with waiting := .path text }

/-- Takes an argument that is no option: the value waited for, or else the program. -/
def takePlain (p : Progress) (text : String) : Except Refusal Progress :=
  match p.waiting with
  | .setting s none => .ok { p with waiting := .setting s (some text) }
  | _ => p.takeProgram text

/-- Takes an option that may be unknown. -/
def takeKind (p : Progress) (kind? : Option Kind) (value : Option String) :
    Except Refusal Progress :=
  match kind? with
  | some kind => p.takeOption kind value
  | none => .error .unknownArgument

def take (p : Progress) (argument : String) : Except Refusal Progress :=
  if p.ended then p.takeProgram argument
  else match Token.ofString argument with
    | .separator => .ok { p with ended := true }
    | .long name value => p.takeKind (Kind.ofName? name) value
    | .short letter => p.takeKind (Kind.ofLetter? letter) none
    | .plain text => p.takePlain text

/-- The bits of the instructions a second if nothing else is asked for. -/
def defaultRate : UInt32 := UInt32.ofNat (Binary32.ofQuotient 700 1)

def finish (p : Progress) : Except Refusal Options := do
  let p ← p.settle
  match p.path with
  | none => .error .missingProgram
  | some path => .ok ⟨path, p.rate.getD defaultRate, p.seed, p.switches⟩

end Progress

def Options.ofArguments (arguments : List String) : Except Refusal Options := do
  let p ← arguments.foldlM Progress.take .start
  p.finish

end Chip8.CommandLine
