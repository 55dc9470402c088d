import Chip8.CommandLine.Reading
import Chip8.CommandLine.Usage
import Chip8.Emulator
import Chip8.Terminal

/-!
# The program

Lists a program, or runs it and shows its picture in the terminal until it faults.
-/

namespace Chip8.Main

/-- The payments allowed to one redraw; no program makes as many. -/
def budget : Nat := 1000000000000000000

/-- Says why the program ends and gives the code to end with. -/
def fail (message : String) : IO UInt32 := do
  IO.eprintln ("Error: " ++ message)
  return 1

/-- Redraws until the emulator asks to exit. The last redraw was at `last`, in
milliseconds. -/
partial def play (e : Emulator) (last : Nat) : IO UInt32 := do
  if e.exiting then
    match e.fault with
    | some fault => fail (Emulator.exitMessage fault)
    | none => return 0
  else
    IO.sleep 16
    let now ← IO.monoMsNow
    match e.handle? budget (.redraw (Float32.ofNat (now - last) / 1000.0)) with
    | none => fail "the program takes too long"
    | some outcome =>
      let e := outcome.emulator
      IO.println (Terminal.screen e.pacer.machine.picture)
      play e now

def entropy : IO UInt64 := do
  let bytes ← IO.getRandomBytes 8
  return bytes.foldl (fun n b => n * 256 + b.toUInt64) 0

def run (options : CommandLine.Options) : IO UInt32 := do
  let image ←
    try pure (← IO.FS.readBinFile options.path).toList
    catch e => return ← fail ("Failed to read ROM file: " ++ toString e)
  if options.has .listing then
    for line in Listing.lines image (UInt16.ofNat Machine.start) do
      IO.println line
    return 0
  else
    match Emulator.ofProgram image options.config (← entropy) (Float32.ofBits options.rate) with
    | .error fault => fail (Emulator.refusalMessage fault)
    | .ok e => play e.resume (← IO.monoMsNow)

end Chip8.Main

def main (arguments : List String) : IO UInt32 := do
  match Chip8.CommandLine.Options.ofArguments arguments with
  | .ok options => Chip8.Main.run options
  | .error .help => do
    IO.println Chip8.CommandLine.usage
    return 0
  | .error refusal => do
    IO.eprintln ("error: " ++ refusal.message)
    return 2
