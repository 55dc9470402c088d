import Chip8.Interpreter

/-!
# Pacing

A pacer drives a machine by elapsed time. It saves up the time it is given and spends
it on instructions, each of which costs one period. Where timers are driven from
outside it saves up time for them separately and spends it on ticks, before any
instruction. Times are single-precision seconds and may be any such number.

Spending ends when the time left is below one period. It may never end: a period of
zero costs nothing, and taking a short period from a long time may leave the time as it
is. So spending takes a budget, the number of payments allowed, and is
absent if the budget does not suffice; a larger budget gives the same answer.
-/

namespace Chip8

/-- A machine, its interpreter and the time saved up for them. -/
structure Pacer where
  machine : Machine
  interpreter : Interpreter
  /-- The price of one instruction. -/
  period : Float32
  /-- The time saved up for instructions. -/
  cpuTime : Float32
  /-- The time saved up for timer ticks. -/
  timerTime : Float32

namespace Pacer

/-- The instructions a second if nothing else is asked for. -/
def defaultRate : Float32 := 700.0

/-- The timer ticks a second. -/
def timerRate : Float32 := 60.0

/-- The price of one timer tick. -/
def timerPeriod : Float32 := 1.0 / timerRate

/-- The pacer of `rate` instructions a second, with no time saved up. -/
def ofRate (machine : Machine) (interpreter : Interpreter) (rate : Float32) : Pacer :=
  ⟨machine, interpreter, 1.0 / rate, 0.0, 0.0⟩

structure Update where
  result : Except Fault Signal
  pacer : Pacer
  log : List Log.Record

/-- Adds to `count` the ticks that `time` pays for and tells the time left. -/
def countTicks? : (budget count : Nat) → (time : Float32) → Option (Nat × Float32)
  | 0, count, time => if timerPeriod ≤ time then none else some (count, time)
  | budget + 1, count, time =>
    if timerPeriod ≤ time then countTicks? budget (count + 1) (time - timerPeriod)
    else some (count, time)

/-- Saves up time for the timers and spends it on ticks. -/
def runTimers? (budget : Nat) (p : Pacer) (dt : Float32) : Option Pacer :=
  match p.interpreter.config.timerMode with
  | .perStep => some p
  | .external =>
    (countTicks? budget 0 (p.timerTime + dt)).map fun (count, time) =>
      { p with machine := p.machine.ticks count, timerTime := time }

def stepOnce (p : Pacer) : Update :=
  let s := p.interpreter.step p.machine
  ⟨s.result,
    { p with
      machine := s.machine, interpreter := s.interpreter, cpuTime := p.cpuTime - p.period },
    s.log⟩

def forfeit (p : Pacer) : Pacer := { p with cpuTime := 0.0 }

/-- Spends the time saved up on instructions. A fault and a wait for the next frame
end it; a wait also forfeits the time left, so that the next frame has nothing to
catch up with. The records so far are given newest first. -/
def runInstructions? : (budget : Nat) → (earlier : List Log.Record) → Pacer → Option Update
  | 0, earlier, p =>
    if p.period ≤ p.cpuTime then none else some ⟨.ok .proceed, p, earlier.reverse⟩
  | budget + 1, earlier, p =>
    if p.period ≤ p.cpuTime then
      match p.stepOnce with
      | ⟨.ok .proceed, p, log⟩ => runInstructions? budget (log.reverse ++ earlier) p
      | ⟨.ok .awaitFrame, p, log⟩ => some ⟨.ok .awaitFrame, p.forfeit, earlier.reverse ++ log⟩
      | ⟨.error fault, p, log⟩ => some ⟨.error fault, p, earlier.reverse ++ log⟩
    else some ⟨.ok .proceed, p, earlier.reverse⟩

/-- Saves up the time `dt` and spends what is saved up, first on ticks, then on
instructions. -/
def update? (budget : Nat) (p : Pacer) (dt : Float32) : Option Update :=
  (runTimers? budget { p with cpuTime := p.cpuTime + dt } dt).bind (runInstructions? budget [])

def turnKey (p : Pacer) (k : Nibble) (pressed : Bool) : Pacer :=
  { p with machine := p.machine.turnKey k pressed }

theorem countTicks?_mono {budget more count : Nat} {time : Float32} {r : Nat × Float32}
    (h : budget ≤ more) (hr : countTicks? budget count time = some r) :
    countTicks? more count time = some r := by
  induction budget generalizing more count time with
  | zero =>
    rw [countTicks?] at hr
    split at hr
    · cases hr
    · cases more <;> simp_all [countTicks?]
  | succ budget ih =>
    obtain ⟨more, rfl⟩ : ∃ k, more = k + 1 := ⟨more - 1, by omega⟩
    rw [countTicks?] at hr ⊢
    split at hr
    · rw [if_pos ‹_›]
      exact ih (by omega) hr
    · rw [if_neg ‹_›]
      exact hr

theorem runTimers?_mono {budget more : Nat} {p q : Pacer} {dt : Float32}
    (h : budget ≤ more) (hq : runTimers? budget p dt = some q) :
    runTimers? more p dt = some q := by
  unfold runTimers? at hq ⊢
  split at hq
  · exact hq
  · obtain ⟨r, hr, rfl⟩ := Option.map_eq_some_iff.1 hq
    rw [countTicks?_mono h hr]
    rfl

theorem runInstructions?_mono {budget more : Nat} {earlier : List Log.Record} {p : Pacer}
    {u : Update} (h : budget ≤ more) (hu : runInstructions? budget earlier p = some u) :
    runInstructions? more earlier p = some u := by
  induction budget generalizing more earlier p with
  | zero =>
    rw [runInstructions?] at hu
    split at hu
    · cases hu
    · cases more <;> simp_all [runInstructions?]
  | succ budget ih =>
    obtain ⟨more, rfl⟩ : ∃ k, more = k + 1 := ⟨more - 1, by omega⟩
    rw [runInstructions?] at hu ⊢
    split at hu
    · rw [if_pos ‹_›]
      split at hu
      · exact ih (by omega) hu
      · exact hu
      · exact hu
    · rw [if_neg ‹_›]
      exact hu

/-- A larger budget gives the same answer. -/
theorem update?_mono {budget more : Nat} {p : Pacer} {dt : Float32} {u : Update}
    (h : budget ≤ more) (hu : p.update? budget dt = some u) : p.update? more dt = some u := by
  obtain ⟨q, hq, hr⟩ := Option.bind_eq_some_iff.1 hu
  exact Option.bind_eq_some_iff.2 ⟨q, runTimers?_mono h hq, runInstructions?_mono h hr⟩

end Pacer

end Chip8
