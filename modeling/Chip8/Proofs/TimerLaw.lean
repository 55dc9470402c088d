import Chip8.Proofs.Calls
import Chip8.Proofs.Frame
import Mathlib.Data.List.Induction

/-!
# What the timers show

Two instructions set a timer, and ticks count it down. Along a run a `TimerEvent` is recorded
for each of these: for a tick from outside, for a value that an instruction has set, and for
the tick at the end of a step that succeeds, if the interpreter drives the timers. What a timer
shows after a run can be read off these events at once, without following them: it is the value
set last less the ticks since then, or zero if there were more. Nothing else moves a timer.
-/

namespace Chip8

inductive Timer
  | delay
  | sound

def Timers.value (t : Timers) : Timer → UInt8
  | .delay => t.delay
  | .sound => t.sound

/-- What happens to a timer. -/
inductive TimerEvent
  | set (value : UInt8)
  | tick
  deriving DecidableEq

namespace TimerEvent

def value? : TimerEvent → Option UInt8
  | set value => some value
  | tick => none

/-- The value of a timer after an event. -/
def after (t : UInt8) : TimerEvent → UInt8
  | set value => value
  | tick => Timers.countDown t 1

/-- The value that was set last, the one at the start if none was. -/
def lastSet (start : UInt8) (events : List TimerEvent) : UInt8 :=
  (events.reverse.findSome? value?).getD start

/-- The number of ticks since then. -/
def ticksSince (events : List TimerEvent) : Nat := (events.reverse.takeWhile (· = tick)).length

def remaining (start : UInt8) (events : List TimerEvent) : Nat :=
  (lastSet start events).toNat - ticksSince events

variable {start : UInt8} {events : List TimerEvent}

theorem remaining_append_set (value : UInt8) :
    remaining start (events ++ [set value]) = value.toNat := by
  simp [remaining, lastSet, ticksSince, List.findSome?_cons, value?]

theorem remaining_append_tick :
    remaining start (events ++ [tick]) = remaining start events - 1 := by
  simp [remaining, lastSet, ticksSince, List.findSome?_cons, value?, Nat.sub_add_eq]

/-- Following the events one by one leads to the same value. -/
theorem toNat_foldl_after (start : UInt8) (events : List TimerEvent) :
    (events.foldl after start).toNat = remaining start events := by
  -- From the right, since the last event decides which of the earlier ones still count.
  induction events using List.reverseRecOn with
  | nil => simp [remaining, lastSet, ticksSince]
  | append_singleton events event ih =>
      rw [List.foldl_append, List.foldl_cons, List.foldl_nil]
      cases event with
      | set value => rw [remaining_append_set, after]
      | tick => rw [remaining_append_tick, after, Timers.toNat_countDown, ih]

theorem foldl_after_replicate_tick (t : UInt8) (count : Nat) :
    (List.replicate count tick).foldl after t = Timers.countDown t count := by
  induction count generalizing t with
  | zero => exact (Timers.countDown_zero t).symm
  | succ count ih =>
      rw [List.replicate_succ, List.foldl_cons, ih, after, Timers.countDown_countDown,
        Nat.add_comm]

end TimerEvent

/-- The value that an instruction sets a timer to, absent if it leaves the timer alone. -/
def Instruction.setting? (m : Machine) : Timer → Instruction → Option UInt8
  | .delay, setDelay x => some (m.register x)
  | .sound, setSound x => some (m.register x)
  | _, _ => none

/-- What a step does to a timer. A step that fails does nothing. -/
def Interpreter.timerEvents (interpreter : Interpreter) (timer : Timer) (m : Machine) :
    List TimerEvent :=
  match interpreter.executed? m with
  | none => []
  | some i =>
    ((i.setting? m timer).map .set).toList ++
      List.replicate interpreter.config.ticksPerStep .tick

def Action.timerEvents (timer : Timer) (m : Machine) : Action → List TimerEvent
  | step interpreter => interpreter.timerEvents timer m
  | tick => [.tick]
  | _ => []

variable {m n : Machine} {interpreter : Interpreter} {actions : List Action} {timer : Timer}

@[simp] theorem Timers.value_ticks (t : Timers) (count : Nat) (timer : Timer) :
    (t.ticks count).value timer = countDown (t.value timer) count := by
  cases timer <;> rfl

theorem Instruction.value_timersAfter (i : Instruction) (m : Machine) (timer : Timer) :
    (i.timersAfter m).value timer = (i.setting? m timer).getD (m.timers.value timer) := by
  cases timer <;> cases i <;> rfl

namespace Interpreter

theorem value_timers_step (interpreter : Interpreter) (timer : Timer) (m : Machine) :
    (interpreter.step m).machine.timers.value timer =
      (interpreter.timerEvents timer m).foldl TimerEvent.after (m.timers.value timer) := by
  unfold timerEvents
  cases hi : interpreter.executed? m with
  | none =>
      rw [(step_of_executed?_eq_none hi).1]
      rfl
  | some i =>
      rw [timers_step hi, Timers.value_ticks, Instruction.value_timersAfter, List.foldl_append,
        TimerEvent.foldl_after_replicate_tick]
      cases i.setting? m timer with
      | none => rfl
      | some value => rfl

theorem register_step_getDelay {x : Nibble} (h : interpreter.executed? m = some (.getDelay x)) :
    (interpreter.step m).machine.register x = m.timers.delay := by
  obtain ⟨effect, he, -, hm, -⟩ := execute_of_executed? h
  cases he
  rw [hm, register_afterStep]
  exact Machine.register_setRegister_self _ x _

end Interpreter

namespace Machine

/-- What happens to a timer along a run, in order. -/
def timerTrace (timer : Timer) (m : Machine) (actions : List Action) : List TimerEvent :=
  m.trace (Action.timerEvents timer) actions

theorem value_timers_perform? {action : Action} (ha : action.IsPlain)
    (hn : m.perform? action = some n) (timer : Timer) :
    n.timers.value timer =
      (action.timerEvents timer m).foldl TimerEvent.after (m.timers.value timer) := by
  cases action with
  | step interpreter =>
      cases hn
      exact interpreter.value_timers_step timer m
  | tick =>
      cases hn
      exact Timers.value_ticks _ _ _
  | turnKey =>
      cases hn
      rfl
  | load program =>
      cases hn
      rcases m.loaded_eq_or program with hl | hl
      · rw [hl]
        rfl
      · rw [hl]
        rfl
  | reset | update => exact ha.elim

theorem toNat_value_timers_run? (ha : ∀ action ∈ actions, action.IsPlain)
    (hn : m.run? actions = some n) (timer : Timer) :
    (n.timers.value timer).toNat =
      TimerEvent.remaining (m.timers.value timer) (m.timerTrace timer actions) := by
  rw [← TimerEvent.toNat_foldl_after]
  exact congrArg UInt8.toNat (run?_foldl_trace hn fun action hmem k l hl =>
    value_timers_perform? (ha action hmem) hl timer)

end Machine

/-- After any run without a reset a timer shows the value that was set last, less the ticks
since then, each step ticking as its own interpreter says. The tone sounds if that leaves
something of the sound timer, and an instruction that reads the delay timer stores what is left
of that one, before the tick of its own step. -/
theorem timers_show_last_setting_less_ticks (hactions : ∀ action ∈ actions, action.IsPlain) :
    ∃ n, m.run? actions = some n ∧
      (∀ timer, (n.timers.value timer).toNat =
        TimerEvent.remaining (m.timers.value timer) (m.timerTrace timer actions)) ∧
      (n.timers.sounding = true ↔
        0 < TimerEvent.remaining (m.timers.value .sound) (m.timerTrace .sound actions)) ∧
      ∀ (interpreter : Interpreter) (x : Nibble),
        interpreter.executed? n = some (.getDelay x) →
          ((interpreter.step n).machine.register x).toNat =
            TimerEvent.remaining (m.timers.value .delay) (m.timerTrace .delay actions) := by
  obtain ⟨n, hn⟩ := Machine.exists_run?_of_isPlain hactions
  have hvalue := Machine.toNat_value_timers_run? hactions hn
  refine ⟨n, hn, hvalue, ?_, ?_⟩
  · rw [← hvalue .sound, Timers.sounding, decide_eq_true_iff, UInt8.lt_iff_toNat_lt]
    rfl
  · intro interpreter x hx
    rw [Interpreter.register_step_getDelay hx]
    exact hvalue .delay

/-- The delay timer is set, in a step that ticks, and then a tick comes from outside. -/
def Action.delayed : List Action :=
  [.load [0x60, 0x0A, 0xF0, 0x15, 0xF1, 0x07], .step (.ofConfig {} 0), .step (.ofConfig {} 0),
    .turnKey (Nibble.ofNat 3) true, .tick]

/-- Of ten that were set eight are left, and this is what is read. -/
theorem timers_show_last_setting_less_ticks_of_delayed :
    ∃ n, Machine.powerOn.run? Action.delayed = some n ∧ n.timers.delay.toNat = 8 ∧
      n.timers.sounding = false ∧
      (((Interpreter.ofConfig {} 0).step n).machine.register (Nibble.ofNat 1)).toNat = 8 := by
  have hplain : ∀ action ∈ Action.delayed, action.IsPlain := by
    simp [Action.delayed, Action.IsPlain]
  have hdelay : TimerEvent.remaining (Machine.powerOn.timers.value .delay)
      (Machine.powerOn.timerTrace .delay Action.delayed) = 8 := by
    decide +kernel
  have hsound : TimerEvent.remaining (Machine.powerOn.timers.value .sound)
      (Machine.powerOn.timerTrace .sound Action.delayed) = 0 := by
    decide +kernel
  have hread : (Machine.powerOn.run? Action.delayed).bind
      (Interpreter.ofConfig {} 0).executed? = some (.getDelay (Nibble.ofNat 1)) := by
    decide +kernel
  obtain ⟨n, hn, hvalue, htone, hstored⟩ :=
    timers_show_last_setting_less_ticks hplain (m := Machine.powerOn)
  rw [hdelay] at hstored
  rw [hsound] at htone
  rw [hn] at hread
  exact ⟨n, hn, (hvalue .delay).trans hdelay, by simpa using htone, hstored _ _ hread⟩

end Chip8
