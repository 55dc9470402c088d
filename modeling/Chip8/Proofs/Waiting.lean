import Chip8.Proofs.Clock
import Chip8.Proofs.Flow
import Chip8.Proofs.Latest

/-!
# Waiting for a key

A machine that meets a word of the pattern `Fx0A` while no key is pressed stays there: the step
leaves `Machine.waited` behind, from which the next one starts over. So a wait of any length is
an induction on the number of its steps, and only the timers tell how long it was. Turning keys
moves neither memory nor the program counter, so the wait goes on, or ends with the lowest key, as
soon as the next step is made. Every step of a wait asks for the next frame, which ends an update.
-/

namespace Chip8

open Interpreter

namespace Machine

variable {m n : Machine} {w : Word} {x : Nibble}

/-- The machine after a wait at the word `w` in which the timers have ticked `count` times. -/
def waited (m : Machine) (w : Word) (count : Nat) : Machine :=
  { m with word := w, repainted := false, timers := m.timers.ticks count }

theorem waited_waited (m : Machine) (w : Word) (first rest : Nat) :
    (m.waited w first).waited w rest = m.waited w (first + rest) := by
  simp only [waited, Timers.ticks_ticks]

/-- The machine after keys were turned, one after the other. -/
def turnKeys (m : Machine) (turns : List (Nibble × Bool)) : Machine :=
  turns.foldl (fun m turn => m.turnKey turn.1 turn.2) m

theorem turnKeys_eq (m : Machine) (turns : List (Nibble × Bool)) :
    m.turnKeys turns = { m with keypad := (m.turnKeys turns).keypad } := by
  induction turns generalizing m with
  | nil => rfl
  | cons turn turns ih => exact ih (m.turnKey turn.1 turn.2)

/-- What the turn makes of the key `k`, if it is about that key. -/
def turn? (k : Nibble) (turn : Nibble × Bool) : Option Bool :=
  if turn.1 = k then some turn.2 else none

theorem turn?_eq_some_iff {k : Nibble} {turn : Nibble × Bool} {pressed : Bool} :
    turn? k turn = some pressed ↔ turn = (k, pressed) := by
  rw [turn?, Option.ite_none_right_eq_some, Option.some.injEq, Prod.ext_iff]

theorem turn?_eq_none_iff {k : Nibble} {turn : Nibble × Bool} :
    turn? k turn = none ↔ turn.1 ≠ k := by
  rw [turn?, ite_eq_right_iff]
  simp

/-- A key is as it was turned last. -/
theorem entry_turnKeys (m : Machine) (turns : List (Nibble × Bool)) (k : Nibble) :
    (m.turnKeys turns).keypad.entry k =
      (turns.reverse.findSome? (turn? k)).getD (m.keypad.entry k) := by
  induction turns generalizing m with
  | nil => rfl
  | cons turn turns ih =>
      have hturned : (m.turnKey turn.1 turn.2).keypad.entry k =
          (turn? k turn).getD (m.keypad.entry k) := by
        rw [turnKey, Keypad.entry_turn, turn?]
        split <;> rfl
      rw [← List.singleton_append, getD_findSome?_reverse_append, List.reverse_singleton,
        List.findSome?_singleton, ← hturned]
      exact ih (m.turnKey turn.1 turn.2)

/-- A key that was released is pressed if it was pressed and not turned again. -/
theorem entry_turnKeys_eq_true_iff {turns : List (Nibble × Bool)} {k : Nibble}
    (h : m.keypad.entry k = false) :
    (m.turnKeys turns).keypad.entry k = true ↔
      ∃ before after, turns = before ++ (k, true) :: after ∧ ∀ turn ∈ after, turn.1 ≠ k := by
  have hlast : (m.turnKeys turns).keypad.entry k = true ↔
      turns.reverse.findSome? (turn? k) = some true := by
    rw [entry_turnKeys, h]
    cases turns.reverse.findSome? (turn? k) <;> simp
  rw [hlast, findSome?_reverse_eq_some_iff]
  simp only [turn?_eq_some_iff, turn?_eq_none_iff]
  constructor
  · rintro ⟨before, _, after, hturns, rfl, hafter⟩
    exact ⟨before, after, hturns, hafter⟩
  · rintro ⟨before, after, hturns, hafter⟩
    exact ⟨before, _, after, hturns, rfl, hafter⟩

end Machine

namespace Interpreter

variable {interpreter : Interpreter} {m : Machine} {w : Word} {x key : Nibble}

theorem step_of_released (interpreter : Interpreter) (hw : m.fetch? = some w)
    (hdecode : Instruction.decode w = .awaitKey x) (hreleased : ∀ k, m.keypad.entry k = false) :
    (interpreter.step m).result = .ok .awaitFrame ∧
      (interpreter.step m).interpreter = interpreter ∧
      (interpreter.step m).machine = m.waited w interpreter.config.ticksPerStep := by
  have hnone : m.fetched.keypad.lowest? = none := Keypad.lowest?_eq_none_iff.2 hreleased
  have he : (Instruction.decode w).execute interpreter.config interpreter.random m.fetched =
      .ok ⟨m.fetched, interpreter.random, .awaitFrame, []⟩ := by
    rw [hdecode, Instruction.execute, hnone]
    rfl
  rw [step_of_execute_eq_ok hw he, afterStep_eq_ticks, Machine.fetched_of_fetch?_eq_some hw]
  exact ⟨rfl, rfl, rfl⟩

theorem step_of_pressed (interpreter : Interpreter) (hw : m.fetch? = some w)
    (hdecode : Instruction.decode w = .awaitKey x) (hkey : m.keypad.lowest? = some key) :
    (interpreter.step m).result = .ok .proceed ∧
      (interpreter.step m).interpreter = interpreter ∧
      (interpreter.step m).machine =
        (m.waited w interpreter.config.ticksPerStep).advance.setRegister x key.toByte := by
  have hsome : m.fetched.keypad.lowest? = some key := hkey
  have he : (Instruction.decode w).execute interpreter.config interpreter.random m.fetched =
      .ok ⟨m.fetched.advance.setRegister x key.toByte, interpreter.random, .proceed, []⟩ := by
    rw [hdecode, Instruction.execute, hsome]
    rfl
  rw [step_of_execute_eq_ok hw he, afterStep_eq_ticks, Machine.fetched_of_fetch?_eq_some hw]
  exact ⟨rfl, rfl, rfl⟩

/-- A wait of any length, step by step. -/
theorem drive_iterate_of_released (interpreter : Interpreter) (hw : m.fetch? = some w)
    (hdecode : Instruction.decode w = .awaitKey x) (hreleased : ∀ k, m.keypad.entry k = false)
    (n : Nat) :
    outcome (drive^[n] (interpreter, m)) = .ok .awaitFrame ∧
      drive^[n + 1] (interpreter, m) =
        (interpreter, m.waited w ((n + 1) * interpreter.config.ticksPerStep)) := by
  induction n with
  | zero =>
      obtain ⟨hresult, hsame, hmachine⟩ := interpreter.step_of_released hw hdecode hreleased
      refine ⟨hresult, ?_⟩
      rw [Function.iterate_one, drive, hsame, hmachine, Nat.zero_add, Nat.one_mul]
  | succ n ih =>
      -- The machine that has waited meets the same word again.
      obtain ⟨hresult, hsame, hmachine⟩ := interpreter.step_of_released
        (m := m.waited w ((n + 1) * interpreter.config.ticksPerStep)) hw hdecode hreleased
      rw [ih.2, Function.iterate_succ_apply', ih.2]
      refine ⟨hresult, ?_⟩
      rw [drive, hsame, hmachine, Machine.waited_waited, ← Nat.succ_mul]

/-- After a wait, and after keys were turned, the machine is as before but for its keys and timers,
the word fetched last and whether the picture was touched. -/
theorem drive_iterate_eq (interpreter : Interpreter) (hw : m.fetch? = some w)
    (hdecode : Instruction.decode w = .awaitKey x) (hreleased : ∀ k, m.keypad.entry k = false)
    (n : Nat) :
    ∃ word repainted timers,
      (drive^[n] (interpreter, m)).2 = { m with word, repainted, timers } := by
  cases n with
  | zero => exact ⟨m.word, m.repainted, m.timers, rfl⟩
  | succ n =>
      rw [(interpreter.drive_iterate_of_released hw hdecode hreleased n).2]
      exact ⟨_, _, _, rfl⟩

/-- A machine that differs from `m` only by a wait and by its keys takes the lowest key. -/
theorem step_of_keyed {keyed : Machine} (interpreter : Interpreter) (hw : m.fetch? = some w)
    (hdecode : Instruction.decode w = .awaitKey x)
    (hkeyed : ∃ word repainted timers keypad,
      keyed = { m with word, repainted, timers, keypad })
    (hpressed : ∃ k, keyed.keypad.entry k = true) :
    ∃ key, keyed.keypad.entry key = true ∧ (∀ k, keyed.keypad.entry k = true → key ≤ k) ∧
      (interpreter.step keyed).result = .ok .proceed ∧
      (interpreter.step keyed).machine.register x = key.toByte ∧
      (∀ y, y ≠ x → (interpreter.step keyed).machine.register y = m.register y) ∧
      (interpreter.step keyed).machine.pc.toNat = m.pc.toNat + 2 ∧
      (interpreter.step keyed).machine.keypad = keyed.keypad := by
  obtain ⟨word, repainted, timers, keypad, rfl⟩ := hkeyed
  obtain ⟨key, hkey⟩ := Keypad.exists_lowest? hpressed
  obtain ⟨hentry, hlowest⟩ := Keypad.lowest?_eq_some_iff.1 hkey
  obtain ⟨hresult, -, hmachine⟩ := interpreter.step_of_pressed
    (m := { m with word, repainted, timers, keypad }) hw hdecode hkey
  refine ⟨key, hentry, hlowest, hresult, ?_, fun y hy => ?_, ?_, ?_⟩
  · rw [hmachine, Machine.register_setRegister_self]
  · rw [hmachine, Machine.register_setRegister, if_neg hy.symm]
    rfl
  · rw [hmachine, ← toNat_add_two (Machine.fetch?_eq_some_iff.1 hw).1]
    rfl
  · rw [hmachine]
    rfl

end Interpreter

namespace Pacer

/-- The pacer `q` is what a wait makes of `p`: keys were turned, and updates were made while none
was pressed. -/
inductive Waiting (p : Pacer) : Pacer → Prop
  | refl : Waiting p p
  | turnKey {q : Pacer} (k : Nibble) (pressed : Bool) (h : Waiting p q) :
      Waiting p (q.turnKey k pressed)
  | update {q : Pacer} {dt : Float32} {moves : List Move} {u : Update} (h : Waiting p q)
      (hreleased : ∀ k, q.machine.keypad.entry k = false) (hu : Updating q dt moves u) :
      Waiting p u.pacer

variable {p q : Pacer} {dt : Float32} {moves : List Move} {u : Update} {x : Nibble} {w : Word}

theorem stepOnce_of_released (hw : p.machine.fetch? = some w)
    (hdecode : Instruction.decode w = .awaitKey x)
    (hreleased : ∀ k, p.machine.keypad.entry k = false) :
    p.stepOnce.result = .ok .awaitFrame ∧ p.stepOnce.pacer.machine.fetch? = some w := by
  obtain ⟨hresult, -, hmachine⟩ := p.interpreter.step_of_released hw hdecode hreleased
  refine ⟨hresult, ?_⟩
  have hstepped : p.stepOnce.pacer.machine = (p.interpreter.step p.machine).machine := rfl
  rw [hstepped, hmachine]
  exact hw

/-- Spending time on instructions ends with the first step. -/
theorem Stepping.of_released (h : Stepping p moves u) (hw : p.machine.fetch? = some w)
    (hdecode : Instruction.decode w = .awaitKey x)
    (hreleased : ∀ k, p.machine.keypad.entry k = false) :
    (moves = [] ∧ u.result = .ok .proceed ∨ moves = [.step] ∧ u.result = .ok .awaitFrame) ∧
      u.pacer.machine.fetch? = some w := by
  obtain ⟨hresult, hnext⟩ := stepOnce_of_released hw hdecode hreleased
  cases h with
  | rest h => exact ⟨.inl ⟨rfl, rfl⟩, hw⟩
  | awaitFrame h hq =>
      rw [hq] at hnext
      exact ⟨.inr ⟨rfl, rfl⟩, hnext⟩
  | proceed h hq | fault h hq =>
      rw [hq] at hresult
      cases hresult

theorem exists_stepping_of_released (hw : p.machine.fetch? = some w)
    (hdecode : Instruction.decode w = .awaitKey x)
    (hreleased : ∀ k, p.machine.keypad.entry k = false) : ∃ moves u, Stepping p moves u := by
  by_cases hp : p.period ≤ p.cpuTime
  · obtain ⟨hresult, -⟩ := stepOnce_of_released hw hdecode hreleased
    have hq : p.stepOnce = ⟨.ok .awaitFrame, p.stepOnce.pacer, p.stepOnce.log⟩ := by rw [← hresult]
    exact ⟨_, _, .awaitFrame hp hq⟩
  · exact ⟨_, _, .rest hp⟩

theorem Updating.of_released (h : Updating p dt moves u) (hw : p.machine.fetch? = some w)
    (hdecode : Instruction.decode w = .awaitKey x)
    (hreleased : ∀ k, p.machine.keypad.entry k = false) :
    (moves.count .step = 0 ∧ u.result = .ok .proceed ∨
        moves.count .step = 1 ∧ u.result = .ok .awaitFrame) ∧
      u.pacer.machine.fetch? = some w := by
  cases h with
  | perStep hm hs =>
      obtain ⟨⟨rfl, hr⟩ | ⟨rfl, hr⟩, hnext⟩ := hs.of_released hw hdecode hreleased
      · exact ⟨.inl ⟨rfl, hr⟩, hnext⟩
      · exact ⟨.inr ⟨rfl, hr⟩, hnext⟩
  | external hm ht hs =>
      obtain ⟨budget, count, time, -, rfl, rfl⟩ := ticking_iff.1 ht
      have hticks : (List.replicate count Move.tick).count .step = 0 := by
        rw [List.count_replicate]
        rfl
      obtain ⟨⟨rfl, hr⟩ | ⟨rfl, hr⟩, hnext⟩ := hs.of_released hw hdecode hreleased
      · exact ⟨.inl ⟨by rw [List.count_append, hticks]; rfl, hr⟩, hnext⟩
      · exact ⟨.inr ⟨by rw [List.count_append, hticks]; rfl, hr⟩, hnext⟩

theorem Waiting.fetch?_eq (h : Waiting p q) (hw : p.machine.fetch? = some w)
    (hdecode : Instruction.decode w = .awaitKey x) : q.machine.fetch? = some w := by
  induction h with
  | refl => exact hw
  | turnKey k pressed h ih => exact ih
  | update h hreleased hu ih => exact (hu.of_released ih hdecode hreleased).2

/-- An update of a waiting machine comes to an end unless its ticks do not. -/
theorem exists_updating_of_released (hw : p.machine.fetch? = some w)
    (hdecode : Instruction.decode w = .awaitKey x)
    (hreleased : ∀ k, p.machine.keypad.entry k = false)
    (hticks : p.interpreter.config.timerMode = .external →
      ∃ budget r, countTicks? budget 0 (p.timerTime + dt) = some r) :
    ∃ moves u, Updating p dt moves u := by
  cases hm : p.interpreter.config.timerMode with
  | perStep =>
      obtain ⟨moves, u, hs⟩ := exists_stepping_of_released
        (p := { p with cpuTime := p.cpuTime + dt }) hw hdecode hreleased
      exact ⟨moves, u, .perStep hm hs⟩
  | external =>
      obtain ⟨budget, ⟨count, time⟩, hcount⟩ := hticks hm
      let ticked : Pacer :=
        { p with machine := p.machine.ticks count, cpuTime := p.cpuTime + dt, timerTime := time }
      obtain ⟨moves, u, hs⟩ := exists_stepping_of_released (p := ticked) hw hdecode hreleased
      exact ⟨_, u, .external hm (ticking_iff.2 ⟨budget, count, time, hcount, rfl, rfl⟩) hs⟩

theorem exists_update?_iff_of_released (hw : p.machine.fetch? = some w)
    (hdecode : Instruction.decode w = .awaitKey x)
    (hreleased : ∀ k, p.machine.keypad.entry k = false) :
    (∃ budget u, p.update? budget dt = some u) ↔
      (p.interpreter.config.timerMode = .external →
        ∃ budget r, countTicks? budget 0 (p.timerTime + dt) = some r) := by
  constructor
  · rintro ⟨budget, u, hu⟩ hm
    obtain ⟨moves, hmoves⟩ := update?_iff.1 ⟨budget, hu⟩
    obtain ⟨more, count, left, hcount, -⟩ := hmoves.paced_of_external hm
    exact ⟨more, _, hcount⟩
  · intro hticks
    obtain ⟨moves, u, hmoves⟩ := exists_updating_of_released hw hdecode hreleased hticks
    obtain ⟨budget, hu⟩ := update?_iff.2 ⟨moves, hmoves⟩
    exact ⟨budget, u, hu⟩

end Pacer

/-- At a word that waits for a key, with no key pressed, any number of steps ask for the next frame
and change nothing but the word fetched last, the mark of the picture and, where every step ticks,
the timers; no random byte is taken. Once keys were turned so that some are pressed, the next step
puts the lowest of them into the register and goes on. However keys are turned and time is handed
out to a pacer meanwhile, an update that is made while no key is pressed comes to an end unless its
ticks do not, and it makes no step or one that asks for the next frame. -/
theorem wait_ends_with_lowest_key (interpreter : Interpreter) {m : Machine} {w : Word}
    (hw : m.fetch? = some w) (hfits : w.fits "Fx0A" = true)
    (hreleased : ∀ k, m.keypad.entry k = false) :
    (∀ n, 1 ≤ n →
      (∀ j < n, outcome (drive^[j] (interpreter, m)) = .ok .awaitFrame) ∧
      ∃ timers, drive^[n] (interpreter, m) =
          (interpreter, { m with word := w, repainted := false, timers }) ∧
        (interpreter.config.timerMode = .perStep →
          timers.delay.toNat = m.timers.delay.toNat - n ∧
            timers.sound.toNat = m.timers.sound.toNat - n) ∧
        (interpreter.config.timerMode = .external → timers = m.timers)) ∧
    (∀ (n : Nat) (turns : List (Nibble × Bool)) (keyed : Machine),
      (drive^[n] (interpreter, m)).2.turnKeys turns = keyed →
      (∀ k, keyed.keypad.entry k = true ↔
        ∃ before after, turns = before ++ (k, true) :: after ∧ ∀ turn ∈ after, turn.1 ≠ k) ∧
      ((∃ k, keyed.keypad.entry k = true) →
        ∃ key, keyed.keypad.entry key = true ∧ (∀ k, keyed.keypad.entry k = true → key ≤ k) ∧
          (interpreter.step keyed).result = .ok .proceed ∧
          (interpreter.step keyed).machine.register w.x = key.toByte ∧
          (∀ y, y ≠ w.x → (interpreter.step keyed).machine.register y = m.register y) ∧
          (interpreter.step keyed).machine.pc.toNat = m.pc.toNat + 2 ∧
          (interpreter.step keyed).machine.keypad = keyed.keypad)) ∧
    ∀ (p q : Pacer) (dt : Float32), p.machine = m → Pacer.Waiting p q →
      (∀ k, q.machine.keypad.entry k = false) →
      ((∃ budget u, q.update? budget dt = some u) ↔
        (q.interpreter.config.timerMode = .external →
          ∃ budget r, Pacer.countTicks? budget 0 (q.timerTime + dt) = some r)) ∧
      (∀ budget u, q.update? budget dt = some u → ∃ moves, Pacer.Updating q dt moves u) ∧
      ∀ moves u, Pacer.Updating q dt moves u →
        moves.count .step = 0 ∧ u.result = .ok .proceed ∨
          moves.count .step = 1 ∧ u.result = .ok .awaitFrame := by
  have hdecode : Instruction.decode w = .awaitKey w.x :=
    Word.decode_eq_read (by simp [Word.patterns]) hfits
  refine ⟨fun n hn => ?_, fun n turns keyed hkeyed => ?_, ?_⟩
  · obtain ⟨count, rfl⟩ : ∃ count, n = count + 1 := ⟨n - 1, by omega⟩
    refine ⟨fun j _ => (interpreter.drive_iterate_of_released hw hdecode hreleased j).1, _,
      (interpreter.drive_iterate_of_released hw hdecode hreleased count).2, fun hm => ?_,
      fun hm => ?_⟩
    · have hticks : interpreter.config.ticksPerStep = 1 := by rw [Config.ticksPerStep, hm]
      rw [hticks, Nat.mul_one]
      exact ⟨Timers.toNat_countDown _ _, Timers.toNat_countDown _ _⟩
    · have hticks : interpreter.config.ticksPerStep = 0 := by rw [Config.ticksPerStep, hm]
      rw [hticks, Nat.mul_zero, Timers.ticks_zero]
  · obtain ⟨word, repainted, timers, hwaited⟩ :=
      interpreter.drive_iterate_eq hw hdecode hreleased n
    rw [hwaited] at hkeyed
    have hturned := Machine.turnKeys_eq { m with word, repainted, timers } turns
    rw [hkeyed] at hturned
    refine ⟨fun k => ?_, interpreter.step_of_keyed hw hdecode ⟨_, _, _, _, hturned⟩⟩
    rw [← hkeyed]
    exact Machine.entry_turnKeys_eq_true_iff (hreleased k)
  · rintro p q dt rfl hwaiting hstill
    have hnext := hwaiting.fetch?_eq hw hdecode
    exact ⟨Pacer.exists_update?_iff_of_released hnext hdecode hstill,
      fun budget u hu => Pacer.update?_iff.1 ⟨budget, hu⟩,
      fun moves u hmoves => (hmoves.of_released hnext hdecode hstill).1⟩

/-- A machine that waits for a key, while its delay timer runs out. -/
def waitingMachine : Machine :=
  { Machine.powerOn.loaded [0xF3, 0x0A] with timers := ⟨2, 9⟩ }

/-- The waiting machine at a hundred steps a second, with a key that was pressed and released. -/
def waitingPacer : Pacer :=
  ((Pacer.ofRate waitingMachine (.ofConfig {} 0) 100.0).turnKey (Nibble.ofNat 7) true).turnKey
    (Nibble.ofNat 7) false

/-- The fourth key is the lowest one that is pressed after a wait of three steps and after the
second one was pressed and released. A pacer that is handed time for five steps makes one. -/
theorem wait_ends_with_lowest_key_of_fourth :
    (drive^[3] (.ofConfig {} 0, waitingMachine)).2.timers.delay.toNat = 0 ∧
      (∀ keyed, (drive^[3] (.ofConfig {} 0, waitingMachine)).2.turnKeys
          [(Nibble.ofNat 9, true), (Nibble.ofNat 2, true), (Nibble.ofNat 4, true),
            (Nibble.ofNat 2, false)] = keyed →
        ((Interpreter.ofConfig {} 0).step keyed).machine.register (Nibble.ofNat 3) = 4 ∧
          ((Interpreter.ofConfig {} 0).step keyed).machine.pc.toNat = 0x202) ∧
      ∃ u moves, waitingPacer.update? 4 0.05 = some u ∧ Pacer.Updating waitingPacer 0.05 moves u ∧
        moves.count .step = 1 := by
  obtain ⟨hsteps, hends, hupdates⟩ := wait_ends_with_lowest_key (.ofConfig {} 0)
    (m := waitingMachine) (w := 0xF30A) (by decide +kernel) (by decide +kernel) (by decide +kernel)
  refine ⟨?_, fun keyed hkeyed => ?_, ?_⟩
  · obtain ⟨-, timers, hdrive, hperStep, -⟩ := hsteps 3 (by decide)
    rw [hdrive]
    exact (hperStep rfl).1
  · obtain ⟨hentry, hnext⟩ := hends 3 _ keyed hkeyed
    have hfourth : keyed.keypad.entry (Nibble.ofNat 4) = true :=
      (hentry _).2 ⟨[(Nibble.ofNat 9, true), (Nibble.ofNat 2, true)], [(Nibble.ofNat 2, false)],
        rfl, by decide⟩
    obtain ⟨key, hkey, hlowest, -, hregister, -, hpc, -⟩ := hnext ⟨_, hfourth⟩
    have hkey? := Keypad.lowest?_eq_some_iff.2 ⟨hkey, hlowest⟩
    rw [← hkeyed] at hkey?
    have hisFourth : key = Nibble.ofNat 4 := Option.some.inj (hkey?.symm.trans (by decide +kernel))
    rw [hisFourth] at hregister
    exact ⟨hregister, hpc⟩
  · have hwaiting : Pacer.Waiting (.ofRate waitingMachine (.ofConfig {} 0) 100.0) waitingPacer :=
      (Pacer.Waiting.refl.turnKey (Nibble.ofNat 7) true).turnKey (Nibble.ofNat 7) false
    obtain ⟨-, hupdating, hcount⟩ := hupdates _ _ 0.05 rfl hwaiting (by decide +kernel)
    have hresult : (waitingPacer.update? 4 0.05).map Pacer.Update.result =
        some (.ok .awaitFrame) := by
      decide +kernel
    obtain ⟨u, hu, hawait⟩ := Option.map_eq_some_iff.1 hresult
    obtain ⟨moves, hmoves⟩ := hupdating 4 u hu
    obtain ⟨-, hproceed⟩ | ⟨hone, -⟩ := hcount moves u hmoves
    · rw [hawait] at hproceed
      cases hproceed
    · exact ⟨u, moves, hu, hmoves, hone⟩

end Chip8
