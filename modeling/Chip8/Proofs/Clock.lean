import Chip8.Proofs.Action

/-!
# The clock of a pacer

What an update does to its machine is a row of moves, each a tick or a step. `Ticking`,
`Stepping` and `Updating` are the rules by which an update makes its moves one at a time; they
need no budget, and an update comes to an end exactly if there is a row of moves for it
(`update?_iff`). The ticks come first, and the rules for them read the time saved up for the
timers and nothing else. No rule for steps touches that time, whether the steps go on, wait for
the next frame or fail. So the ticks of every update are told by the times alone, `Clock`, and
no machine, program, rate or key has a part in them.
-/

namespace Chip8

namespace Pacer

open Interpreter

/-- What an update does to its machine. -/
inductive Move
  | tick
  | step
  deriving DecidableEq

def Move.perform (s : Interpreter × Machine) : Move → Interpreter × Machine
  | tick => (s.1, s.2.tick)
  | step => drive s

def tickOnce (p : Pacer) : Pacer :=
  { p with machine := p.machine.tick, timerTime := p.timerTime - timerPeriod }

/-- The pacer spends the time saved up for the timers on ticks, one after the other. -/
inductive Ticking : Pacer → List Move → Pacer → Prop
  | rest {p : Pacer} (h : ¬timerPeriod ≤ p.timerTime) : Ticking p [] p
  | tick {p q : Pacer} {moves : List Move} (h : timerPeriod ≤ p.timerTime)
      (later : Ticking p.tickOnce moves q) : Ticking p (.tick :: moves) q

/-- The pacer spends the time saved up for instructions on steps, one after the other. A fault
and a wait for the next frame end it. -/
inductive Stepping : Pacer → List Move → Update → Prop
  | rest {p : Pacer} (h : ¬p.period ≤ p.cpuTime) : Stepping p [] ⟨.ok .proceed, p, []⟩
  | proceed {p q : Pacer} {log : List Log.Record} {moves : List Move} {u : Update}
      (h : p.period ≤ p.cpuTime) (hq : p.stepOnce = ⟨.ok .proceed, q, log⟩)
      (later : Stepping q moves u) : Stepping p (.step :: moves) { u with log := log ++ u.log }
  | awaitFrame {p q : Pacer} {log : List Log.Record} (h : p.period ≤ p.cpuTime)
      (hq : p.stepOnce = ⟨.ok .awaitFrame, q, log⟩) :
      Stepping p [.step] ⟨.ok .awaitFrame, q.forfeit, log⟩
  | fault {p q : Pacer} {fault : Fault} {log : List Log.Record} (h : p.period ≤ p.cpuTime)
      (hq : p.stepOnce = ⟨.error fault, q, log⟩) : Stepping p [.step] ⟨.error fault, q, log⟩

/-- The pacer is handed the time `dt`, makes the given moves and ends with the update `u`. -/
inductive Updating (p : Pacer) (dt : Float32) : List Move → Update → Prop
  | perStep {steps : List Move} {u : Update} (hm : p.interpreter.config.timerMode = .perStep)
      (hs : Stepping { p with cpuTime := p.cpuTime + dt } steps u) : Updating p dt steps u
  | external {ticks steps : List Move} {q : Pacer} {u : Update}
      (hm : p.interpreter.config.timerMode = .external)
      (ht : Ticking { p with cpuTime := p.cpuTime + dt, timerTime := p.timerTime + dt } ticks q)
      (hs : Stepping q steps u) : Updating p dt (ticks ++ steps) u

variable {p q : Pacer} {budget count : Nat} {time dt : Float32} {moves : List Move} {u : Update}
  {earlier : List Log.Record}

/-! The rules against the functions with a budget. -/

/-- Ticks made before are only added to. -/
theorem countTicks?_add (budget count more : Nat) (time : Float32) :
    countTicks? budget (count + more) time =
      (countTicks? budget count time).map fun r => (r.1 + more, r.2) := by
  induction budget generalizing count time with
  | zero =>
      rw [countTicks?, countTicks?]
      split <;> rfl
  | succ budget ih =>
      rw [countTicks?, countTicks?]
      split
      · rw [Nat.add_right_comm, ih]
      · rfl

theorem machine_ticks_tick (m : Machine) (count : Nat) :
    m.tick.ticks count = m.ticks (count + 1) := by
  simp [Machine.tick, Machine.ticks, Timers.tick, Timers.ticks_ticks, Nat.add_comm]

/-- Ticks one at a time are the ticks that the time pays for, made at once. -/
theorem ticking_iff :
    Ticking p moves q ↔ ∃ budget count time, countTicks? budget 0 p.timerTime = some (count, time) ∧
      moves = List.replicate count .tick ∧
      q = { p with machine := p.machine.ticks count, timerTime := time } := by
  constructor
  · intro h
    induction h with
    | @rest p h =>
        refine ⟨0, 0, p.timerTime, ?_, rfl, ?_⟩
        · rw [countTicks?, if_neg h]
        · rw [p.machine.ticks_zero]
    | @tick p q moves h later ih =>
        obtain ⟨budget, count, time, hcount, rfl, rfl⟩ := ih
        refine ⟨budget + 1, count + 1, time, ?_, rfl, ?_⟩
        · rw [countTicks?, if_pos h, countTicks?_add]
          rw [tickOnce] at hcount
          rw [hcount, Option.map_some]
        · rw [← machine_ticks_tick]
          rfl
  · rintro ⟨budget, count, time, hcount, rfl, rfl⟩
    induction budget generalizing p count with
    | zero =>
        rw [countTicks?] at hcount
        split at hcount
        · cases hcount
        · rename_i h
          cases hcount
          rw [p.machine.ticks_zero]
          exact .rest h
    | succ budget ih =>
        rw [countTicks?] at hcount
        split at hcount
        · rename_i h
          rw [countTicks?_add] at hcount
          obtain ⟨⟨later, left⟩, hlater, heq⟩ := Option.map_eq_some_iff.1 hcount
          cases heq
          have hticking := ih (p := p.tickOnce) later hlater
          rw [tickOnce, machine_ticks_tick] at hticking
          exact .tick h hticking
        · rename_i h
          cases hcount
          rw [p.machine.ticks_zero]
          exact .rest h

theorem Stepping.exists_runInstructions? (h : Stepping p moves u) :
    ∃ budget, ∀ earlier, runInstructions? budget earlier p =
      some { u with log := earlier.reverse ++ u.log } := by
  induction h with
  | rest h => exact ⟨0, fun earlier => by rw [runInstructions?, if_neg h, List.append_nil]⟩
  | proceed h hq later ih =>
      obtain ⟨budget, hbudget⟩ := ih
      refine ⟨budget + 1, fun earlier => ?_⟩
      simp only [runInstructions?, if_pos h, hq, hbudget, List.reverse_append, List.reverse_reverse,
        List.append_assoc]
  | awaitFrame h hq =>
      exact ⟨1, fun earlier => by simp only [runInstructions?, if_pos h, hq]⟩
  | fault h hq => exact ⟨1, fun earlier => by simp only [runInstructions?, if_pos h, hq]⟩

theorem exists_stepping {v : Update} (h : runInstructions? budget earlier p = some v) :
    ∃ moves u, Stepping p moves u ∧ v = { u with log := earlier.reverse ++ u.log } := by
  induction budget generalizing earlier p with
  | zero =>
      rw [runInstructions?] at h
      split at h
      · cases h
      · rename_i hp
        cases h
        exact ⟨[], _, .rest hp, by rw [List.append_nil]⟩
  | succ budget ih =>
      rw [runInstructions?] at h
      split at h
      · rename_i hp
        split at h
        · rename_i q log hq
          obtain ⟨moves, u, hu, rfl⟩ := ih h
          refine ⟨_, _, .proceed hp hq hu, ?_⟩
          simp only [List.reverse_append, List.reverse_reverse, List.append_assoc]
        · rename_i q log hq
          cases h
          exact ⟨_, _, .awaitFrame hp hq, rfl⟩
        · rename_i fault q log hq
          cases h
          exact ⟨_, _, .fault hp hq, rfl⟩
      · rename_i hp
        cases h
        exact ⟨[], _, .rest hp, by rw [List.append_nil]⟩

/-- An update comes to an end exactly if the rules lead to one. -/
theorem update?_iff :
    (∃ budget, p.update? budget dt = some u) ↔ ∃ moves, Updating p dt moves u := by
  constructor
  · rintro ⟨budget, h⟩
    obtain ⟨q, hq, hu⟩ := Option.bind_eq_some_iff.1 h
    obtain ⟨steps, v, hsteps, rfl⟩ := exists_stepping hu
    unfold runTimers? at hq
    split at hq
    · rename_i hm
      cases hq
      exact ⟨steps, .perStep hm hsteps⟩
    · rename_i hm
      obtain ⟨⟨count, time⟩, hcount, rfl⟩ := Option.map_eq_some_iff.1 hq
      exact ⟨_, .external hm (ticking_iff.2 ⟨budget, count, time, hcount, rfl, rfl⟩) hsteps⟩
  · rintro ⟨moves, h⟩
    cases h with
    | perStep hm hs =>
        obtain ⟨budget, hbudget⟩ := hs.exists_runInstructions?
        refine ⟨budget, ?_⟩
        rw [update?, runTimers?, hm]
        exact hbudget []
    | @external ticks steps q u hm ht hs =>
        obtain ⟨budget, hbudget⟩ := hs.exists_runInstructions?
        obtain ⟨more, count, time, hcount, rfl, rfl⟩ := ticking_iff.1 ht
        refine ⟨max budget more, Option.bind_eq_some_iff.2 ⟨_, ?_,
          runInstructions?_mono (Nat.le_max_left _ _) (hbudget [])⟩⟩
        rw [runTimers?, hm]
        exact Option.map_eq_some_iff.2
          ⟨_, countTicks?_mono (Nat.le_max_right budget more) hcount, rfl⟩

/-! What the moves of an update amount to. -/

theorem foldl_perform_replicate_tick (s : Interpreter × Machine) (count : Nat) :
    (List.replicate count Move.tick).foldl Move.perform s = (s.1, s.2.ticks count) := by
  induction count generalizing s with
  | zero =>
      rw [s.2.ticks_zero]
      rfl
  | succ count ih =>
      rw [List.replicate_succ, List.foldl_cons, ih, Move.perform, machine_ticks_tick]

theorem clock_of_stepOnce {v : Update} (h : p.stepOnce = v) :
    v.pacer.timerTime = p.timerTime ∧ v.pacer.interpreter.config = p.interpreter.config := by
  subst h
  exact ⟨rfl, config_drive (p.interpreter, p.machine)⟩

/-- The moves are `count` ticks and then steps, they lead to the update `u`, and this leaves the
time `left` for the timers. -/
structure Paced (p : Pacer) (moves : List Move) (u : Update) (count : Nat) (left : Float32) :
    Prop where
  moves_eq : ∃ n, moves = List.replicate count .tick ++ List.replicate n .step
  reached : moves.foldl Move.perform (p.interpreter, p.machine) =
    (u.pacer.interpreter, u.pacer.machine)
  timerTime : u.pacer.timerTime = left
  config : u.pacer.interpreter.config = p.interpreter.config

theorem Paced.count_eq {left : Float32} (h : Paced p moves u count left) :
    moves.count .tick = count := by
  obtain ⟨n, rfl⟩ := h.moves_eq
  rw [List.count_append, List.count_replicate_self, List.count_replicate]
  rfl

/-- Steps leave the clock alone, however they end. -/
theorem Stepping.paced (h : Stepping p moves u) : Paced p moves u 0 p.timerTime := by
  induction h with
  | rest h => exact ⟨⟨0, rfl⟩, rfl, rfl, rfl⟩
  | @proceed p q log moves u h hq later ih =>
      obtain ⟨htime, hconfig⟩ := clock_of_stepOnce hq
      obtain ⟨n, hn⟩ := ih.moves_eq
      refine ⟨⟨n + 1, congrArg (List.cons Move.step) hn⟩, ?_, ih.timerTime.trans htime,
        ih.config.trans hconfig⟩
      rw [List.foldl_cons, Move.perform, (drive_of_stepOnce hq).1, ih.reached]
  | awaitFrame h hq | fault h hq =>
      obtain ⟨htime, hconfig⟩ := clock_of_stepOnce hq
      exact ⟨⟨1, rfl⟩, (drive_of_stepOnce hq).1, htime, hconfig⟩

theorem Updating.paced_of_perStep (h : Updating p dt moves u)
    (hm : p.interpreter.config.timerMode = .perStep) : Paced p moves u 0 p.timerTime := by
  cases h with
  | perStep _ hs => exact ⟨hs.paced.moves_eq, hs.paced.reached, hs.paced.timerTime, hs.paced.config⟩
  | external he =>
      rw [hm] at he
      cases he

/-- The ticks of an update are those that the time pays for. -/
theorem Updating.paced_of_external (h : Updating p dt moves u)
    (hm : p.interpreter.config.timerMode = .external) :
    ∃ budget count left, countTicks? budget 0 (p.timerTime + dt) = some (count, left) ∧
      Paced p moves u count left := by
  cases h with
  | perStep he =>
      rw [hm] at he
      cases he
  | @external ticks steps q u _ ht hs =>
      obtain ⟨budget, count, left, hcount, rfl, rfl⟩ := ticking_iff.1 ht
      obtain ⟨n, hn⟩ := hs.paced.moves_eq
      refine ⟨budget, count, left, hcount, ⟨n, congrArg _ hn⟩, ?_, hs.paced.timerTime,
        hs.paced.config⟩
      rw [List.foldl_append, foldl_perform_replicate_tick]
      exact hs.paced.reached

/-! Sessions, in which keys are turned between the updates. -/

inductive Event
  | turnKey (k : Nibble) (pressed : Bool)
  | update (dt : Float32)

def Event.time? : Event → Option Float32
  | turnKey _ _ => none
  | update dt => some dt

/-- The times that a session hands out, one for each update. -/
def times (events : List Event) : List Float32 := events.filterMap Event.time?

/-- The events lead from one pacer to the other, and each of the updates among them makes one of
the rows of moves. It does not matter with what result an update ends. -/
inductive Session : Pacer → List Event → List (List Move) → Pacer → Prop
  | nil (p : Pacer) : Session p [] [] p
  | turnKey {p q : Pacer} {k : Nibble} {pressed : Bool} {events : List Event}
      {rows : List (List Move)} (later : Session (p.turnKey k pressed) events rows q) :
      Session p (.turnKey k pressed :: events) rows q
  | update {p q : Pacer} {dt : Float32} {moves : List Move} {u : Update} {events : List Event}
      {rows : List (List Move)} (h : Updating p dt moves u)
      (later : Session u.pacer events rows q) :
      Session p (.update dt :: events) (moves :: rows) q

def ticksOf (rows : List (List Move)) : List Nat := rows.map (List.count .tick)

/-- The clock alone: the time saved up, the times handed out, and the ticks that each of them
pays for. -/
inductive Clock : Float32 → List Float32 → List Nat → Prop
  | nil (time : Float32) : Clock time [] []
  | cons {budget count : Nat} {time dt left : Float32} {dts : List Float32} {counts : List Nat}
      (h : countTicks? budget 0 (time + dt) = some (count, left)) (later : Clock left dts counts) :
      Clock time (dt :: dts) (count :: counts)

variable {events : List Event} {rows : List (List Move)} {dts : List Float32}
  {counts others : List Nat}

/-- One time saved up and one row of times give one row of ticks. -/
theorem Clock.unique (h : Clock time dts counts) (ho : Clock time dts others) :
    counts = others := by
  induction h generalizing others with
  | nil =>
      cases ho
      rfl
  | @cons budget count time dt left dts counts h later ih =>
      cases ho with
      | @cons more _ _ _ _ _ _ hmore rest =>
          -- The budgets may differ, so both counts are taken to the larger one.
          have hsame := (countTicks?_mono (Nat.le_max_left budget more) h).symm.trans
            (countTicks?_mono (Nat.le_max_right budget more) hmore)
          cases hsame
          rw [ih rest]

/-- The ticks of a session are those of the clock alone. -/
theorem Session.clock (h : Session p events rows q)
    (hm : p.interpreter.config.timerMode = .external) :
    Clock p.timerTime (times events) (ticksOf rows) := by
  induction h with
  | nil p => exact .nil _
  | turnKey later ih => exact ih hm
  | update h later ih =>
      obtain ⟨budget, count, left, hcount, hpaced⟩ := h.paced_of_external hm
      have hlater := ih (by rw [hpaced.config, hm])
      rw [hpaced.timerTime] at hlater
      rw [ticksOf, List.map_cons, hpaced.count_eq]
      exact .cons hcount hlater

/-- Every move of every update that comes to an end is one of its ticks, which come first, or
one of its steps. Where each step ticks, an update makes no tick of its own. Where timers are
driven from outside, two pacers that have just been created and are handed the same times make
the same number of ticks in each update, whatever their machines, interpreters, rates and keys,
and with whatever results the updates end. -/
theorem program_does_not_move_clock :
    (∀ (p : Pacer) (dt : Float32) (u : Update),
      (∃ budget, p.update? budget dt = some u) ↔ ∃ moves, Updating p dt moves u) ∧
    (∀ (p : Pacer) (dt : Float32) (moves : List Move) (u : Update), Updating p dt moves u →
      moves.foldl Move.perform (p.interpreter, p.machine) =
        (u.pacer.interpreter, u.pacer.machine) ∧
      (∃ k n, moves = List.replicate k .tick ++ List.replicate n .step) ∧
      (p.interpreter.config.timerMode = .perStep → .tick ∉ moves)) ∧
    ∀ (m n : Machine) (i j : Interpreter) (rate₁ rate₂ : Float32) (events₁ events₂ : List Event)
      (rows₁ rows₂ : List (List Move)) (p q : Pacer),
      i.config.timerMode = .external → j.config.timerMode = .external →
      Session (ofRate m i rate₁) events₁ rows₁ p → Session (ofRate n j rate₂) events₂ rows₂ q →
      times events₁ = times events₂ → ticksOf rows₁ = ticksOf rows₂ := by
  refine ⟨fun p dt u => update?_iff, fun p dt moves u h => ?_, ?_⟩
  · cases hm : p.interpreter.config.timerMode with
    | perStep =>
        have hpaced := h.paced_of_perStep hm
        refine ⟨hpaced.reached, ⟨0, hpaced.moves_eq⟩, fun _ => ?_⟩
        exact List.count_eq_zero.1 hpaced.count_eq
    | external =>
        obtain ⟨budget, count, left, -, hpaced⟩ := h.paced_of_external hm
        exact ⟨hpaced.reached, ⟨count, hpaced.moves_eq⟩, nofun⟩
  · intro m n i j rate₁ rate₂ events₁ events₂ rows₁ rows₂ p q hi hj hp hq htimes
    have hfirst := hp.clock hi
    have hsecond := hq.clock hj
    rw [htimes] at hfirst
    exact hfirst.unique hsecond

/-- Timers driven from outside, unknown words passed over. -/
def lenientOutside : Interpreter :=
  .ofConfig { unknownPolicy := .lenient, timerMode := .external } 1

def strictOutside : Interpreter := .ofConfig { timerMode := .external } 0

/-- A machine that counts on and one that fails in both updates, at different rates and with
different keys. -/
theorem program_does_not_move_clock_of_failing :
    ∃ rows₁ rows₂ p q,
      Session (ofRate countingMachine strictOutside 100.0)
        [.update 0.03, .turnKey (Nibble.ofNat 3) true, .update 0.03] rows₁ p ∧
      Session (ofRate (Machine.powerOn.loaded [0x00, 0xEE]) lenientOutside 50.0)
        [.turnKey (Nibble.ofNat 5) true, .update 0.03, .update 0.03] rows₂ q ∧
      ticksOf rows₁ = ticksOf rows₂ ∧ ticksOf rows₁ = [1, 2] := by
  have hcounting : (((ofRate countingMachine strictOutside 100.0).update? 4 0.03).bind fun u =>
      ((u.pacer.turnKey (Nibble.ofNat 3) true).update? 4 0.03).map Update.result) =
        some (.ok .proceed) := by
    decide +kernel
  have hfailing : ((((ofRate (Machine.powerOn.loaded [0x00, 0xEE]) lenientOutside 50.0).turnKey
      (Nibble.ofNat 5) true).update? 4 0.03).bind fun u =>
        (u.pacer.update? 4 0.03).map Update.result) = some (.error (.stackUnderflow 0x200)) := by
    decide +kernel
  obtain ⟨u, hu, hlater⟩ := Option.bind_eq_some_iff.1 hcounting
  obtain ⟨v, hv, -⟩ := Option.map_eq_some_iff.1 hlater
  obtain ⟨w, hw, hlater⟩ := Option.bind_eq_some_iff.1 hfailing
  obtain ⟨x, hx, -⟩ := Option.map_eq_some_iff.1 hlater
  obtain ⟨moves₁, hfirst⟩ := (program_does_not_move_clock.1 _ _ _).1 ⟨4, hu⟩
  obtain ⟨moves₂, hsecond⟩ := (program_does_not_move_clock.1 _ _ _).1 ⟨4, hv⟩
  obtain ⟨moves₃, hthird⟩ := (program_does_not_move_clock.1 _ _ _).1 ⟨4, hw⟩
  obtain ⟨moves₄, hfourth⟩ := (program_does_not_move_clock.1 _ _ _).1 ⟨4, hx⟩
  have hp := Session.update hfirst (.turnKey (.update hsecond (.nil _)))
  have hq := Session.turnKey (.update hthird (.update hfourth (.nil _)))
  have hticks : ((countTicks? 4 0 (0.0 + 0.03)).bind fun r =>
      (countTicks? 4 0 (r.2 + 0.03)).map fun s => (r.1, s.1)) = some (1, 2) := by
    decide +kernel
  obtain ⟨⟨k, left⟩, hr, hlater⟩ := Option.bind_eq_some_iff.1 hticks
  obtain ⟨⟨l, rest⟩, hs, hcounts⟩ := Option.map_eq_some_iff.1 hlater
  cases hcounts
  exact ⟨_, _, _, _, hp, hq, program_does_not_move_clock.2.2 countingMachine
    (Machine.powerOn.loaded [0x00, 0xEE]) strictOutside lenientOutside 100.0 50.0 _ _ _ _ _ _
    rfl rfl hp hq rfl, (hp.clock rfl).unique (.cons hr (.cons hs (.nil _)))⟩

end Pacer

end Chip8
