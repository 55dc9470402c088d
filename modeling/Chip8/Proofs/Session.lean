import Chip8.Emulator

/-!
# Sessions of the emulator

A `Session` hands events to an emulator one after the other and lists the updates that its
redraws make. `Emulator.Reaction` says once what an event can lead to: the emulator exits, a key
is turned, a redraw faults or draws, or nothing happens. Every law of sessions is an induction
over the events that looks at these cases and at nothing else of the emulator.
-/

namespace Chip8

namespace Emulator

/-- The update that an event makes, if it is a redraw. -/
def updates (budget : Nat) (e : Emulator) : Event → List Pacer.Update
  | .redraw dt => (e.pacer.update? budget dt).toList
  | _ => []

/-- The events lead from one emulator to the other, also after it has asked to exit, and the
redraws among them make the given updates. Each of them may have a budget of its own. -/
inductive Session : Emulator → List Event → List Pacer.Update → Emulator → Prop
  | nil (e : Emulator) : Session e [] [] e
  | cons {e last : Emulator} {budget : Nat} {event : Event} {outcome : Outcome}
      {events : List Event} {later : List Pacer.Update}
      (h : e.handle? budget event = some outcome)
      (rest : Session outcome.emulator events later last) :
      Session e (event :: events) (e.updates budget event ++ later) last

/-- What an event leads to, and the updates that it makes on the way. -/
inductive Reaction (e : Emulator) : Event → List Pacer.Update → Outcome → Prop
  | close : Reaction e .close [] (.completed e.exit)
  | escape (physical : PhysicalKey) (pressed : Bool) :
      Reaction e (.key physical .escape pressed) [] (.completed e.exit)
  | turn (physical : PhysicalKey) (pressed : Bool) :
      Reaction e (.key physical .other pressed) [] (.completed (e.turnKey physical pressed))
  | fault {budget : Nat} {dt : Float32} {u : Pacer.Update} {fault : Fault}
      (hu : e.pacer.update? budget dt = some u) (hr : u.result = .error fault) :
      Reaction e (.redraw dt) [u]
        (.completed { e with pacer := u.pacer, exiting := true, fault := some fault })
  | draw {budget : Nat} {dt : Float32} {u : Pacer.Update} {signal : Signal}
      (hu : e.pacer.update? budget dt = some u) (hr : u.result = .ok signal) :
      Reaction e (.redraw dt) [u]
        ({ e with pacer := u.pacer, tone := u.pacer.machine.timers.sounding }.shade dt)
  | ignored : Reaction e .ignored [] (.completed e)

variable {e last : Emulator} {budget : Nat} {dt : Float32} {u : Pacer.Update} {event : Event}
  {outcome : Outcome} {events : List Event} {updates : List Pacer.Update}

/-- The emulator of a program is idle: it is silent, without a window, without a fault, and it
was not told to exit. -/
theorem ofProgram_eq_ok_iff {program : List UInt8} {config : Config} {entropy : UInt64}
    {rate : Float32} :
    ofProgram program config entropy rate = .ok e ↔
      ∃ machine, (Machine.ofProgram program).value = .ok machine ∧
        e = { pacer := .ofRate machine (.ofConfig config entropy) rate, glow := .dark,
              frame := none, tone := false, exiting := false, fault := none } := by
  unfold ofProgram
  cases (Machine.ofProgram program).value with
  | error fault => simp [Except.map]
  | ok machine => simp [Except.map, eq_comm]

theorem handle?_redraw_of_error {fault : Fault} (hu : e.pacer.update? budget dt = some u)
    (hr : u.result = .error fault) :
    e.handle? budget (.redraw dt) =
      some (.completed { e with pacer := u.pacer, exiting := true, fault := some fault }) := by
  rw [handle?, redraw?, update?, hu, Option.map_some, Option.map_some, hr]
  rfl

theorem handle?_redraw_of_ok {signal : Signal} (hu : e.pacer.update? budget dt = some u)
    (hr : u.result = .ok signal) :
    e.handle? budget (.redraw dt) =
      some ({ e with pacer := u.pacer, tone := u.pacer.machine.timers.sounding }.shade dt) := by
  rw [handle?, redraw?, update?, hu, Option.map_some, Option.map_some, hr]

theorem handle?_redraw_eq_none_iff :
    e.handle? budget (.redraw dt) = none ↔ e.pacer.update? budget dt = none := by
  rw [handle?, redraw?, update?, Option.map_eq_none_iff, Option.map_eq_none_iff]

theorem reaction_of_handle? (h : e.handle? budget event = some outcome) :
    e.Reaction event (e.updates budget event) outcome := by
  cases event with
  | close =>
      cases h
      exact .close
  | key physical logical pressed =>
      cases logical with
      | escape =>
          cases h
          exact .escape physical pressed
      | other =>
          cases h
          exact .turn physical pressed
  | redraw dt =>
      cases hu : e.pacer.update? budget dt with
      | none =>
          rw [handle?_redraw_eq_none_iff.2 hu] at h
          cases h
      | some u =>
          rw [Emulator.updates, hu]
          cases hr : u.result with
          | error fault =>
              rw [handle?_redraw_of_error hu hr] at h
              cases h
              exact .fault hu hr
          | ok signal =>
              rw [handle?_redraw_of_ok hu hr] at h
              cases h
              exact .draw hu hr
  | ignored =>
      cases h
      exact .ignored

/-- Drawing changes nothing but what is drawn. -/
theorem emulator_shade (e : Emulator) (dt : Float32) :
    ∃ glow frame, (e.shade dt).emulator = { e with glow := glow, frame := frame } := by
  unfold shade
  split
  · exact ⟨e.glow, e.frame, rfl⟩
  · exact ⟨_, _, rfl⟩

@[simp] theorem pacer_shade (e : Emulator) (dt : Float32) :
    (e.shade dt).emulator.pacer = e.pacer := by
  obtain ⟨glow, frame, h⟩ := e.emulator_shade dt
  rw [h]

@[simp] theorem tone_shade (e : Emulator) (dt : Float32) :
    (e.shade dt).emulator.tone = e.tone := by
  obtain ⟨glow, frame, h⟩ := e.emulator_shade dt
  rw [h]

@[simp] theorem exiting_shade (e : Emulator) (dt : Float32) :
    (e.shade dt).emulator.exiting = e.exiting := by
  obtain ⟨glow, frame, h⟩ := e.emulator_shade dt
  rw [h]

@[simp] theorem fault_shade (e : Emulator) (dt : Float32) :
    (e.shade dt).emulator.fault = e.fault := by
  obtain ⟨glow, frame, h⟩ := e.emulator_shade dt
  rw [h]

/-- A key of the keyboard turns the key of the keypad that it plays, if any. -/
theorem turnKey_eq (e : Emulator) (physical : PhysicalKey) (pressed : Bool) :
    e.turnKey physical pressed =
      { e with
        pacer := ((Keyboard.key? physical).map (e.pacer.turnKey · pressed)).getD e.pacer } := by
  unfold turnKey
  cases Keyboard.key? physical <;> rfl

/-- Where there is a frame, every event is handled to the end, and there still is one. -/
theorem Reaction.completed (h : e.Reaction event updates outcome) (hframe : e.frame.isSome) :
    ∃ after, outcome = .completed after ∧ after.frame.isSome := by
  cases h with
  | close | escape | fault | ignored => exact ⟨_, rfl, hframe⟩
  | turn physical pressed =>
      exact ⟨_, rfl, by rw [turnKey_eq]; exact hframe⟩
  | draw hu hr =>
      obtain ⟨frame, hframe⟩ := Option.isSome_iff_exists.1 hframe
      simp only [shade, hframe]
      exact ⟨_, rfl, rfl⟩

theorem Session.isSome_frame (h : Session e events updates last) (hframe : e.frame.isSome) :
    last.frame.isSome := by
  induction h with
  | nil => exact hframe
  | cons h rest ih =>
      obtain ⟨after, rfl, hafter⟩ := (reaction_of_handle? h).completed hframe
      exact ih hafter

/-- The emulator after the events, each of them handled with the same budget. -/
def handleAll? (budget : Nat) (e : Emulator) (events : List Event) : Option Emulator :=
  events.foldlM (fun e event => (e.handle? budget event).map Outcome.emulator) e

theorem exists_session (h : e.handleAll? budget events = some last) :
    ∃ made, Session e events made last := by
  induction events generalizing e with
  | nil =>
      cases h
      exact ⟨[], .nil _⟩
  | cons event events ih =>
      obtain ⟨after, hafter, hrest⟩ := Option.bind_eq_some_iff.1 h
      obtain ⟨outcome, hout, rfl⟩ := Option.map_eq_some_iff.1 hafter
      obtain ⟨later, hlater⟩ := ih hrest
      exact ⟨_, .cons hout hlater⟩

end Emulator

theorem eq_ok_of_toOption_eq_some {ε α : Type} {x : Except ε α} {a : α}
    (h : x.toOption = some a) : x = .ok a := by
  cases x with
  | error => cases h
  | ok =>
      cases h
      rfl

end Chip8
