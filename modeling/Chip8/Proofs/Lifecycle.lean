import Chip8.Proofs.Halting
import Chip8.Proofs.Latest
import Chip8.Proofs.Session

/-!
# The life of an emulator

What an emulator has come to after a session can be read off the events and the updates that
the redraws made. It has been told to exit by a close, by Escape or by a fault; it keeps the
fault that an update met; its tone is that of the last update that succeeded. What carries the
induction is that a pacer whose update failed is `Failing` from then on: an update of it makes
no step, or one that is refused in the same way.
-/

namespace Chip8

open Interpreter

theorem Interpreter.drive_of_outcome_eq_error {s : Interpreter × Machine} {fault : Fault}
    (h : outcome s = .error fault) : drive s = (s.1, s.2.fetched) := by
  obtain ⟨hm, hi⟩ := step_of_error h
  rw [drive, hm, hi]

namespace Pacer

/-- The next step of the pacer is refused with the fault. -/
def Failing (p : Pacer) (fault : Fault) : Prop :=
  p.machine.fault? p.interpreter.config.unknownPolicy = some fault

variable {p : Pacer} {u : Update} {budget : Nat} {dt : Float32} {fault : Fault}

theorem Failing.turnKey (h : p.Failing fault) (k : Nibble) (pressed : Bool) :
    (p.turnKey k pressed).Failing fault := by
  rw [Failing, ← h]
  exact Machine.fault?_congr rfl rfl rfl

/-- The step that was refused last is refused again. -/
theorem Batch.failing {s : Interpreter × Machine} {n : Nat} (h : Batch s n u)
    (hr : u.result = .error fault) : u.pacer.Failing fault := by
  obtain ⟨hn, ho⟩ := (h.error_iff fault).1 hr
  have hlast : (u.pacer.interpreter, u.pacer.machine) = drive (drive^[n - 1] s) := by
    rw [h.reached, ← Function.iterate_succ_apply' drive, Nat.succ_eq_add_one,
      Nat.sub_add_cancel hn]
  rw [drive_of_outcome_eq_error ho, Prod.mk.injEq] at hlast
  rw [Failing, hlast.1, hlast.2, ← result_step_eq_error_iff.1 ho]
  exact Machine.fault?_congr rfl rfl rfl

theorem failing_of_result_eq_error (hu : p.update? budget dt = some u)
    (hr : u.result = .error fault) : u.pacer.Failing fault := by
  obtain ⟨k, n, -, hn⟩ := update?_batch hu
  exact hn.failing hr

/-- An update of a failing pacer does nothing but tick, or is refused with the same fault. -/
theorem Failing.update? (h : p.Failing fault) (hu : p.update? budget dt = some u) :
    u.pacer.Failing fault ∧ (u.result = .ok .proceed ∨ u.result = .error fault) := by
  obtain ⟨k, n, -, hn⟩ := update?_batch hu
  have hticked : (Machine.tick^[k] p.machine).fault? p.interpreter.config.unknownPolicy =
      some fault := by
    rw [← p.machine.ticks_eq_iterate, ← h]
    exact Machine.fault?_congr rfl rfl rfl
  rcases hn.of_outcome_eq_error (result_step_eq_error_iff.2 hticked) with ⟨rfl, hr⟩ | ⟨-, hr⟩
  · have hreached := hn.reached
    rw [Function.iterate_zero, id_eq, Prod.mk.injEq] at hreached
    refine ⟨?_, .inl hr⟩
    rw [Failing, hreached.1, hreached.2, hticked]
  · exact ⟨hn.failing hr, .inr hr⟩

/-- Whether the tone is to play after an update, which one that failed does not say. -/
def Update.tone? (u : Update) : Option Bool :=
  match u.result with
  | .ok _ => some u.pacer.machine.timers.sounding
  | .error _ => none

theorem Update.tone?_eq_some_iff {playing : Bool} :
    u.tone? = some playing ↔
      (∃ signal, u.result = .ok signal) ∧ u.pacer.machine.timers.sounding = playing := by
  unfold tone?
  cases u.result <;> simp

theorem Update.tone?_eq_none_iff : u.tone? = none ↔ ∃ fault, u.result = .error fault := by
  unfold tone?
  cases u.result <;> simp

end Pacer

namespace Emulator

/-- The event asks the emulator to exit. -/
def Event.Quits (event : Event) : Prop :=
  event = .close ∨ ∃ physical pressed, event = .key physical .escape pressed

theorem exists_mem_quits_iff {events : List Event} :
    (∃ event ∈ events, event.Quits) ↔
      .close ∈ events ∨ ∃ physical pressed, .key physical .escape pressed ∈ events := by
  constructor
  · rintro ⟨event, hevent, rfl | ⟨physical, pressed, rfl⟩⟩
    · exact .inl hevent
    · exact .inr ⟨physical, pressed, hevent⟩
  · rintro (hevent | ⟨physical, pressed, hevent⟩)
    · exact ⟨_, hevent, .inl rfl⟩
    · exact ⟨_, hevent, .inr ⟨physical, pressed, rfl⟩⟩

/-- The fault that the emulator keeps is the one that its next step is refused with. -/
def Settled (e : Emulator) : Prop := ∀ fault, e.fault = some fault → e.pacer.Failing fault

variable {e last : Emulator} {event : Event} {outcome : Outcome} {events : List Event}
  {updates : List Pacer.Update} {fault : Fault}

theorem Reaction.settled (h : e.Reaction event updates outcome) (he : e.Settled) :
    outcome.emulator.Settled := by
  intro fault hfault
  cases h with
  | close | escape | ignored => exact he fault hfault
  | turn physical pressed =>
      rw [Outcome.emulator, turnKey_eq] at hfault ⊢
      cases Keyboard.key? physical with
      | none => exact he fault hfault
      | some k => exact (he fault hfault).turnKey k pressed
  | fault hu hr =>
      cases hfault
      exact Pacer.failing_of_result_eq_error hu hr
  | draw hu hr =>
      rw [fault_shade] at hfault
      rw [pacer_shade]
      exact ((he fault hfault).update? hu).1

/-- The fault that is kept after an event was kept before or was met by it. -/
theorem Reaction.fault_eq_some_iff (h : e.Reaction event updates outcome) (he : e.Settled) :
    outcome.emulator.fault = some fault ↔
      e.fault = some fault ∨ ∃ u ∈ updates, u.result = .error fault := by
  cases h with
  | close | escape | ignored => simp [Outcome.emulator, exit]
  | turn physical pressed =>
      simp [Outcome.emulator, turnKey_eq]
  | @fault budget dt u met hu hr =>
      -- A fault kept from before is the one that is met now.
      have hkept : e.fault = some fault → met = fault := by
        intro hfault
        rcases ((he fault hfault).update? hu).2 with hp | hp
        · rw [hr] at hp
          cases hp
        · rw [hr] at hp
          cases hp
          rfl
      simpa [Outcome.emulator, hr] using hkept
  | draw hu hr => simp [hr]

theorem Reaction.exiting_iff (h : e.Reaction event updates outcome) :
    outcome.emulator.exiting = true ↔
      e.exiting = true ∨ event.Quits ∨ ∃ u ∈ updates, ∃ fault, u.result = .error fault := by
  cases h with
  | close | escape | ignored => simp [Outcome.emulator, exit, Event.Quits]
  | turn physical pressed =>
      simp [Outcome.emulator, turnKey_eq, Event.Quits]
  | fault hu hr => simp [Outcome.emulator, hr]
  | draw hu hr => simp [hr, Event.Quits]

theorem Reaction.tone_eq (h : e.Reaction event updates outcome) :
    outcome.emulator.tone = (updates.reverse.findSome? Pacer.Update.tone?).getD e.tone := by
  cases h with
  | close | escape | ignored => rfl
  | turn physical pressed =>
      simp [Outcome.emulator, turnKey_eq]
  | fault hu hr => simp [Outcome.emulator, Pacer.Update.tone?, hr]
  | draw hu hr => simp [Pacer.Update.tone?, hr]

/-! The step laws carried through a session. -/

theorem Session.settled (h : Session e events updates last) (he : e.Settled) : last.Settled := by
  induction h with
  | nil => exact he
  | cons h rest ih => exact ih ((reaction_of_handle? h).settled he)

theorem Session.fault_eq_some_iff (h : Session e events updates last) (he : e.Settled) :
    last.fault = some fault ↔
      e.fault = some fault ∨ ∃ u ∈ updates, u.result = .error fault := by
  induction h with
  | nil => simp
  | cons h rest ih =>
      have hr := reaction_of_handle? h
      rw [ih (hr.settled he), hr.fault_eq_some_iff he, or_assoc]
      simp only [List.mem_append, or_and_right, exists_or]

theorem Session.exiting_iff (h : Session e events updates last) :
    last.exiting = true ↔
      e.exiting = true ∨ (∃ event ∈ events, event.Quits) ∨
        ∃ u ∈ updates, ∃ fault, u.result = .error fault := by
  induction h with
  | nil => simp
  | cons h rest ih =>
      rw [ih, (reaction_of_handle? h).exiting_iff]
      simp only [List.mem_append, List.mem_cons, or_and_right, exists_or, exists_eq_left]
      exact Iff.of_eq (by ac_rfl)

theorem Session.tone_eq (h : Session e events updates last) :
    last.tone = (updates.reverse.findSome? Pacer.Update.tone?).getD e.tone := by
  induction h with
  | nil => rfl
  | cons h rest ih =>
      rw [ih, (reaction_of_handle? h).tone_eq, getD_findSome?_reverse_append]

/-- The tone plays if the last update that said anything about it said so. -/
theorem Session.tone_eq_true_iff (h : Session e events updates last) (he : e.tone = false) :
    last.tone = true ↔
      ∃ before u after, updates = before ++ u :: after ∧ (∃ signal, u.result = .ok signal) ∧
        0 < u.pacer.machine.timers.sound ∧ ∀ v ∈ after, ∃ fault, v.result = .error fault := by
  have hlast : last.tone = true ↔
      updates.reverse.findSome? Pacer.Update.tone? = some true := by
    rw [h.tone_eq, he]
    cases updates.reverse.findSome? Pacer.Update.tone? <;> simp
  rw [hlast, findSome?_reverse_eq_some_iff]
  simp only [Pacer.Update.tone?_eq_some_iff, Pacer.Update.tone?_eq_none_iff, Timers.sounding,
    decide_eq_true_eq, and_assoc]

variable {program : List UInt8} {config : Config} {entropy : UInt64} {rate : Float32}
  {start : Emulator}

/-- What an emulator that was resumed has come to after any events, those included that come
after it was told to exit. It has been told so by a close, by Escape or by an update that
failed. The fault that it ends with is that of every update that failed, and stays. The tone
plays if the sound timer ran right after the last update that succeeded. Every event is
handled to the end unless it is a redraw whose update has none, and a redraw whose update
fails leaves the tone, the frame and the brightness alone. -/
theorem exit_fault_and_tone_of_session
    (hstart : ofProgram program config entropy rate = .ok start)
    (hsession : Session start.resume events updates last) :
    (last.exiting = true ↔
      .close ∈ events ∨ (∃ physical pressed, .key physical .escape pressed ∈ events) ∨
        ∃ u ∈ updates, ∃ fault, u.result = .error fault) ∧
      (∀ fault, last.fault = some fault ↔ ∃ u ∈ updates, u.result = .error fault) ∧
      (∀ text, last.fault.map exitMessage = some text ↔
        ∃ u ∈ updates, ∃ fault, u.result = .error fault ∧
          text = "Chip8 Execution error: " ++ fault.message) ∧
      (∀ (more : List Event) (later : List Pacer.Update) (final : Emulator) (fault : Fault),
        Session last more later final → last.fault = some fault →
          final.fault = some fault ∧
            ∀ u ∈ later, ∀ another, u.result = .error another → another = fault) ∧
      (last.tone = true ↔
        ∃ before u after, updates = before ++ u :: after ∧ (∃ signal, u.result = .ok signal) ∧
          0 < u.pacer.machine.timers.sound ∧
          ∀ v ∈ after, ∃ fault, v.result = .error fault) ∧
      (∀ (budget : Nat) (event : Event),
        (∃ dt, event = .redraw dt ∧ last.pacer.update? budget dt = none) ∨
          ∃ e, last.handle? budget event = some (.completed e)) ∧
      ∀ (budget : Nat) (dt : Float32) (u : Pacer.Update) (fault : Fault),
        last.pacer.update? budget dt = some u → u.result = .error fault →
          ∃ e, last.handle? budget (.redraw dt) = some (.completed e) ∧
            e.tone = last.tone ∧ e.frame = last.frame ∧ e.glow = last.glow := by
  obtain ⟨machine, -, rfl⟩ := ofProgram_eq_ok_iff.1 hstart
  have hsettled := hsession.settled nofun
  have hfaults : ∀ fault, last.fault = some fault ↔ ∃ u ∈ updates, u.result = .error fault := by
    intro fault
    rw [hsession.fault_eq_some_iff nofun]
    simp [resume]
  refine ⟨?_, hfaults, ?_, ?_, hsession.tone_eq_true_iff rfl, ?_, ?_⟩
  · rw [hsession.exiting_iff, exists_mem_quits_iff, or_assoc]
    simp [resume]
  · intro text
    constructor
    · intro h
      obtain ⟨fault, hf, rfl⟩ := Option.map_eq_some_iff.1 h
      obtain ⟨u, hu, hr⟩ := (hfaults fault).1 hf
      exact ⟨u, hu, fault, hr, rfl⟩
    · rintro ⟨u, hu, fault, hr, rfl⟩
      exact Option.map_eq_some_iff.2 ⟨fault, (hfaults fault).2 ⟨u, hu, hr⟩, rfl⟩
  · intro more later final fault hmore hlast
    have hkept : final.fault = some fault := (hmore.fault_eq_some_iff hsettled).2 (.inl hlast)
    refine ⟨hkept, fun u hu another hr => ?_⟩
    have hmet := (hmore.fault_eq_some_iff hsettled).2 (.inr ⟨u, hu, hr⟩)
    rw [hkept] at hmet
    cases hmet
    rfl
  · intro budget event
    cases hout : last.handle? budget event with
    | none =>
        cases event with
        | redraw dt => exact .inl ⟨dt, rfl, handle?_redraw_eq_none_iff.1 hout⟩
        | key physical logical pressed => cases logical <;> cases hout
        | close | ignored => cases hout
    | some outcome =>
        obtain ⟨after, rfl, -⟩ := (reaction_of_handle? hout).completed
          (hsession.isSome_frame rfl)
        exact .inr ⟨after, rfl⟩
  · intro budget dt u fault hu hr
    exact ⟨_, handle?_redraw_of_error hu hr, rfl, rfl, rfl⟩

/-- A tone is turned on, then a return without a call fails. Neither the close nor the key after
it changes that, the next redraw fails in the same way, and the tone stays on throughout. -/
theorem exit_fault_and_tone_of_session_of_return :
    ∃ start updates last,
      ofProgram [0x60, 0x05, 0xF0, 0x18, 0x00, 0xEE] {} 0 100.0 = .ok start ∧
      Session start.resume
        [.redraw 0.025, .redraw 0.01, .close, .key (.digit 1) .other true, .redraw 0.01]
        updates last ∧
      last.exiting = true ∧ last.fault = some (.stackUnderflow 0x204) ∧
      (∀ u ∈ updates, ∀ fault, u.result = .error fault → fault = .stackUnderflow 0x204) ∧
      ∃ before u after, updates = before ++ u :: after ∧ (∃ signal, u.result = .ok signal) ∧
        0 < u.pacer.machine.timers.sound ∧ ∀ v ∈ after, ∃ fault, v.result = .error fault := by
  have hrun : ((ofProgram [0x60, 0x05, 0xF0, 0x18, 0x00, 0xEE] {} 0 100.0).toOption.bind
      fun start => (start.resume.handleAll? 4
        [.redraw 0.025, .redraw 0.01, .close, .key (.digit 1) .other true, .redraw 0.01]).map
          fun last => (last.fault, last.tone)) = some (some (.stackUnderflow 0x204), true) := by
    decide +kernel
  obtain ⟨start, hstart, hlast⟩ := Option.bind_eq_some_iff.1 hrun
  obtain ⟨last, hall, hshown⟩ := Option.map_eq_some_iff.1 hlast
  obtain ⟨hfault, htone⟩ := Prod.mk.inj hshown
  obtain ⟨updates, hsession⟩ := exists_session hall
  have hok := eq_ok_of_toOption_eq_some hstart
  obtain ⟨hexiting, hfaults, -, -, hplaying, -⟩ := exit_fault_and_tone_of_session hok hsession
  refine ⟨start, updates, last, hok, hsession, hexiting.2 (.inl (by simp)), hfault, ?_,
    hplaying.1 htone⟩
  intro u hu fault hr
  have hmet := (hfaults fault).2 ⟨u, hu, hr⟩
  rw [hfault] at hmet
  cases hmet
  rfl

end Emulator

end Chip8
