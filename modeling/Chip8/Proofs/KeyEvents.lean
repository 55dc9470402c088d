import Chip8.Proofs.Batch
import Chip8.Proofs.Frame
import Chip8.Proofs.Latest
import Chip8.Proofs.Session

/-!
# The keypad and the keyboard

Nothing but the keys of the keyboard moves the keypad: not an instruction, not a tick, not an
update. An entry of the keypad therefore is what the last event of its own key has left there
(`Session.entry_keypad`), however many redraws and other keys came in between. That each entry
has a key of its own is a fact about the layout (`Keyboard.entry_layout_inj`).
-/

namespace Chip8

namespace Keyboard

variable {j k : Nibble} {physical : PhysicalKey}

theorem entry_layout_inj : layout.entry j = layout.entry k ↔ j = k := by
  have hinj : ∀ j k : Nibble, layout.entry j = layout.entry k → j = k := by decide
  exact ⟨hinj j k, congrArg layout.entry⟩

theorem layout_entry_of_key? (h : key? physical = some k) : layout.entry k = physical := by
  unfold key? at h
  exact eq_of_beq (List.find?_some (p := fun k => layout.entry k == physical) h)

/-- A key of the keyboard plays the entry that the layout names it for, and no other. -/
theorem key?_eq_some_iff : key? physical = some k ↔ layout.entry k = physical := by
  constructor
  · exact layout_entry_of_key?
  · rintro rfl
    cases h : key? (layout.entry k) with
    | none => exact absurd (beq_self_eq_true _) (List.find?_eq_none.1 h k (List.mem_finRange k))
    | some j => rw [entry_layout_inj.1 (layout_entry_of_key? h)]

theorem key?_eq_none_iff : key? physical = none ↔ ∀ k, layout.entry k ≠ physical := by
  rw [Option.eq_none_iff_forall_ne_some]
  exact forall_congr' fun k => not_congr key?_eq_some_iff

end Keyboard

theorem Pacer.keypad_update? {p : Pacer} {u : Update} {budget : Nat} {dt : Float32}
    (h : p.update? budget dt = some u) : u.pacer.machine.keypad = p.machine.keypad := by
  refine update?_induction (P := fun m => m.keypad = p.machine.keypad) h rfl ?_ ?_
  · intro m hm
    exact hm
  · intro interpreter m _ hm
    rw [interpreter.keypad_step, hm]

namespace Emulator

/-- What the event makes of an entry of the keypad, if it is about that entry. -/
def Event.turn? (k : Nibble) : Event → Option Bool
  | .key physical .other pressed =>
    if Keyboard.layout.entry k = physical then some pressed else none
  | _ => none

variable {e start built last : Emulator} {event : Event} {outcome : Outcome}
  {events : List Event} {updates : List Pacer.Update} {k : Nibble} {pressed : Bool}

theorem Event.turn?_eq_some_iff :
    event.turn? k = some pressed ↔ event = .key (Keyboard.layout.entry k) .other pressed := by
  constructor
  · intro h
    unfold turn? at h
    split at h
    · split at h
      · rename_i hk
        cases h
        rw [hk]
      · cases h
    · cases h
  · rintro rfl
    exact if_pos rfl

theorem Event.turn?_eq_none_iff :
    event.turn? k = none ↔
      ∀ pressed, event ≠ .key (Keyboard.layout.entry k) .other pressed := by
  rw [Option.eq_none_iff_forall_ne_some]
  exact forall_congr' fun pressed => not_congr turn?_eq_some_iff

/-- An event moves the entries that it is about, and no others. -/
theorem Reaction.entry_keypad (h : e.Reaction event updates outcome) (k : Nibble) :
    outcome.emulator.pacer.machine.keypad.entry k =
      (event.turn? k).getD (e.pacer.machine.keypad.entry k) := by
  cases h with
  | close | escape | ignored => rfl
  | turn physical pressed =>
      rw [Outcome.emulator, turnKey_eq, Event.turn?]
      cases hkey : Keyboard.key? physical with
      | none => rw [if_neg (Keyboard.key?_eq_none_iff.1 hkey k)]; rfl
      | some j =>
          rw [← Keyboard.key?_eq_some_iff.1 hkey]
          simp only [Keyboard.entry_layout_inj, Option.map_some, Option.getD_some, Pacer.turnKey,
            Machine.turnKey, Keypad.entry_turn, eq_comm (a := k)]
          split <;> rfl
  | fault hu hr =>
      rw [Outcome.emulator, Pacer.keypad_update? hu]
      rfl
  | draw hu hr =>
      rw [pacer_shade, Pacer.keypad_update? hu]
      rfl

theorem Session.entry_keypad (h : Session e events updates last) (k : Nibble) :
    last.pacer.machine.keypad.entry k =
      (events.reverse.findSome? (Event.turn? k)).getD (e.pacer.machine.keypad.entry k) := by
  induction h with
  | nil => rfl
  | cons h rest ih =>
      rw [ih, (reaction_of_handle? h).entry_keypad, ← List.singleton_append,
        getD_findSome?_reverse_append, List.reverse_singleton, List.findSome?_singleton]

/-- The keypad of an emulator that was built for a program mirrors the keyboard: after any
events an entry is pressed if the last event of its key was a press, and released if that was
a release or there was none. Escape and the keys that play no entry leave the keypad alone, and
so do steps, ticks and updates. Each entry has a key of its own. -/
theorem keypad_mirrors_keyboard {program : List UInt8} {config : Config} {entropy : UInt64}
    {rate : Float32} (hbuilt : ofProgram program config entropy rate = .ok built)
    (hstart : start = built ∨ start = built.resume)
    (hsession : Session start events updates last) :
    (∀ k, last.pacer.machine.keypad.entry k = true ↔
      ∃ before after, events = before ++ .key (Keyboard.layout.entry k) .other true :: after ∧
        ∀ pressed, .key (Keyboard.layout.entry k) .other pressed ∉ after) ∧
      (∀ (e : Emulator) (budget : Nat) (physical : PhysicalKey) (logical : LogicalKey)
        (pressed : Bool), (logical = .escape ∨ ∀ k, Keyboard.layout.entry k ≠ physical) →
          ∃ after, e.handle? budget (.key physical logical pressed) = some (.completed after) ∧
            after.pacer.machine.keypad = e.pacer.machine.keypad) ∧
      (∀ (interpreter : Interpreter) (m : Machine),
        (interpreter.step m).machine.keypad = m.keypad) ∧
      (∀ m : Machine, m.tick.keypad = m.keypad) ∧
      (∀ (p : Pacer) (budget : Nat) (dt : Float32) (u : Pacer.Update),
        p.update? budget dt = some u → u.pacer.machine.keypad = p.machine.keypad) ∧
      ∀ j k, Keyboard.layout.entry j = Keyboard.layout.entry k ↔ j = k := by
  have hreleased : ∀ k, start.pacer.machine.keypad.entry k = false := by
    intro k
    obtain ⟨machine, hmachine, rfl⟩ := ofProgram_eq_ok_iff.1 hbuilt
    obtain ⟨-, rfl⟩ := Machine.load_eq_ok_iff.1 hmachine
    rcases hstart with rfl | rfl <;> exact Table.entry_ofFn _ k
  refine ⟨?_, ?_, Interpreter.keypad_step, fun _ => rfl, fun p budget dt u =>
    Pacer.keypad_update?, fun j k => Keyboard.entry_layout_inj⟩
  · intro k
    have hlast : last.pacer.machine.keypad.entry k = true ↔
        events.reverse.findSome? (Event.turn? k) = some true := by
      rw [hsession.entry_keypad, hreleased]
      cases events.reverse.findSome? (Event.turn? k) <;> simp
    rw [hlast, findSome?_reverse_eq_some_iff]
    simp only [Event.turn?_eq_some_iff, Event.turn?_eq_none_iff]
    constructor
    · rintro ⟨before, _, after, hevents, rfl, hafter⟩
      exact ⟨before, after, hevents, fun pressed hmem => hafter _ hmem pressed rfl⟩
    · rintro ⟨before, after, hevents, hafter⟩
      refine ⟨before, _, after, hevents, rfl, ?_⟩
      rintro _ hmem pressed rfl
      exact hafter pressed hmem
  · intro e budget physical logical pressed hother
    cases logical with
    | escape => exact ⟨_, rfl, rfl⟩
    | other =>
        have hkey := Keyboard.key?_eq_none_iff.2 (hother.resolve_left nofun)
        refine ⟨_, rfl, ?_⟩
        rw [turnKey_eq, hkey]
        rfl

/-- A key is pressed, the program fails, another key is pressed while a redraw fails again, and
the first one is released. -/
theorem keypad_mirrors_keyboard_of_failing :
    ∃ start updates last, ofProgram [0x00, 0xEE] {} 0 100.0 = .ok start ∧
      Session start.resume
        [.key (.letter 'Q') .other true, .redraw 0.01, .key (.letter 'W') .other true,
          .key (.letter 'W') .escape false, .redraw 0.01, .key (.letter 'Q') .other false,
          .key .space .other true]
        updates last ∧
      last.pacer.machine.keypad.entry (Nibble.ofNat 5) = true ∧
      last.pacer.machine.keypad.entry (Nibble.ofNat 4) = false := by
  have hrun : ((ofProgram [0x00, 0xEE] {} 0 100.0).toOption.bind fun start =>
      (start.resume.handleAll? 4
        [.key (.letter 'Q') .other true, .redraw 0.01, .key (.letter 'W') .other true,
          .key (.letter 'W') .escape false, .redraw 0.01, .key (.letter 'Q') .other false,
          .key .space .other true]).map
        fun last => last.pacer.machine.keypad.entry (Nibble.ofNat 4)) = some false := by
    decide +kernel
  obtain ⟨start, hstart, hlast⟩ := Option.bind_eq_some_iff.1 hrun
  obtain ⟨last, hall, hreleased⟩ := Option.map_eq_some_iff.1 hlast
  obtain ⟨updates, hsession⟩ := exists_session hall
  have hok := eq_ok_of_toOption_eq_some hstart
  obtain ⟨hmirror, -⟩ := keypad_mirrors_keyboard hok (.inr rfl) hsession
  have hkey : Keyboard.layout.entry (Nibble.ofNat 5) = .letter 'W' := by decide
  refine ⟨start, updates, last, hok, hsession, ?_, hreleased⟩
  exact (hmirror (Nibble.ofNat 5)).2 ⟨[_, _], _, rfl, by simp [hkey]⟩

end Emulator

end Chip8
