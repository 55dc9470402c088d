import Chip8.Proofs.History

/-!
# What inputs reach

Keys and ticks reach a machine from outside, and a program gets to know of them only through the
instructions that ask for a key or for the delay timer, `Instruction.readsInput`. Two machines
are compared muted, that is with their timers stopped and their keypads released. They may
receive what they will between their steps: as long as no instruction asks for it, the steps of
one are seen to be the steps of the other.
-/

namespace Chip8

/-- What reaches a machine from outside between two steps. -/
inductive Input
  | tick
  | turnKey (k : Nibble) (pressed : Bool)

/-- Whether an instruction asks for a key or for the delay timer. -/
def Instruction.readsInput : Instruction → Bool
  | skipPressed _ => true
  | skipReleased _ => true
  | awaitKey _ => true
  | getDelay _ => true
  | _ => false

namespace Machine

def receive (m : Machine) : Input → Machine
  | .tick => m.tick
  | .turnKey k pressed => m.turnKey k pressed

def receiveAll (m : Machine) (inputs : List Input) : Machine := inputs.foldl receive m

/-- The machine with its timers stopped and its keypad released. -/
def muted (m : Machine) : Machine := { m with timers := .stopped, keypad := .released }

variable {m n : Machine}

theorem muted_receiveAll (m : Machine) (inputs : List Input) :
    (m.receiveAll inputs).muted = m.muted := by
  induction inputs generalizing m with
  | nil => rfl
  | cons input rest ih =>
      rw [receiveAll, List.foldl_cons, ← receiveAll, ih]
      cases input with
      | tick | turnKey => rfl

theorem muted_afterStep (config : Config) (m : Machine) :
    (Interpreter.afterStep config m).muted = m.muted := by
  rw [Interpreter.afterStep_eq_ticks]
  rfl

theorem fetch?_muted (m : Machine) : m.muted.fetch? = m.fetch? := rfl

theorem muted_fetched (m : Machine) : m.muted.fetched.muted = m.fetched.muted := rfl

end Machine

/-- An instruction that asks for no input is seen to do the same on the muted machine. -/
theorem Instruction.execute_muted {config : Config} {random : Random.Source} {i : Instruction}
    (hi : i.readsInput = false) (m : Machine) :
    (i.execute config random m.muted).map (Effect.seen Machine.muted) =
      (i.execute config random m).map (Effect.seen Machine.muted) := by
  cases i with
  | skipPressed | skipReleased | awaitKey | getDelay => cases hi
  | ret =>
      have hsame : m.muted.stack = m.stack := rfl
      simp only [execute, hsame]
      cases m.stack.pop? with
      | none => rfl
      | some popped => rfl
  | call target =>
      have hsame : m.muted.stack.push? (m.muted.pc + 2) = m.stack.push? (m.pc + 2) := rfl
      simp only [execute, hsame]
      cases m.stack.push? (m.pc + 2) with
      | none => rfl
      | some pushed => rfl
  | unknown word => cases h : config.unknownPolicy <;> simp only [execute, h] <;> rfl
  | operate operation x y =>
      have hsame : operation.apply config (m.muted.advance.register x)
          (m.muted.advance.register y) =
          operation.apply config (m.advance.register x) (m.advance.register y) := rfl
      simp only [execute, Machine.operate, hsame]
      rcases operation.apply config (m.advance.register x) (m.advance.register y) with
        ⟨result, _ | flag⟩
      · rfl
      · rfl
  | skipEqByte | skipNeByte | skipEq | skipNe =>
      simp only [execute, Machine.skipIf_eq]
      rfl
  | _ => rfl

theorem Instruction.fault?_of_readsInput (policy : UnknownPolicy) (m : Machine) {i : Instruction}
    (hi : i.readsInput = true) : i.fault? policy m = none := by
  cases i with
  | skipPressed | skipReleased | awaitKey | getDelay => rfl
  | _ => cases hi

namespace Interpreter

/-- The steps of a run, before each of which the machine receives the inputs of one round. -/
def rounds : Interpreter → Machine → List (List Input) → List Step
  | _, _, [] => []
  | i, m, inputs :: rest =>
    i.step (m.receiveAll inputs) :: rounds (i.step (m.receiveAll inputs)).interpreter
      (i.step (m.receiveAll inputs)).machine rest

/-- The instructions that these steps carry out. -/
def carriedOut : Interpreter → Machine → List (List Input) → List Instruction
  | _, _, [] => []
  | i, m, inputs :: rest =>
    (i.executed? (m.receiveAll inputs)).toList ++
      carriedOut (i.step (m.receiveAll inputs)).interpreter
        (i.step (m.receiveAll inputs)).machine rest

variable {i j : Interpreter} {m n : Machine}

theorem take_rounds (i : Interpreter) (m : Machine) (schedule : List (List Input)) (count : Nat) :
    (i.rounds m schedule).take count = i.rounds m (schedule.take count) := by
  induction schedule generalizing i m count with
  | nil => rw [rounds, List.take_nil, List.take_nil, rounds]
  | cons inputs rest ih =>
      cases count with
      | zero => rfl
      | succ count => rw [rounds, List.take_succ_cons, List.take_succ_cons, rounds, ih]

/-- A step that asks for no input is seen to be the same on two machines that are the same when
they are muted. -/
theorem seen_step_muted (hmuted : n.muted = m.muted)
    (hfree : ∀ instruction, i.executed? m = some instruction → instruction.readsInput = false) :
    (i.step n).seen Machine.muted = (i.step m).seen Machine.muted := by
  have hpc : n.pc = m.pc := by
    change n.muted.pc = m.muted.pc
    rw [hmuted]
  have hfetch : n.fetch? = m.fetch? := by rw [← n.fetch?_muted, hmuted, m.fetch?_muted]
  have hfetched : n.fetched.muted = m.fetched.muted := by
    rw [← n.muted_fetched, hmuted, m.muted_fetched]
  cases hw : m.fetch? with
  | none =>
      rw [step_of_fetch?_eq_none hw, step_of_fetch?_eq_none (hfetch.trans hw)]
      have hforgot := congrArg (fun k : Machine => { k with repainted := false }) hmuted
      exact Step.seen_eq (by rw [hpc]) hforgot rfl rfl
  | some word =>
      have hquiet : (Instruction.decode word).readsInput = false := by
        have hi : m.instruction? = some (Instruction.decode word) := by
          rw [Machine.instruction?, hw, Option.map_some]
        cases hreads : (Instruction.decode word).readsInput with
        | false => rfl
        | true =>
            -- It would not fail, and so it would be among those that are carried out.
            have hfault := Instruction.fault?_of_readsInput i.config.unknownPolicy m hreads
            rw [hfree _ (executed?_of_instruction? hi hfault)] at hreads
            cases hreads
      refine seen_step_congr hw (hfetch.trans hw) hpc hfetched ?_ fun k l hkl => ?_
      · rw [← Instruction.execute_muted hquiet n.fetched, hfetched,
          Instruction.execute_muted hquiet m.fetched]
      · rw [Machine.muted_afterStep, Machine.muted_afterStep, hkl]

theorem seen_rounds (first second : List (List Input)) (hmuted : n.muted = m.muted)
    (hlength : second.length = first.length)
    (hfree : ∀ instruction ∈ i.carriedOut m first, instruction.readsInput = false) :
    (i.rounds n second).map (Step.seen Machine.muted) =
      (i.rounds m first).map (Step.seen Machine.muted) := by
  induction first generalizing i m n second with
  | nil =>
      rw [List.length_eq_zero_iff.1 hlength, rounds, rounds]
  | cons inputs rest ih =>
      obtain ⟨others, later, rfl⟩ := List.exists_cons_of_length_eq_add_one hlength
      rw [carriedOut] at hfree
      have hreceived : (n.receiveAll others).muted = (m.receiveAll inputs).muted := by
        rw [Machine.muted_receiveAll, Machine.muted_receiveAll, hmuted]
      have hseen := seen_step_muted (i := i) hreceived fun instruction hi =>
        hfree instruction (List.mem_append_left _ (Option.mem_toList.2 hi))
      rw [rounds, rounds, List.map_cons, List.map_cons, hseen, Step.interpreter_eq_of_seen hseen,
        ih later (Step.view_eq_of_seen hseen) (Nat.succ.inj hlength) fun instruction hi =>
          hfree instruction (List.mem_append_right _ hi)]

/-- Inputs reach a program only through the instructions that ask for them. Take two machines
that differ in timers and keypad at most, driven by interpreters with one configuration and one
source of random bytes, and let them receive whatever inputs before each of their steps. As long
as the steps of the first one carry out no instruction that asks for a key or for the delay
timer, the steps of the second one have the same results, leave machines that differ in timers
and keypad at most, take the same random bytes and are recorded alike. -/
theorem inputs_reach_only_their_readers (first second : List (List Input))
    (hconfig : j.config = i.config) (hrandom : j.random = i.random)
    (hmachine : n = { m with timers := n.timers, keypad := n.keypad })
    (hlength : second.length = first.length) (count : Nat)
    (hfree : ∀ instruction ∈ i.carriedOut m (first.take count),
      instruction.readsInput = false) :
    ((j.rounds n second).take count).map (Step.seen Machine.muted) =
      ((i.rounds m first).take count).map (Step.seen Machine.muted) := by
  obtain rfl := eq_of_config_eq hconfig hrandom
  have hmuted : n.muted = m.muted := by
    rw [hmachine]
    rfl
  rw [take_rounds, take_rounds]
  refine seen_rounds _ _ hmuted ?_ hfree
  rw [List.length_take, List.length_take, hlength]

/-- A machine that sets both timers, and then reads one of them. -/
def timedMachine : Machine :=
  Machine.powerOn.loaded [0x60, 0x05, 0xF0, 0x15, 0xF0, 0x18, 0xF1, 0x07]

/-- The same machine with its timers running and a key pressed. -/
def disturbedMachine : Machine :=
  { timedMachine with timers := ⟨9, 7⟩, keypad := Keypad.released.turn (Nibble.ofNat 3) true }

def fewInputs : List (List Input) := [[], [], [], []]

def manyInputs : List (List Input) :=
  [[.tick], [.turnKey (Nibble.ofNat 1) true, .tick], [.tick, .tick], [.tick]]

/-- The first three steps are alike. The fourth one reads a timer, and gets to know. -/
theorem inputs_reach_only_their_readers_of_timed :
    (((Interpreter.ofConfig {} 0).rounds disturbedMachine manyInputs).take 3).map
        (Step.seen Machine.muted) =
      (((Interpreter.ofConfig {} 0).rounds timedMachine fewInputs).take 3).map
        (Step.seen Machine.muted) ∧
      ((Interpreter.ofConfig {} 0).rounds timedMachine fewInputs)[3]?.map
        (fun s => s.machine.register (Nibble.ofNat 1)) = some 3 ∧
      ((Interpreter.ofConfig {} 0).rounds disturbedMachine manyInputs)[3]?.map
        (fun s => s.machine.register (Nibble.ofNat 1)) = some 0 := by
  have hfree : ∀ instruction ∈ (Interpreter.ofConfig {} 0).carriedOut timedMachine
      (fewInputs.take 3), instruction.readsInput = false := by
    decide +kernel
  exact ⟨inputs_reach_only_their_readers fewInputs manyInputs rfl rfl rfl rfl 3 hfree,
    by decide +kernel, by decide +kernel⟩

end Interpreter

end Chip8
