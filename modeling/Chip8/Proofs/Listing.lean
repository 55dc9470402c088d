import Chip8.Proofs.Action
import Chip8.Proofs.Frame
import Chip8.Proofs.Memory

/-!
# The listing shows what is executed

A listing reads words from an image two bytes at a time and counts addresses along. A machine
that was loaded with the image reads its words from memory, wherever the program counter
stands, and memory may have changed since. `Machine.written` lists the addresses that a run
has written to; every other byte still holds what the image put there. So at an even distance
from the start, as long as neither byte of a word was written to, the machine fetches the word
of the entry that the listing has for this address, and its record of the step is the line of
that entry.
-/

namespace Chip8

theorem Word.getElem?_ofImage (image : List UInt8) (k : Nat) :
    (Word.ofImage image)[k]? =
      (image[2 * k]?).bind fun high => (image[2 * k + 1]?).map (Word.ofBytes high) := by
  fun_induction Word.ofImage image generalizing k with
  | case1 high low rest ih =>
      cases k with
      | zero => rfl
      | succ k =>
          rw [List.getElem?_cons_succ, ih]
          rfl
  | case2 image hshort =>
      cases image with
      | nil => rfl
      | cons high rest =>
          cases rest with
          | nil => cases k <;> rfl
          | cons low rest => exact (hshort high low rest rfl).elim

namespace Listing

theorem getElem?_ofWords (address : UInt16) (words : List Word) (k : Nat) :
    (ofWords address words)[k]? =
      (words[k]?).map fun word => ⟨address + UInt16.ofNat (2 * k), word⟩ := by
  induction words generalizing address k with
  | nil => rfl
  | cons word words ih =>
      cases k with
      | zero => simp [ofWords]
      | succ k =>
          have haddress : address + 2 + UInt16.ofNat (2 * k) =
              address + UInt16.ofNat (2 * (k + 1)) := by
            rw [Nat.mul_succ, UInt16.ofNat_add, UInt16.add_assoc,
              UInt16.add_comm (UInt16.ofNat (2 * k))]
            rfl
          rw [ofWords, List.getElem?_cons_succ, ih, haddress, List.getElem?_cons_succ]

/-- The entry of the word whose bytes stand `2 * k` bytes behind the origin. -/
theorem getElem?_entries {image : List UInt8} {k : Nat} {high low : UInt8} (origin : UInt16)
    (hhigh : image[2 * k]? = some high) (hlow : image[2 * k + 1]? = some low) :
    (entries image origin)[k]? =
      some ⟨origin + UInt16.ofNat (2 * k), Word.ofBytes high low⟩ := by
  rw [entries, getElem?_ofWords, Word.getElem?_ofImage, hhigh, hlow]
  rfl

end Listing

namespace Instruction

variable {m : Machine} {i : Instruction}

/-- The addresses that an instruction writes to. -/
def storedAt (m : Machine) (i : Instruction) : List Nat :=
  (List.range (i.stored m).length).map fun k => (m.index.toNat + k) % Memory.size

theorem length_stored_le (i : Instruction) (m : Machine) : (i.stored m).length ≤ 16 := by
  cases i with
  | storeDecimal => simp [stored, Machine.decimalDigits]
  | storeRegisters x =>
      simp only [stored, List.length_take, Vector.length_toList]
      omega
  | _ => exact Nat.zero_le _

theorem records_ne_trace (i : Instruction) (m : Machine) :
    ∀ record ∈ i.records m, record.level ≠ .trace := by
  cases i <;> simp [records, Log.Record.level]

end Instruction

namespace Interpreter

variable {interpreter : Interpreter} {m : Machine}

/-- The addresses that a step writes to. -/
def written (interpreter : Interpreter) (m : Machine) : List Nat :=
  match interpreter.executed? m with
  | some i => i.storedAt m
  | none => []

/-- A step changes no byte that it does not write to. -/
theorem read_step {a : Nat} (ha : a < Memory.size) (h : a ∉ interpreter.written m) :
    (interpreter.step m).machine.memory.read a = m.memory.read a := by
  unfold written at h
  split at h
  · rename_i i hi
    have hlength := i.length_stored_le m
    rw [memory_step hi]
    refine Memory.read_store_of_forall_ne (by omega) ha fun k hk hplace => h ?_
    exact List.mem_map.2 ⟨k, List.mem_range.2 hk, hplace⟩
  · rename_i hi
    rw [(step_of_executed?_eq_none hi).1]
    rfl

/-- A step that fetched a word records this once. -/
theorem traced_step {word : Word} (h : m.fetch? = some word) :
    ((interpreter.step m).log.filter fun record => record.level == .trace) =
      [.fetched m.pc word] := by
  rw [step_of_fetch?_eq_some h, executeWord]
  split
  · rfl
  · rename_i effect he
    have hnone : effect.log.filter (fun record => record.level == .trace) = [] := by
      rw [(Instruction.touches_execute he).log, List.filter_eq_nil_iff]
      intro record hrecord
      rw [beq_iff_eq]
      exact Instruction.records_ne_trace _ _ record hrecord
    rw [List.filter_cons, hnone]
    rfl

theorem word_step {word : Word} (h : m.fetch? = some word) :
    (interpreter.step m).machine.word = word := by
  rw [step_of_fetch?_eq_some h, executeWord]
  split
  · rfl
  · rename_i effect he
    rw [afterStep_eq]
    exact (Instruction.touches_execute he).word

end Interpreter

namespace Action

/-- The addresses that an action writes to. -/
def written (m : Machine) : Action → List Nat
  | step interpreter => interpreter.written m
  | _ => []

end Action

namespace Machine

variable {m n : Machine} {actions : List Action}

/-- The addresses that a run writes to. -/
def written (m : Machine) (actions : List Action) : List Nat := m.trace Action.written actions

theorem read_perform? {action : Action} {a : Nat} (ha : a < Memory.size) (hd : action.Drives)
    (hn : m.perform? action = some n) (h : a ∉ action.written m) :
    n.memory.read a = m.memory.read a := by
  cases action with
  | step interpreter =>
      cases hn
      exact Interpreter.read_step ha h
  | tick | turnKey =>
      cases hn
      rfl
  | load | reset | update => exact hd.elim

/-- If the actions of a run change a byte only by writing to it, then so does the run. -/
theorem read_run?_of_perform? {a : Nat}
    (hstep : ∀ action ∈ actions, ∀ k l, k.perform? action = some l → a ∉ action.written k →
      l.memory.read a = k.memory.read a)
    (hn : m.run? actions = some n) (h : a ∉ m.written actions) :
    n.memory.read a = m.memory.read a := by
  induction actions generalizing m with
  | nil =>
      cases hn
      rfl
  | cons action rest ih =>
      obtain ⟨k, hk, hrest⟩ := Option.bind_eq_some_iff.1 hn
      rw [written, trace_cons hk, List.mem_append, not_or] at h
      rw [ih (fun b hmem => hstep b (List.mem_cons_of_mem action hmem)) hrest h.2]
      exact hstep action List.mem_cons_self m k hk h.1

/-- A run changes no byte that it does not write to. -/
theorem read_run? {a : Nat} (ha : a < Memory.size) (hd : ∀ action ∈ actions, action.Drives)
    (hn : m.run? actions = some n) (h : a ∉ m.written actions) :
    n.memory.read a = m.memory.read a :=
  read_run?_of_perform? (fun action hmem _ _ => read_perform? ha (hd action hmem)) hn h

/-- A machine that was loaded holds the bytes of the program from the start on. -/
theorem read_of_load {program : List UInt8} {j : Nat} {b : UInt8}
    (h : (m.load program).value = .ok n) (hj : program[j]? = some b) :
    n.memory.read (start + j) = b := by
  obtain ⟨hlength, rfl⟩ := load_eq_ok_iff.1 h
  rw [capacity, start, Memory.size] at hlength
  exact Memory.read_store_add _ _ (by omega) hj

end Machine

/-- For every program that fits, and wherever a run of it has led: if the program counter
stands at the word `k` of the program, and the run has written to neither byte of it, then the
entry `k` of the listing names the address, the word and the instruction of the next step, and
what that step records of fetching is the line `k` behind the mark. -/
theorem listing_shows_execution (program : List UInt8)
    (hlength : program.length ≤ 3584) :
    ∃ start, (Machine.ofProgram program).value = .ok start ∧
      ∀ (actions : List Action) (m : Machine) (k : Nat),
        (∀ action ∈ actions, action.Drives) → start.run? actions = some m →
        k < program.length / 2 → m.pc.toNat = 0x200 + 2 * k →
        m.pc.toNat ∉ start.written actions → m.pc.toNat + 1 ∉ start.written actions →
        ∃ entry line,
          (Listing.entries program (UInt16.ofNat Machine.start))[k]? = some entry ∧
          (Listing.lines program (UInt16.ofNat Machine.start))[k]? = some line ∧
          entry.address = m.pc ∧ m.fetch? = some entry.word ∧
          m.instruction? = some entry.instruction ∧
          ∀ interpreter : Interpreter,
            (interpreter.step m).machine.word = entry.word ∧
            (∀ i, interpreter.executed? m = some i → i = entry.instruction) ∧
            ((interpreter.step m).log.filter fun record => record.level == .trace).map
              Log.Record.text = ["0x" ++ line] := by
  obtain ⟨start, hstart⟩ : ∃ start, (Machine.ofProgram program).value = .ok start :=
    ⟨_, Machine.load_eq_ok_iff.2 ⟨hlength, rfl⟩⟩
  refine ⟨start, hstart, fun actions m k hd hrun hk hpc hfirst hsecond => ?_⟩
  obtain ⟨high, hhigh⟩ : ∃ high, program[2 * k]? = some high :=
    ⟨_, List.getElem?_eq_getElem (by omega)⟩
  obtain ⟨low, hlow⟩ : ∃ low, program[2 * k + 1]? = some low :=
    ⟨_, List.getElem?_eq_getElem (by omega)⟩
  have hread : ∀ j b, program[j]? = some b → 0x200 + j ∉ start.written actions →
      m.memory.read (0x200 + j) = b := by
    intro j b hj hkept
    have hlt := (List.getElem?_eq_some_iff.1 hj).1
    rw [Machine.read_run? (by simp only [Memory.size]; omega) hd hrun hkept]
    exact Machine.read_of_load hstart hj
  have hfetch : m.fetch? = some (Word.ofBytes high low) := by
    rw [Machine.fetch?_eq_some_iff]
    refine ⟨by omega, ?_⟩
    rw [Memory.word, hpc, hread _ _ hhigh (hpc ▸ hfirst), Nat.add_assoc,
      hread _ _ hlow (by rw [← Nat.add_assoc, ← hpc]; exact hsecond)]
  have hentry := Listing.getElem?_entries (UInt16.ofNat Machine.start) hhigh hlow
  have haddress : UInt16.ofNat Machine.start + UInt16.ofNat (2 * k) = m.pc := by
    rw [← UInt16.ofNat_add, Machine.start, ← hpc, UInt16.ofNat_toNat]
  rw [haddress] at hentry
  have hinstruction : m.instruction? = some (Instruction.decode (Word.ofBytes high low)) := by
    rw [Machine.instruction?, hfetch, Option.map_some]
  refine ⟨_, _, hentry, by rw [Listing.lines, List.getElem?_map, hentry]; rfl, rfl, hfetch,
    hinstruction, fun interpreter => ⟨Interpreter.word_step hfetch, fun i hi => ?_, ?_⟩⟩
  · have hdecoded := Interpreter.instruction?_of_executed? hi
    rw [hinstruction, Option.some.injEq] at hdecoded
    exact hdecoded.symm
  · rw [Interpreter.traced_step hfetch, List.map_singleton, Log.Record.text_fetched]
    rfl

/-- A program of odd length that writes behind the instruction it goes on with. -/
def selfWriting : List UInt8 := [0xA2, 0x06, 0xF0, 0x33, 0x6A, 0x2B, 0x00]

/-- Two steps of a program, a tick and a key between them. -/
def Action.twoSteps : List Action :=
  [.step (.ofConfig {} 0), .tick, .turnKey (Nibble.ofNat 3) true, .step (.ofConfig {} 0)]

theorem listing_shows_execution_of_selfWriting :
    ∃ start m, (Machine.ofProgram selfWriting).value = .ok start ∧
      start.run? Action.twoSteps = some m ∧ 0x206 ∈ start.written Action.twoSteps ∧
      m.pc = 0x204 ∧
      (((Interpreter.ofConfig {} 0).step m).log.filter fun record => record.level == .trace).map
        Log.Record.text = ["0x204: 6A2B  LD VA, 0x2B"] := by
  obtain ⟨start, hstart, hlisting⟩ := listing_shows_execution selfWriting (by decide)
  have hstarted : start = Machine.powerOn.loaded selfWriting := by
    rw [(Machine.load_eq_ok_iff.1 hstart).2]
    rfl
  subst hstarted
  have hpc : ((Machine.powerOn.loaded selfWriting).run? Action.twoSteps).map (·.pc) =
      some 0x204 := by
    decide +kernel
  have hwritten : (Machine.powerOn.loaded selfWriting).written Action.twoSteps =
      [0x206, 0x207, 0x208] := by
    decide +kernel
  have hline : (Listing.lines selfWriting (UInt16.ofNat Machine.start))[2]? =
      some "204: 6A2B  LD VA, 0x2B" := by
    decide +kernel
  obtain ⟨m, hm, hat⟩ := Option.map_eq_some_iff.1 hpc
  have hdrives : ∀ action ∈ Action.twoSteps, action.Drives := by
    simp [Action.twoSteps, Action.Drives]
  obtain ⟨entry, line, -, hl, -, -, -, hstep⟩ := hlisting Action.twoSteps m 2 hdrives hm
    (by decide) (by rw [hat]; rfl) (by rw [hat, hwritten]; decide)
    (by rw [hat, hwritten]; decide)
  rw [hline, Option.some.injEq] at hl
  subst hl
  exact ⟨_, m, hstart, hm, by rw [hwritten]; decide, hat, (hstep (.ofConfig {} 0)).2.2⟩

end Chip8
