import Chip8.Proofs.Listing

/-!
# Registers saved in memory

Storing the registers up to some nibble and loading them back go over the same addresses, round
the end of memory if need be. These are no more than sixteen, so they are distinct, and a loaded
register is the one that was stored at its place if nothing has been written there in between.
Only instructions that store write to memory, whatever else a run does; an update is such a run
as well (`Pacer.leads_update?`). The other way round, storing registers that were just loaded
changes nothing (`Memory.store_eq_self`).
-/

namespace Chip8

namespace Instruction

variable {m : Machine} {x : Nibble} {k : Nat} {v : UInt8}

theorem getElem?_stored_storeRegisters :
    ((storeRegisters x).stored m)[k]? = some v ↔ ∃ r ≤ x, r.val = k ∧ m.register r = v := by
  simp only [stored, List.getElem?_take, Machine.register, Table.entry, Fin.le_def]
  constructor
  · intro h
    split at h
    · rename_i hk
      obtain ⟨hlt, hv⟩ := List.getElem?_eq_some_iff.1 h
      rw [Vector.length_toList] at hlt
      exact ⟨⟨k, hlt⟩, by simp only; omega, rfl, hv⟩
    · cases h
  · rintro ⟨r, hr, rfl, rfl⟩
    rw [if_pos (by omega)]
    simp

end Instruction

namespace Interpreter

variable {interpreter : Interpreter} {m : Machine} {x k : Nibble}

theorem read_step_storeRegisters (h : interpreter.executed? m = some (.storeRegisters x))
    (hk : k ≤ x) :
    (interpreter.step m).machine.memory.read (m.index.toNat + k.val) = m.register k := by
  have hlength := Instruction.length_stored_le (.storeRegisters x) m
  rw [memory_step h]
  exact Memory.read_store_add _ _ (by omega)
    (Instruction.getElem?_stored_storeRegisters.2 ⟨k, hk, rfl, rfl⟩)

theorem register_step_loadRegisters (h : interpreter.executed? m = some (.loadRegisters x))
    (k : Nibble) :
    (interpreter.step m).machine.register k =
      if k ≤ x then m.memory.read (m.index.toNat + k.val) else m.register k := by
  obtain ⟨effect, he, -, hm, -⟩ := execute_of_executed? h
  cases he
  rw [hm, register_afterStep]
  exact Table.entry_ofFn _ k

/-- Storing what memory holds already changes nothing. -/
theorem memory_step_storeRegisters (h : interpreter.executed? m = some (.storeRegisters x))
    (hheld : ∀ k ≤ x, m.memory.read (m.index.toNat + k.val) = m.register k) :
    (interpreter.step m).machine.memory = m.memory := by
  have hlength := Instruction.length_stored_le (.storeRegisters x) m
  rw [memory_step h]
  refine Memory.store_eq_self (by omega) fun k v hv => ?_
  obtain ⟨r, hr, rfl, rfl⟩ := Instruction.getElem?_stored_storeRegisters.1 hv
  exact hheld r hr

end Interpreter

namespace Machine

variable {m n : Machine} {actions : List Action}

/-- A run that writes nothing leaves memory as it is. -/
theorem memory_run?_of_written_eq_nil (hd : ∀ action ∈ actions, action.Drives)
    (hn : m.run? actions = some n) (h : m.written actions = []) : n.memory = m.memory := by
  apply Memory.ext_read
  intro a
  have hkept : a % Memory.size ∉ m.written actions := by
    rw [h]
    exact List.not_mem_nil
  rw [← Memory.read_mod, ← m.memory.read_mod]
  exact read_run? (Nat.mod_lt _ (by decide)) hd hn hkept

/-- A run leads from the machine `m` to `n`, without a program or a reset. -/
def Leads (m n : Machine) : Prop :=
  ∃ actions, (∀ action ∈ actions, action.Drives) ∧ m.run? actions = some n

theorem Leads.refl (m : Machine) : m.Leads m := ⟨[], List.forall_mem_nil _, rfl⟩

theorem Leads.cons {k : Machine} (action : Action) (ha : action.Drives)
    (hk : m.perform? action = some k) (h : k.Leads n) : m.Leads n := by
  obtain ⟨actions, hd, hn⟩ := h
  refine ⟨action :: actions, fun a hmem => ?_, Option.bind_eq_some_iff.2 ⟨k, hk, hn⟩⟩
  rcases List.mem_cons.1 hmem with rfl | hmem
  · exact ha
  · exact hd a hmem

theorem Leads.of_iterate_tick (k : Nat) (h : (Machine.tick^[k] m).Leads n) : m.Leads n := by
  induction k generalizing m with
  | zero => exact h
  | succ k ih => exact .cons .tick trivial rfl (ih h)

theorem leads_iterate_drive (s : Interpreter × Machine) (count : Nat) :
    s.2.Leads (Interpreter.drive^[count] s).2 := by
  induction count generalizing s with
  | zero => exact .refl s.2
  | succ count ih =>
      rw [Function.iterate_succ_apply]
      exact .cons (.step s.1) trivial rfl (ih (Interpreter.drive s))

end Machine

/-- An update does nothing that ticks and steps do not. -/
theorem Pacer.leads_update? {p : Pacer} {budget : Nat} {dt : Float32} {u : Update}
    (h : p.update? budget dt = some u) : p.machine.Leads u.pacer.machine := by
  obtain ⟨k, n, -, hn⟩ := update?_batch h
  have hsteps := Machine.leads_iterate_drive (p.interpreter, Machine.tick^[k] p.machine) n
  rw [← hn.reached] at hsteps
  exact .of_iterate_tick k hsteps

variable {m n : Machine} {saver loader : Interpreter} {x y : Nibble} {actions : List Action}

/-- Loaded registers are those that were stored, if nothing was written in their places. -/
theorem register_load_of_saved (hsave : saver.executed? m = some (.storeRegisters x))
    (hd : ∀ action ∈ actions, action.Drives)
    (hrun : (saver.step m).machine.run? actions = some n)
    (hload : loader.executed? n = some (.loadRegisters y)) (hyx : y ≤ x)
    (hindex : n.index.toNat % Memory.size = m.index.toNat % Memory.size)
    (hkept : ∀ k ≤ y, (m.index.toNat + k.val) % Memory.size ∉
      (saver.step m).machine.written actions) (k : Nibble) :
    (loader.step n).machine.register k = if k ≤ y then m.register k else n.register k := by
  rw [Interpreter.register_step_loadRegisters hload]
  split
  · rename_i hk
    have hread := Machine.read_run? (Nat.mod_lt _ (by decide)) hd hrun (hkept k hk)
    rw [Memory.read_mod, Memory.read_mod] at hread
    rw [Memory.read_add_congr hindex, hread,
      Interpreter.read_step_storeRegisters hsave (Nat.le_trans hk hyx)]
  · rfl

/-- Registers are saved and restored through memory. Stored registers come back when they, or
fewer of them, are loaded from the same place, after any run that has not written to the places
that are read, and the registers above them stay as they are at that time. The other way round,
storing registers that were loaded from the same place leaves memory as it was, at once or after
a run that has kept these registers and has written nothing. An update is such a run. -/
theorem registers_survive_in_memory :
    (∀ (m n : Machine) (saver loader : Interpreter) (x y : Nibble) (actions : List Action),
      saver.executed? m = some (.storeRegisters x) → (∀ action ∈ actions, action.Drives) →
      (saver.step m).machine.run? actions = some n →
      loader.executed? n = some (.loadRegisters y) → y ≤ x →
      n.index.toNat % Memory.size = m.index.toNat % Memory.size →
      (∀ k ≤ y, (m.index.toNat + k.val) % Memory.size ∉
        (saver.step m).machine.written actions) →
      ∀ k, (loader.step n).machine.register k =
        if k ≤ y then m.register k else n.register k) ∧
    (∀ (m n : Machine) (loader saver : Interpreter) (x : Nibble) (actions : List Action),
      loader.executed? m = some (.loadRegisters x) → (∀ action ∈ actions, action.Drives) →
      (loader.step m).machine.run? actions = some n →
      (loader.step m).machine.written actions = [] →
      (∀ k ≤ x, n.register k = (loader.step m).machine.register k) →
      n.index.toNat % Memory.size = m.index.toNat % Memory.size →
      saver.executed? n = some (.storeRegisters x) →
      (saver.step n).machine.memory = m.memory) ∧
    ∀ (p : Pacer) (budget : Nat) (dt : Float32) (u : Pacer.Update),
      p.update? budget dt = some u → p.machine.Leads u.pacer.machine := by
  refine ⟨fun m n saver loader x y actions hsave hd hrun hload hyx hindex hkept k =>
    register_load_of_saved hsave hd hrun hload hyx hindex hkept k, ?_,
    fun p budget dt u h => Pacer.leads_update? h⟩
  intro m n loader saver x actions hload hd hrun hwritten hregisters hindex hsave
  have hmemory : n.memory = m.memory :=
    (Machine.memory_run?_of_written_eq_nil hd hrun hwritten).trans
      (Interpreter.memory_step hload)
  refine (Interpreter.memory_step_storeRegisters hsave fun k hk => ?_).trans hmemory
  rw [hmemory, hregisters k hk, Interpreter.register_step_loadRegisters hload, if_pos hk,
    Memory.read_add_congr hindex]

/-- Three registers are about to be stored round the end of memory. What follows clears two of
them, stores something else elsewhere, loads the two and stores them again. -/
def savingMachine : Machine :=
  { Machine.powerOn.loaded [0xF2, 0x55, 0x60, 0x00, 0x61, 0x00, 0xA3, 0x00, 0xF2, 0x33, 0xAF, 0xFF,
      0xF1, 0x65, 0xF1, 0x55] with
    index := 0xFFF
    registers := .ofFn fun k => 0x11 * k.toByte }

def Action.clobbering : List Action :=
  [.step (.ofConfig {} 0), .step (.ofConfig {} 0), .turnKey (Nibble.ofNat 3) true,
    .step (.ofConfig {} 0), .step (.ofConfig {} 0), .tick, .step (.ofConfig {} 0)]

theorem registers_survive_in_memory_of_clobbering :
    ∃ n, ((Interpreter.ofConfig {} 0).step savingMachine).machine.run? Action.clobbering = some n ∧
      n.register (Nibble.ofNat 1) = 0 ∧
      ((Interpreter.ofConfig {} 0).step n).machine.register (Nibble.ofNat 1) = 0x11 ∧
      ((Interpreter.ofConfig {} 0).step ((Interpreter.ofConfig {} 0).step n).machine).machine.memory
        = n.memory := by
  have hdrives : ∀ action ∈ Action.clobbering, action.Drives := by
    simp [Action.clobbering, Action.Drives]
  have hrun : (((Interpreter.ofConfig {} 0).step savingMachine).machine.run?
      Action.clobbering).map (fun n => (n.index, n.register (Nibble.ofNat 1),
        (Interpreter.ofConfig {} 0).executed? n,
        (Interpreter.ofConfig {} 0).executed? ((Interpreter.ofConfig {} 0).step n).machine)) =
      some (0xFFF, 0, some (.loadRegisters (Nibble.ofNat 1)),
        some (.storeRegisters (Nibble.ofNat 1))) := by
    decide +kernel
  have hsave : (Interpreter.ofConfig {} 0).executed? savingMachine =
      some (.storeRegisters (Nibble.ofNat 2)) := by
    decide +kernel
  have hkept : ∀ k ≤ Nibble.ofNat 1, (savingMachine.index.toNat + k.val) % Memory.size ∉
      ((Interpreter.ofConfig {} 0).step savingMachine).machine.written Action.clobbering := by
    decide +kernel
  obtain ⟨n, hn, hat⟩ := Option.map_eq_some_iff.1 hrun
  simp only [Prod.mk.injEq] at hat
  obtain ⟨hindex, hcleared, hload, hagain⟩ := hat
  have hrestored := registers_survive_in_memory.1 savingMachine n _ _ _ _ _ hsave hdrives hn hload
    (by decide) (by rw [hindex]; rfl) hkept (Nibble.ofNat 1)
  have hunmoved := congrArg (· % Memory.size) (Interpreter.toNat_index_step hload)
  have hmemory := registers_survive_in_memory.2.1 n _ _ _ _ [] hload (List.forall_mem_nil _) rfl rfl
    (fun _ _ => rfl) hunmoved hagain
  rw [if_pos (by decide)] at hrestored
  exact ⟨n, hn, hcleared, hrestored.trans (by decide +kernel), hmemory⟩

end Chip8
