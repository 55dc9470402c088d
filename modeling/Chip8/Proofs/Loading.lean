import Chip8.Proofs.Guarded.Agreement
import Chip8.Proofs.Saving

/-!
# Resets and programs put into memory

A reset goes over a machine in place, memory byte by byte and then one field after the other, and
whatever the machine was it ends as one that has just been switched on. Putting a program into
memory is determined by what it leaves behind (`Machine.load_eq_ok_iff_loads`): the bytes of the
program from the start on, every other byte and every other field as before. From this follow how
a machine looks that was reset and loaded, and that a program put over another one keeps what the
earlier one has beyond its end.
-/

namespace Chip8

namespace Machine

variable {m n k : Machine} {program earlier : List UInt8}

/-- The machine `n` is `m` with a program put into its memory. -/
structure Loads (m : Machine) (program : List UInt8) (n : Machine) : Prop where
  inside : ∀ j b, program[j]? = some b → n.memory.read (0x200 + j) = b
  outside : ∀ a < 4096, a < 0x200 ∨ 0x200 + program.length ≤ a →
    n.memory.read a = m.memory.read a
  others : n = { m with memory := n.memory }

theorem Loads.store (m : Machine) (h : program.length ≤ 3584) :
    m.Loads program { m with memory := m.memory.store start program } where
  inside _ _ hb := Memory.read_store_add _ _ (by omega) hb
  outside a ha houtside := by
    refine Memory.read_store_of_forall_ne (by omega) ha fun j hj => ?_
    rw [start, Memory.size]
    omega
  others := rfl

/-- What a program leaves behind is determined. -/
theorem Loads.unique (hn : m.Loads program n) (hk : m.Loads program k) : n = k := by
  have hmemory : n.memory = k.memory := by
    apply Memory.ext_read
    intro a
    rw [← Memory.read_mod, ← k.memory.read_mod]
    obtain ⟨b, hb⟩ : ∃ b, b = a % Memory.size := ⟨_, rfl⟩
    have hlt : b < 4096 := hb ▸ Nat.mod_lt a (by decide : 0 < Memory.size)
    rw [← hb]
    by_cases hinside : 0x200 ≤ b ∧ b - 0x200 < program.length
    · have hplace : 0x200 + (b - 0x200) = b := by omega
      have hbyte := List.getElem?_eq_getElem hinside.2
      rw [← hplace, hn.inside _ _ hbyte, hk.inside _ _ hbyte]
    · have houtside : b < 0x200 ∨ 0x200 + program.length ≤ b := by omega
      rw [hn.outside b hlt houtside, hk.outside b hlt houtside]
  rw [hn.others, hk.others, hmemory]

theorem load_eq_ok_iff_loads :
    (m.load program).value = .ok n ↔ program.length ≤ 3584 ∧ m.Loads program n := by
  rw [load_eq_ok_iff]
  constructor
  · rintro ⟨h, rfl⟩
    exact ⟨h, .store m h⟩
  · rintro ⟨h, hn⟩
    exact ⟨h, hn.unique (.store m h)⟩

theorem load_of_too_large (h : 3584 < program.length) :
    (m.load program).value = .error (.programTooLarge program.length 3584) ∧
      m.loaded program = m := by
  have hlarge : ¬ program.length ≤ capacity := Nat.not_le.2 h
  constructor
  · rw [load, if_neg hlarge]
    rfl
  · rw [loaded_eq, if_neg hlarge]

/-- A program put over an earlier one keeps what that has beyond its end. -/
theorem Loads.over (hearlier : earlier.length ≤ 3584) (hn : m.Loads earlier n)
    (hk : n.Loads program k) : m.Loads (program ++ earlier.drop program.length) k where
  inside j b hb := by
    rw [List.getElem?_append] at hb
    split at hb
    · exact hk.inside j b hb
    · rename_i hj
      have hplace : program.length + (j - program.length) = j := by omega
      rw [List.getElem?_drop, hplace] at hb
      obtain ⟨hlt, -⟩ := List.getElem?_eq_some_iff.1 hb
      rw [hk.outside _ (by omega) (by omega), hn.inside j b hb]
  outside a ha houtside := by
    rw [List.length_append, List.length_drop] at houtside
    rw [hk.outside a ha (by omega), hn.outside a ha (by omega)]
  others := by
    rw [hk.others, hn.others]

/-- The machine has just been switched on and a program was put into its memory. -/
structure Pristine (program : List UInt8) (n : Machine) : Prop where
  font : ∀ j b, Font.bytes[j]? = some b → n.memory.read (0x50 + j) = b
  loaded : ∀ j b, program[j]? = some b → n.memory.read (0x200 + j) = b
  elsewhere : ∀ a < 4096, a < 0x50 ∨ 0xA0 ≤ a → a < 0x200 ∨ 0x200 + program.length ≤ a →
    n.memory.read a = 0
  picture : ∀ x y, n.picture.lit x y = false
  pc : n.pc = 0x200
  index : n.index = 0
  registers : ∀ x, n.register x = 0
  stack : n.stack = ⟨.replicate 16 0, 0⟩
  timers : n.timers = ⟨0, 0⟩
  keypad : ∀ x, n.keypad.entry x = false
  word : n.word = 0
  repainted : n.repainted = false

theorem read_powerOn_font {j : Nat} {b : UInt8} (hb : Font.bytes[j]? = some b) :
    powerOn.memory.read (0x50 + j) = b :=
  Memory.read_store_add _ _ (by decide) hb

theorem read_powerOn_of_outside {a : Nat} (ha : a < 4096) (h : a < 0x50 ∨ 0xA0 ≤ a) :
    powerOn.memory.read a = 0 := by
  have hzero : powerOn.memory.read a = Memory.zero.read a := by
    refine Memory.read_store_of_forall_ne (by decide) ha fun j hj => ?_
    rw [Font.length_bytes] at hj
    rw [Font.base, Memory.size]
    omega
  rw [hzero, Memory.read_zero]

theorem Loads.pristine (h : powerOn.Loads program n) : n.Pristine program := by
  obtain ⟨memory, rfl⟩ : ∃ memory, n = { powerOn with memory } := ⟨n.memory, h.others⟩
  have hfont : ∀ j b, Font.bytes[j]? = some b → memory.read (0x50 + j) = b := by
    intro j b hb
    have hj : j < 80 := (List.getElem?_eq_some_iff.1 hb).1
    rw [← read_powerOn_font hb]
    exact h.outside _ (by omega) (by omega)
  have helsewhere : ∀ a < 4096, a < 0x50 ∨ 0xA0 ≤ a →
      a < 0x200 ∨ 0x200 + program.length ≤ a → memory.read a = 0 := by
    intro a ha hplace houtside
    rw [← read_powerOn_of_outside ha hplace]
    exact h.outside a ha houtside
  exact ⟨hfont, h.inside, helsewhere, Picture.lit_blank, rfl, rfl, Table.entry_ofFn _, rfl, rfl,
    Table.entry_ofFn _, rfl, rfl⟩

end Machine

/-- A reset leaves nothing of what a machine was, however it came about, and a machine that is
loaded then is one that was switched on with the program. A program that fits is put into memory
from the start on and changes nothing else, one that does not fit changes nothing at all. After a
reset there is nothing in memory but the font and the program, and after an earlier program there
is what that has beyond the end of the later one. -/
theorem reset_and_load_are_exact (m : Machine) (program : List UInt8) :
    (Guarded.reset? m = some .powerOn ∧ m.reset = .powerOn ∧
      (∀ interpreter : Interpreter, (interpreter.reset m).value = .powerOn) ∧
      m.reset.load program = Machine.ofProgram program) ∧
    (∀ (first : Machine) (actions : List Action), first.run? actions = some m →
      first.run? (actions ++ [.reset, .load program]) = some (Machine.powerOn.loaded program)) ∧
    Guarded.load? m program = some (m.load program).value ∧
    (program.length ≤ 3584 →
      (∃ n, (m.load program).value = .ok n ∧ m.Loads program n) ∧
      (∃ n, (m.reset.load program).value = .ok n ∧ n.Pristine program) ∧
      ∀ later : List UInt8, later.length ≤ 3584 →
        ∃ n k, (m.load program).value = .ok n ∧ (n.load later).value = .ok k ∧
          m.Loads (later ++ program.drop later.length) k) ∧
    (3584 < program.length →
      (m.load program).value = .error (.programTooLarge program.length 3584) ∧
        m.loaded program = m) := by
  refine ⟨⟨Guarded.reset?_eq m, rfl, fun _ => rfl, rfl⟩, fun first actions hm => ?_,
    Guarded.load?_eq m program, fun hfits => ⟨?_, ?_, fun later hlater => ?_⟩,
    Machine.load_of_too_large⟩
  · rw [Machine.run?_append, hm]
    rfl
  · exact ⟨_, Machine.load_eq_ok_iff_loads.2 ⟨hfits, .store m hfits⟩, .store m hfits⟩
  · have hloads := Machine.Loads.store .powerOn hfits
    exact ⟨_, Machine.load_eq_ok_iff_loads.2 ⟨hfits, hloads⟩, hloads.pristine⟩
  · have hfirst := Machine.Loads.store m hfits
    have hlast := Machine.Loads.store
      { m with memory := m.memory.store Machine.start program } hlater
    exact ⟨_, _, Machine.load_eq_ok_iff_loads.2 ⟨hfits, hfirst⟩,
      Machine.load_eq_ok_iff_loads.2 ⟨hlater, hlast⟩, hfirst.over hfits hlast⟩

/-- A machine in the middle of a program. -/
def usedMachine : Machine :=
  { Machine.powerOn.loaded [0x22, 0x04, 0x12, 0x00] with
    picture := .replicate 32 1
    pc := 0x204
    registers := .ofFn Nibble.toByte
    stack := ⟨Vector.replicate 16 0x202, 1⟩
    keypad := .ofFn fun _ => true }

/-- A program of three bytes, and then one byte over it. One byte too many is refused. -/
theorem reset_and_load_are_exact_of_used :
    Guarded.reset? usedMachine = some .powerOn ∧
      (∃ n k, (usedMachine.load [1, 2, 3]).value = .ok n ∧ (n.load [9]).value = .ok k ∧
        k.memory.read 0x200 = 9 ∧ k.memory.read 0x202 = 3 ∧ k.memory.read 0x203 = 0 ∧
        k.stack = usedMachine.stack) ∧
      (usedMachine.load (List.replicate 3585 0)).value = .error (.programTooLarge 3585 3584) := by
  obtain ⟨⟨hreset, -⟩, -, -, hfits, -⟩ := reset_and_load_are_exact usedMachine [1, 2, 3]
  obtain ⟨-, -, hover⟩ := hfits (by decide)
  obtain ⟨n, k, hn, hk, hloads⟩ := hover [9] (by decide)
  obtain ⟨-, -, -, -, hlarge⟩ := reset_and_load_are_exact usedMachine (List.replicate 3585 0)
  have hlength : (List.replicate 3585 (0 : UInt8)).length = 3585 := List.length_replicate
  obtain ⟨hrefused, -⟩ := hlarge (by rw [hlength]; decide)
  rw [hlength] at hrefused
  refine ⟨hreset, ⟨n, k, hn, hk, hloads.inside 0 9 rfl, hloads.inside 2 3 rfl, ?_, ?_⟩, hrefused⟩
  · exact (hloads.outside 0x203 (by decide) (.inr (by decide))).trans (by decide +kernel)
  · rw [hloads.others]

end Chip8
