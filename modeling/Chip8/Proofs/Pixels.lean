import Chip8.Proofs.Drawing
import Chip8.Proofs.Saving

/-!
# A drawing, pixel by pixel

`Machine.covers` says of a pixel whether a drawing instruction turns it over, from the registers,
the index and the bytes in memory alone: some row of the sprite lies at its height, round the
bottom of the screen if need be, and shows a bit in its column. There is no such row for the
columns left of the first one, so what would stand right of the screen is nowhere.
`Machine.DrawnOver` is all that is to be said of the machine after the instruction. It speaks of
the registers as they were before, so it holds as well if the flag register is read. The loops that
turn over one pixel after the other (`Guarded.draw?`) lead to such a machine from every index.
-/

namespace Chip8

theorem getMsbD_eq_true_iff {b : UInt8} {column : Nat} :
    b.toBitVec.getMsbD column = true ↔ column < 8 ∧ b.toNat.testBit (7 - column) = true := by
  simp [BitVec.getMsbD, BitVec.getLsbD]

theorem flagByte_eq_zero_iff {b : Bool} : flagByte b = 0 ↔ b = false := by
  cases b <;> decide

namespace Machine

/-- The column in which a sprite begins. -/
def firstColumn (m : Machine) (x : Nibble) : Nat := (m.register x).toNat % 64

/-- The row in which a sprite begins. -/
def firstRow (m : Machine) (y : Nibble) : Nat := (m.register y).toNat % 32

/-- Whether a drawing instruction turns the pixel in column `c` of row `r` over. -/
def covers (m : Machine) (x y rows : Nibble) (c : Fin 64) (r : Fin 32) : Bool :=
  (List.range rows.val).any fun k =>
    r.val == (m.firstRow y + k) % 32 &&
      decide (m.firstColumn x ≤ c.val ∧ c.val < m.firstColumn x + 8) &&
      (m.memory.read ((m.index.toNat + k) % Memory.size)).toNat.testBit
        (7 - (c.val - m.firstColumn x))

variable {m n : Machine} {x y rows : Nibble} {c : Fin 64} {r : Fin 32}

theorem lit_sprite (m : Machine) (x y rows : Nibble) (c : Fin 64) (r : Fin 32) :
    (m.sprite x y rows).lit c r = m.covers x y rows c r := by
  have hlength : (m.memory.slice m.index.toNat rows.val).length ≤ 32 := by
    rw [Memory.length_slice]
    omega
  rw [Bool.eq_iff_iff, sprite, Picture.lit_sprite_eq_true_iff hlength]
  simp only [covers, List.any_eq_true, List.mem_range, Bool.and_eq_true, beq_iff_eq,
    decide_eq_true_eq, Memory.read_mod]
  constructor
  · rintro ⟨k, column, b, hb, hbit, hc, hr⟩
    obtain ⟨hk, rfl⟩ := List.getElem?_eq_some_iff.1 hb
    rw [getMsbD_eq_true_iff, Memory.getElem_slice] at hbit
    rw [Memory.length_slice] at hk
    have hcolumn : c.val - m.firstColumn x = column := by
      rw [hc, firstColumn]
      omega
    refine ⟨k, hk, ⟨hr, ?_, ?_⟩, ?_⟩
    · rw [hc, firstColumn]
      omega
    · rw [hc, firstColumn]
      omega
    · rw [hcolumn]
      exact hbit.2
  · rintro ⟨k, hk, ⟨hr, hfirst, hlast⟩, hbit⟩
    rw [← Memory.length_slice m.memory m.index.toNat rows.val] at hk
    refine ⟨k, c.val - m.firstColumn x, _, List.getElem?_eq_getElem hk, ?_, ?_, hr⟩
    · rw [getMsbD_eq_true_iff, Memory.getElem_slice]
      exact ⟨by omega, hbit⟩
    · rw [firstColumn] at hfirst ⊢
      omega

/-- Columns left of the first one are not touched, whatever the sprite is. -/
theorem covers_eq_false (h : c.val < m.firstColumn x) : m.covers x y rows c r = false := by
  simp [covers, Nat.not_le.2 h]

/-- The machine `n` is what a drawing instruction makes of the machine `m`, but for the program
counter, the word fetched last and the timers. -/
structure DrawnOver (m : Machine) (x y rows : Nibble) (n : Machine) : Prop where
  lit : ∀ c r, n.picture.lit c r = (m.picture.lit c r ^^ m.covers x y rows c r)
  lit_left : ∀ c r, c.val < m.firstColumn x → n.picture.lit c r = m.picture.lit c r
  flag_eq_one : (∃ c r, m.picture.lit c r = true ∧ n.picture.lit c r = false) →
    n.register flagRegister = 1
  flag_eq_zero : (¬∃ c r, m.picture.lit c r = true ∧ n.picture.lit c r = false) →
    n.register flagRegister = 0
  repainted : n.repainted = true
  register : ∀ z, z ≠ flagRegister → n.register z = m.register z
  memory : n.memory = m.memory
  index : n.index = m.index
  stack : n.stack = m.stack
  keypad : n.keypad = m.keypad

/-- The flag that is collected while drawing compares the pictures before and after. -/
theorem overlaps_sprite_iff :
    m.picture.overlaps (m.sprite x y rows) = true ↔
      ∃ c r, m.picture.lit c r = true ∧
        (m.picture.xor (m.sprite x y rows)).lit c r = false := by
  rw [Picture.overlaps_eq_true_iff]
  refine exists_congr fun c => exists_congr fun r => and_congr_right fun hlit => ?_
  rw [Picture.lit_xor, hlit]
  simp

/-- The program counter, the word and the timers may be anything. -/
theorem drawnOver_draw (m : Machine) (x y rows : Nibble) (pc : UInt16) (word : Word)
    (repainted : Bool) (timers : Timers) :
    m.DrawnOver x y rows
      { { m with pc, word, repainted }.draw (m.sprite x y rows) with timers } where
  lit c r := by rw [draw, Picture.lit_xor, lit_sprite]
  lit_left c r h := by
    rw [draw, Picture.lit_xor, lit_sprite, covers_eq_false h, Bool.xor_false]
  flag_eq_one h := by
    refine (register_setRegister_self m flagRegister _).trans (flagByte_eq_one_iff.2 ?_)
    exact overlaps_sprite_iff.2 h
  flag_eq_zero h := by
    refine (register_setRegister_self m flagRegister _).trans (flagByte_eq_zero_iff.2 ?_)
    exact Bool.eq_false_iff.2 fun hoverlaps => h (overlaps_sprite_iff.1 hoverlaps)
  repainted := rfl
  register z hz := (register_setRegister m flagRegister z _).trans (if_neg hz.symm)
  memory := rfl
  index := rfl
  stack := rfl
  keypad := rfl

end Machine

/-- A drawing instruction is exact. On every machine, whatever its index is, going over the rows
and columns in place turns over just the pixels that the sprite covers: rows go on at the top,
columns right of the screen are dropped and come up nowhere else, and the bytes are read round the
end of memory. The flag register says whether a pixel was turned off, and all else stays as it was.
Where it is met the instruction is carried out, and the timers go on as in every step. -/
theorem drawing_is_exact (m : Machine) (x y rows : Nibble) :
    (∀ (config : Config) (random : Random.Source), ∃ effect,
      (Instruction.draw x y rows).execute config random m = .ok effect ∧
        Guarded.draw? (Guarded.byteAround? m.advance) m.advance x y rows =
          some effect.machine ∧
        effect.signal = .awaitFrame ∧ m.DrawnOver x y rows effect.machine ∧
        effect.machine.timers = m.timers) ∧
    ∀ interpreter : Interpreter, m.fetch? = some (Word.ofRegisters 0xD x y rows) →
      (interpreter.step m).result = .ok .awaitFrame ∧
        m.DrawnOver x y rows (interpreter.step m).machine ∧
        (interpreter.step m).machine.timers =
          m.timers.ticks interpreter.config.ticksPerStep := by
  constructor
  · intro config random
    exact ⟨_, Instruction.execute_draw config random m x y rows,
      Guarded.draw?_around m.advance x y rows, rfl,
      Machine.drawnOver_draw m x y rows (m.pc + 2) m.word m.repainted m.timers, rfl⟩
  · intro interpreter hw
    have hi : m.instruction? = some (.draw x y rows) :=
      (Machine.instruction?_eq_some_iff (by simp)).2 hw
    obtain ⟨hresult, timers, hmachine⟩ := Interpreter.step_of_draw interpreter hi
    refine ⟨hresult, ?_, ?_⟩
    · rw [hmachine]
      exact Machine.drawnOver_draw m x y rows _ _ _ _
    · exact Interpreter.timers_step (Interpreter.executed?_of_instruction? hi rfl)

/-- A machine that draws over the corner of the screen, from the end of memory on, in the column
that the flag register names. -/
def edgeMachine : Machine :=
  { Machine.powerOn with
    memory := (Memory.zero.store Machine.start [0xDF, 0x03]).store 0xFFE [0xFF, 0x81, 0x40]
    picture := .sprite 61 0 [0x80]
    registers := (Machine.powerOn.registers.put Machine.flagRegister 124).put (Nibble.ofNat 0) 94
    index := 0xFFE }

theorem drawing_is_exact_at_the_edge :
    ((Interpreter.ofConfig {} 0).step edgeMachine).result = .ok .awaitFrame ∧
      ((Interpreter.ofConfig {} 0).step edgeMachine).machine.picture.lit 63 30 = true ∧
      ((Interpreter.ofConfig {} 0).step edgeMachine).machine.picture.lit 0 30 = false ∧
      ((Interpreter.ofConfig {} 0).step edgeMachine).machine.picture.lit 61 0 = false ∧
      ((Interpreter.ofConfig {} 0).step edgeMachine).machine.register Machine.flagRegister = 1 := by
  obtain ⟨hresult, hdrawn, -⟩ := (drawing_is_exact edgeMachine Machine.flagRegister
    (Nibble.ofNat 0) (Nibble.ofNat 3)).2 (.ofConfig {} 0) (by decide +kernel)
  have hoff : ((Interpreter.ofConfig {} 0).step edgeMachine).machine.picture.lit 61 0 = false :=
    (hdrawn.lit 61 0).trans (by decide +kernel)
  exact ⟨hresult, (hdrawn.lit 63 30).trans (by decide +kernel),
    (hdrawn.lit_left 0 30 (by decide +kernel)).trans (by decide +kernel), hoff,
    hdrawn.flag_eq_one ⟨61, 0, by decide +kernel, hoff⟩⟩

end Chip8
