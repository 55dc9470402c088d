import Chip8.Proofs.Calls
import Chip8.Proofs.Drawing
import Chip8.Proofs.Saving
import Chip8.Proofs.TimerLaw

/-!
# Glyphs

The font stands in memory below every program, so that nothing but a storing instruction can
overwrite it (`Machine.read_run?_below_start`). As long as none does, pointing the index at a
digit and drawing five rows turns over the pixels of its glyph. Ticks, keys and programs may
come between the two steps: they move neither the registers nor the index nor the picture.
-/

namespace Chip8

/-- The actions that may be performed between two steps. -/
def Action.IsQuiet : Action → Prop
  | tick => True
  | turnKey _ _ => True
  | load _ => True
  | step _ => False
  | reset => False
  | update _ _ _ => False

namespace Machine

variable {m n : Machine} {action : Action} {actions : List Action} {a : Nat}

/-- Below the start of programs a plain action changes no byte that it does not write to. -/
theorem read_perform?_below_start (ha : a < start) (hplain : action.IsPlain)
    (hn : m.perform? action = some n) (h : a ∉ action.written m) :
    n.memory.read a = m.memory.read a := by
  rw [start] at ha
  cases action with
  | load program =>
      cases hn
      rw [loaded_eq]
      split
      · rename_i hlength
        rw [capacity, start, Memory.size] at hlength
        rw [Memory.read_store _ _ _ (by omega), start,
          List.getElem?_eq_none (by omega), Option.getD_none]
      · rfl
  | step | tick | turnKey =>
      refine read_perform? (by rw [Memory.size]; omega) ?_ hn h
      trivial
  | reset | update => exact hplain.elim

theorem read_run?_below_start (ha : a < start) (hplain : ∀ action ∈ actions, action.IsPlain)
    (hn : m.run? actions = some n) (h : a ∉ m.written actions) :
    n.memory.read a = m.memory.read a :=
  read_run?_of_perform? (fun action hmem _ _ => read_perform?_below_start ha (hplain action hmem))
    hn h

theorem slice_font_powerOn :
    powerOn.memory.slice Font.base Font.bytes.length = Font.bytes :=
  Memory.slice_store _ _ (by decide)

/-- A run that spares the font leaves it where it was. -/
theorem slice_font_run? (hplain : ∀ action ∈ actions, action.IsPlain)
    (hwritten : ∀ a ∈ m.written actions, a < 0x50 ∨ 0xA0 ≤ a) (hn : m.run? actions = some n) :
    n.memory.slice Font.base Font.bytes.length = m.memory.slice Font.base Font.bytes.length := by
  apply Memory.slice_congr
  intro k hk
  rw [Font.length_bytes] at hk
  rw [Font.base]
  refine read_run?_below_start (by rw [start]; omega) hplain hn fun hmem => ?_
  have := hwritten _ hmem
  omega

theorem run?_of_isQuiet (hquiet : ∀ action ∈ actions, action.IsQuiet)
    (hn : m.run? actions = some n) :
    ∃ memory timers keypad, n = { m with memory, timers, keypad } := by
  refine run?_induction
    (P := fun k => ∃ memory timers keypad, k = { m with memory, timers, keypad })
    hn ⟨_, _, _, rfl⟩ ?_
  rintro action hmem _ l ⟨memory, timers, keypad, rfl⟩ hl
  cases action with
  | tick | turnKey =>
      cases hl
      exact ⟨_, _, _, rfl⟩
  | load program =>
      cases hl
      rw [loaded_eq]
      exact ⟨_, _, _, rfl⟩
  | step | reset | update => exact (hquiet _ hmem).elim

/-- The pixels that a glyph turns over: five rows of the font, the top row first. -/
theorem lit_sprite_glyph {x y rows : Nibble} {d : Nat} (hd : d < 16)
    (hfont : m.memory.slice Font.base Font.bytes.length = Font.bytes)
    (hindex : m.index.toNat = 0x50 + 5 * d) (hrows : rows.val = 5) {c : Fin 64} {r : Fin 32} :
    (m.sprite x y rows).lit c r = true ↔
      ∃ row column b, row < 5 ∧ column < 8 ∧ Font.bytes[5 * d + row]? = some b ∧
        b.toBitVec.getMsbD column = true ∧ c.val = (m.register x).toNat % 64 + column ∧
        r.val = ((m.register y).toNat % 32 + row) % 32 := by
  have hbytes : m.memory.slice m.index.toNat rows.val = (Font.bytes.drop (5 * d)).take 5 := by
    rw [hindex, hrows, ← hfont]
    exact Memory.slice_add _ _ (by rw [Font.length_bytes]; omega)
  rw [sprite, hbytes, Picture.lit_sprite_eq_true_iff (by rw [List.length_take]; omega)]
  refine exists_congr fun row => exists_congr fun column => exists_congr fun b => ?_
  rw [List.getElem?_take, List.getElem?_drop]
  constructor
  · rintro ⟨hb, hbit, hplace⟩
    split at hb
    · rename_i hrow
      exact ⟨hrow, BitVec.lt_of_getMsbD hbit, hb, hbit, hplace⟩
    · cases hb
  · rintro ⟨hrow, -, hb, hbit, hplace⟩
    rw [if_pos hrow]
    exact ⟨hb, hbit, hplace⟩

end Machine

namespace Interpreter

variable {interpreter : Interpreter} {m : Machine} {x : Nibble}

theorem register_step_setGlyph (h : interpreter.executed? m = some (.setGlyph x)) (k : Nibble) :
    (interpreter.step m).machine.register k = m.register k := by
  obtain ⟨effect, he, -, hm, -⟩ := execute_of_executed? h
  cases he
  rw [hm, register_afterStep]
  rfl

end Interpreter

/-- From a machine that was switched on, whatever steps, ticks, keys and programs follow, fitting
ones or not: while no storing instruction writes to it, the font stays in memory. And where a
step points the index at the digit in a register and the next step draws five rows, the pixels
that differ afterwards are those of the glyph of that digit: its rows run round the bottom of
the screen, its columns end at the right, and the leftmost column is the top bit. -/
theorem font_survives_and_glyphs_are_drawn {actions : List Action}
    (hplain : ∀ action ∈ actions, action.IsPlain)
    (hwritten : ∀ a ∈ Machine.powerOn.written actions, a < 0x50 ∨ 0xA0 ≤ a) :
    (∀ before after, actions = before ++ after →
      ∃ m, Machine.powerOn.run? before = some m ∧ m.memory.slice 0x50 80 = Font.bytes) ∧
      ∀ (before between after : List Action) (first second : Interpreter) (m n : Machine)
        (x a b : Nibble),
        actions = before ++ .step first :: (between ++ .step second :: after) →
        (∀ action ∈ between, action.IsQuiet) →
        Machine.powerOn.run? before = some m → (first.step m).machine.run? between = some n →
        first.executed? m = some (.setGlyph x) →
        second.executed? n = some (.draw a b (Nibble.ofNat 5)) →
        ∀ (c : Fin 64) (r : Fin 32),
          (second.step n).machine.picture.lit c r ≠ m.picture.lit c r ↔
            ∃ row column byte, row < 5 ∧ column < 8 ∧
              Font.bytes[5 * ((m.register x).toNat % 16) + row]? = some byte ∧
              byte.toBitVec.getMsbD column = true ∧
              c.val = (m.register a).toNat % 64 + column ∧
              r.val = ((m.register b).toNat % 32 + row) % 32 := by
  have hfont : ∀ before after m, actions = before ++ after →
      Machine.powerOn.run? before = some m →
      m.memory.slice Font.base Font.bytes.length = Font.bytes := by
    rintro before after m rfl hm
    rw [Machine.slice_font_run? (fun b hb => hplain b (List.mem_append_left _ hb)) ?_ hm,
      Machine.slice_font_powerOn]
    intro b hb
    refine hwritten b ?_
    rw [Machine.written, Machine.trace_append]
    exact List.mem_append_left _ hb
  constructor
  · intro before after hactions
    obtain ⟨m, hm⟩ := Machine.exists_run?_of_isPlain (m := .powerOn) fun b hb =>
      hplain b (hactions ▸ List.mem_append_left _ hb)
    exact ⟨m, hm, hfont before after m hactions hm⟩
  · intro before between after first second m n x a b hactions hquiet hm hn hfirst hsecond c r
    -- The machine that draws is one of the run, so it holds the font.
    have hrun : Machine.powerOn.run? (before ++ .step first :: between) = some n := by
      rw [Machine.run?_append, hm]
      exact hn
    have hheld := hfont (before ++ .step first :: between) (.step second :: after) n
      (by rw [hactions, List.append_assoc, List.cons_append]) hrun
    obtain ⟨memory, timers, keypad, hquieted⟩ := Machine.run?_of_isQuiet hquiet hn
    have hpicture : n.picture = m.picture := by
      rw [hquieted]
      exact Interpreter.picture_step hfirst rfl
    have hregister : ∀ k, n.register k = m.register k := by
      intro k
      rw [hquieted]
      exact Interpreter.register_step_setGlyph hfirst k
    have hindex : n.index.toNat = 0x50 + 5 * ((m.register x).toNat % 16) := by
      rw [hquieted]
      exact Interpreter.toNat_index_step hfirst
    have hdrawn := Machine.lit_sprite_glyph (x := a) (y := b) (c := c) (r := r)
      (Nat.mod_lt _ (by decide)) hheld hindex (Nibble.val_ofNat 5)
    rw [hregister, hregister] at hdrawn
    rw [Interpreter.picture_step_of_draw (Interpreter.instruction?_of_executed? hsecond),
      Picture.lit_xor, hpicture, ← hdrawn]
    cases m.picture.lit c r <;> simp

/-- A program that is one byte too long. -/
def oversizedProgram : List UInt8 := List.replicate 3585 0

/-- A program is loaded that writes the digits of a number below the font, and another one is
refused. -/
def Action.beforeGlyph : List Action :=
  [.load [0x60, 0x1A, 0xF0, 0x33, 0xF0, 0x29, 0xD1, 0x25], .step (.ofConfig {} 0),
    .load oversizedProgram, .step (.ofConfig {} 0)]

/-- The glyph of the digit ten is drawn in the corner of the screen, a tick and a shorter program
in between. -/
theorem font_survives_and_glyphs_are_drawn_of_ten :
    ∃ m n, Machine.powerOn.run? Action.beforeGlyph = some m ∧
      m.memory.slice 0x50 80 = Font.bytes ∧
      ((Interpreter.ofConfig {} 0).step m).machine.run? [.tick, .load [0x12]] = some n ∧
      ((Interpreter.ofConfig {} 0).step n).machine.picture.lit 3 1 ≠ m.picture.lit 3 1 := by
  obtain ⟨actions, hactions⟩ : ∃ actions, actions = Action.beforeGlyph ++
      .step (.ofConfig {} 0) :: ([.tick, .load [0x12]] ++ .step (.ofConfig {} 0) :: []) := ⟨_, rfl⟩
  have hplain : ∀ action ∈ actions, action.IsPlain := by
    rw [hactions]
    simp [Action.beforeGlyph, Action.IsPlain]
  have hwritten : Machine.powerOn.written actions = [0, 1, 2] := by
    rw [hactions]
    decide +kernel
  have hrun : ((Machine.powerOn.run? Action.beforeGlyph).bind fun m =>
      (((Interpreter.ofConfig {} 0).step m).machine.run? [.tick, .load [0x12]]).map fun n =>
        ((Interpreter.ofConfig {} 0).executed? m, (Interpreter.ofConfig {} 0).executed? n,
          m.register (Nibble.ofNat 0), m.register (Nibble.ofNat 1), m.register (Nibble.ofNat 2))) =
      some (some (.setGlyph (Nibble.ofNat 0)),
        some (.draw (Nibble.ofNat 1) (Nibble.ofNat 2) (Nibble.ofNat 5)), 0x1A, 0, 0) := by
    decide +kernel
  obtain ⟨m, hm, hrest⟩ := Option.bind_eq_some_iff.1 hrun
  obtain ⟨n, hn, hseen⟩ := Option.map_eq_some_iff.1 hrest
  simp only [Prod.mk.injEq] at hseen
  obtain ⟨hfirst, hsecond, hdigit, hx, hy⟩ := hseen
  obtain ⟨hfont, hdrawn⟩ := font_survives_and_glyphs_are_drawn hplain (by rw [hwritten]; decide)
  obtain ⟨k, hk, hheld⟩ := hfont _ _ hactions
  rw [hm] at hk
  cases hk
  refine ⟨m, n, hm, hheld, hn, ?_⟩
  refine (hdrawn _ _ _ _ _ m n _ _ _ hactions (by simp [Action.IsQuiet]) hm hn hfirst hsecond
    3 1).2 ⟨1, 3, 0x90, ?_⟩
  rw [hdigit, hx, hy]
  decide

end Chip8
