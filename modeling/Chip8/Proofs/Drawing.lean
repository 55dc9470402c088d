import Chip8.Proofs.Frame
import Chip8.Proofs.Guarded.Loops
import Mathlib.Algebra.Group.Nat.Even
import Mathlib.Data.List.Perm.Basic

/-!
# Drawing is an exclusive or

Pictures form a group under exclusive or in which every picture is its own inverse, and a
drawing instruction, which turns over one pixel after the other (`Guarded.draw?`), adds its
sprite to the picture. A `Stroke` is what such an instruction reads besides memory, and its
footprint is the sprite it adds. So the order of strokes does not matter, and two equal strokes
cancel. The flag register alone tells strokes apart: it says of each whether it turned a pixel
off. Drawing the same sprite twice turns off, the second time, just what the first time turned
on.
-/

namespace Chip8

namespace Picture

variable {p q r : Picture}

theorem xor_comm (p q : Picture) : p.xor q = q.xor p := by
  apply ext_lit
  intro c y
  rw [lit_xor, lit_xor, Bool.xor_comm]

theorem xor_assoc (p q r : Picture) : (p.xor q).xor r = p.xor (q.xor r) := by
  apply ext_lit
  intro c y
  simp only [lit_xor, Bool.xor_assoc]

theorem xor_self (p : Picture) : p.xor p = blank := by
  apply ext_lit
  intro c y
  rw [lit_xor, Bool.xor_self, lit_blank]

theorem blank_xor (p : Picture) : blank.xor p = p := by
  rw [xor_comm, xor_blank]

theorem xor_xor_cancel_right (p q : Picture) : (p.xor q).xor q = p := by
  rw [xor_assoc, xor_self, xor_blank]

instance xorLeftCommutative : LeftCommutative xor where
  left_comm p q r := by rw [← xor_assoc, xor_comm p q, xor_assoc]

/-- The exclusive or of any number of pictures. -/
def total (pictures : List Picture) : Picture := pictures.foldr xor blank

@[simp] theorem total_nil : total [] = blank := rfl

@[simp] theorem total_cons (p : Picture) (pictures : List Picture) :
    total (p :: pictures) = p.xor (total pictures) := rfl

theorem total_append (first rest : List Picture) :
    total (first ++ rest) = (total first).xor (total rest) := by
  induction first with
  | nil => rw [List.nil_append, total_nil, blank_xor]
  | cons p first ih => rw [List.cons_append, total_cons, total_cons, ih, xor_assoc]

theorem total_perm {first second : List Picture} (h : first.Perm second) :
    total first = total second := h.foldr_eq blank

theorem total_replicate_of_even {n : Nat} (h : Even n) (p : Picture) :
    total (List.replicate n p) = blank := by
  obtain ⟨k, rfl⟩ := h
  rw [← List.replicate_append_replicate, total_append, xor_self]

/-- What occurs an even number of times may be left out. -/
theorem total_map_filter_ne {α : Type} [DecidableEq α] (f : α → Picture) {l : List α} {a : α}
    (h : Even (l.count a)) : total ((l.filter (· != a)).map f) = total (l.map f) := by
  have hperm := List.filter_append_perm (· == a) l
  have hequal : total ((l.filter (· == a)).map f) = blank := by
    rw [List.filter_beq, List.map_replicate, total_replicate_of_even h]
  rw [← total_perm (hperm.map f), List.map_append, total_append, hequal, blank_xor]
  rfl

theorem overlaps_comm (p q : Picture) : p.overlaps q = q.overlaps p := by
  rw [Bool.eq_iff_iff, overlaps_eq_true_iff, overlaps_eq_true_iff]
  simp only [and_comm]

/-- What overlaps after a sprite was laid over a picture is what the sprite turned on. -/
theorem overlaps_xor_eq_true_iff :
    (p.xor q).overlaps q = true ↔ ∃ c y, p.lit c y = false ∧ (p.xor q).lit c y = true := by
  rw [overlaps_eq_true_iff]
  refine exists_congr fun c => exists_congr fun y => ?_
  rw [lit_xor]
  cases p.lit c y <;> simp

end Picture

/-- What a drawing instruction reads besides memory. -/
structure Stroke where
  x : UInt8
  y : UInt8
  rows : Nibble
  index : UInt16
  deriving DecidableEq

namespace Stroke

/-- The bytes of the sprite, one for each row. -/
def bytes (s : Stroke) (memory : Memory) : List UInt8 :=
  memory.slice s.index.toNat s.rows.val

/-- The pixels that a stroke turns over. -/
def footprint (s : Stroke) (memory : Memory) : Picture := .sprite s.x s.y (s.bytes memory)

/-- The stroke of a drawing instruction on a machine. -/
def ofMachine (m : Machine) (x y rows : Nibble) : Stroke :=
  ⟨m.register x, m.register y, rows, m.index⟩

variable {s t : Stroke} {memory other : Memory}

/-- Of its position a footprint shows only where on the screen it is. -/
theorem footprint_congr (hx : s.x.toNat % 64 = t.x.toNat % 64)
    (hy : s.y.toNat % 32 = t.y.toNat % 32) (hbytes : s.bytes memory = t.bytes other) :
    s.footprint memory = t.footprint other := by
  simp only [footprint, Picture.sprite, hx, hy, hbytes]

end Stroke

theorem Instruction.execute_draw (config : Config) (random : Random.Source) (m : Machine)
    (x y rows : Nibble) :
    (draw x y rows).execute config random m =
      .ok ⟨m.advance.draw (m.sprite x y rows), random, .awaitFrame, []⟩ := rfl

/-- Drawing instructions carried out one after the other, from the machine `m` to the machine
`n`, their strokes being listed. Between them everything but memory and the picture may
change. -/
inductive Strokes : Machine → List Stroke → Machine → Prop
  | nil {m n : Machine} (hmemory : n.memory = m.memory) (hpicture : n.picture = m.picture) :
      Strokes m [] n
  | cons {m k n : Machine} {x y rows : Nibble} {rest : List Stroke} {config : Config}
      {random : Random.Source} {effect : Effect} (hmemory : k.memory = m.memory)
      (hpicture : k.picture = m.picture)
      (hdraw : (Instruction.draw x y rows).execute config random k = .ok effect)
      (hrest : Strokes effect.machine rest n) :
      Strokes m (.ofMachine k x y rows :: rest) n

namespace Strokes

variable {m n : Machine} {strokes : List Stroke}

theorem picture_eq (h : Strokes m strokes n) :
    n.picture = m.picture.xor (.total (strokes.map fun s => s.footprint m.memory)) := by
  induction h with
  | nil _ hpicture => rw [hpicture, List.map_nil, Picture.total_nil, Picture.xor_blank]
  | @cons m k n x y rows rest config random effect hmemory hpicture hdraw _ ih =>
      cases hdraw
      have hdrawn : (k.advance.draw (k.sprite x y rows)).picture =
          m.picture.xor ((Stroke.ofMachine k x y rows).footprint m.memory) := by
        rw [← hmemory, ← hpicture]
        rfl
      have hkept : (k.advance.draw (k.sprite x y rows)).memory = m.memory := hmemory
      rw [ih, hdrawn, hkept, List.map_cons, Picture.total_cons, Picture.xor_assoc]

/-- A machine that is about to make a stroke with its first two registers. -/
def poised (m : Machine) (s : Stroke) : Machine :=
  { m with
    registers := (m.registers.put (Nibble.ofNat 0) s.x).put (Nibble.ofNat 1) s.y
    index := s.index }

theorem ofMachine_poised (m : Machine) (s : Stroke) :
    .ofMachine (poised m s) (Nibble.ofNat 0) (Nibble.ofNat 1) s.rows = s := by
  simp [Stroke.ofMachine, poised, Machine.register, Table.entry_put, Nibble.ofNat]

/-- On every machine all strokes can be made. -/
theorem exists_strokes (m : Machine) (strokes : List Stroke) : ∃ n, Strokes m strokes n := by
  induction strokes generalizing m with
  | nil => exact ⟨m, .nil rfl rfl⟩
  | cons s rest ih =>
      obtain ⟨n, hn⟩ := ih ((poised m s).advance.draw
        ((poised m s).sprite (Nibble.ofNat 0) (Nibble.ofNat 1) s.rows))
      have hdraw := Instruction.execute_draw {} (.ofSeed 0) (poised m s) (Nibble.ofNat 0)
        (Nibble.ofNat 1) s.rows
      have hfirst := Strokes.cons (m := m) (k := poised m s) rfl rfl hdraw hn
      rw [ofMachine_poised] at hfirst
      exact ⟨n, hfirst⟩

end Strokes

theorem flagByte_eq_one_iff {b : Bool} : flagByte b = 1 ↔ b = true := by
  cases b <;> decide

namespace Interpreter

variable {interpreter first second : Interpreter} {m : Machine} {x y rows : Nibble}

/-- A drawing instruction that is met is carried out. -/
theorem step_of_draw (interpreter : Interpreter) (h : m.instruction? = some (.draw x y rows)) :
    (interpreter.step m).result = .ok .awaitFrame ∧
      ∃ timers, (interpreter.step m).machine =
        { m.fetched.advance.draw (m.sprite x y rows) with timers := timers } := by
  have hi : interpreter.executed? m = some (.draw x y rows) := executed?_of_instruction? h rfl
  obtain ⟨effect, he, -, hm, -⟩ := execute_of_executed? hi
  cases he
  exact ⟨result_step hi, _, hm.trans (afterStep_eq _ _)⟩

theorem sprite_step_of_draw (h : m.instruction? = some (.draw x y rows))
    (hx : x ≠ Machine.flagRegister) (hy : y ≠ Machine.flagRegister) :
    (interpreter.step m).machine.sprite x y rows = m.sprite x y rows := by
  obtain ⟨-, timers, hm⟩ := step_of_draw interpreter h
  have hkept : ∀ z, z ≠ Machine.flagRegister →
      (interpreter.step m).machine.register z = m.register z := by
    intro z hz
    rw [hm]
    exact (Machine.register_setRegister m _ z _).trans (if_neg hz.symm)
  have hmemory : (interpreter.step m).machine.memory = m.memory := by rw [hm]; rfl
  have hindex : (interpreter.step m).machine.index = m.index := by rw [hm]; rfl
  rw [Machine.sprite, Machine.sprite, hkept x hx, hkept y hy, hmemory, hindex]

theorem register_step_of_draw (h : m.instruction? = some (.draw x y rows)) :
    (interpreter.step m).machine.register Machine.flagRegister =
      flagByte (m.picture.overlaps (m.sprite x y rows)) := by
  obtain ⟨-, timers, hm⟩ := step_of_draw interpreter h
  rw [hm]
  exact Machine.register_setRegister_self m _ _

theorem picture_step_of_draw (h : m.instruction? = some (.draw x y rows)) :
    (interpreter.step m).machine.picture = m.picture.xor (m.sprite x y rows) := by
  obtain ⟨-, timers, hm⟩ := step_of_draw interpreter h
  rw [hm]
  rfl

/-- After a drawing instruction the next one is met. -/
theorem instruction?_step_of_draw (h : m.instruction? = some (.draw x y rows)) :
    (interpreter.step m).machine.instruction? = m.advance.instruction? := by
  obtain ⟨-, timers, hm⟩ := step_of_draw interpreter h
  rw [hm]
  rfl

section Twice

variable (hx : x ≠ Machine.flagRegister) (hy : y ≠ Machine.flagRegister)
  (h : m.instruction? = some (.draw x y rows))
  (hnext : m.advance.instruction? = some (.draw x y rows))
include h hnext

theorem instruction?_step_twice (first : Interpreter) :
    (first.step m).machine.instruction? = some (.draw x y rows) :=
  (instruction?_step_of_draw h).trans hnext

include hx hy

/-- The second time the sprite is taken away again. -/
theorem picture_step_twice :
    (second.step (first.step m).machine).machine.picture = m.picture := by
  rw [picture_step_of_draw (instruction?_step_twice h hnext first), sprite_step_of_draw h hx hy,
    picture_step_of_draw h, Picture.xor_xor_cancel_right]

/-- The second time the flag tells whether the sprite turned a pixel on the first time. -/
theorem register_step_twice :
    (second.step (first.step m).machine).machine.register Machine.flagRegister = 1 ↔
      ∃ c r, m.picture.lit c r = false ∧ (first.step m).machine.picture.lit c r = true := by
  rw [register_step_of_draw (instruction?_step_twice h hnext first), sprite_step_of_draw h hx hy,
    picture_step_of_draw h, flagByte_eq_one_iff, Picture.overlaps_xor_eq_true_iff]

end Twice

theorem register_step_of_draw_blank (h : m.instruction? = some (.draw x y rows))
    (hblank : m.picture = .blank) :
    (interpreter.step m).machine.register Machine.flagRegister = 0 := by
  rw [register_step_of_draw h, hblank, Picture.overlaps_comm, Picture.overlaps_blank]
  rfl

end Interpreter

/-- Drawing adds up. A drawing instruction goes over the rows and columns of its sprite in
place, from any index. However many strokes are made, the picture is in the end the exclusive
or of what it was and of the footprints of all of them, and a footprint depends on nothing but
where on the screen it begins and on the bytes of its sprite. So the order of strokes does not
matter, and a stroke made an even number of times leaves no trace. In particular a drawing
instruction that is met twice, and that does not read the flag register, gives back the
picture; the flag says whether it had turned a pixel on. -/
theorem drawing_is_exclusive_or :
    (∀ (config : Config) (random : Random.Source) (m : Machine) (x y rows : Nibble), ∃ n,
      Guarded.draw? (Guarded.byteAround? m.advance) m.advance x y rows = some n ∧
        (Instruction.draw x y rows).execute config random m =
          .ok ⟨n, random, .awaitFrame, []⟩) ∧
    (∀ (m : Machine) (strokes : List Stroke), (∃ n, Strokes m strokes n) ∧
      ∀ n, Strokes m strokes n →
        n.picture = m.picture.xor (.total (strokes.map fun s => s.footprint m.memory))) ∧
    (∀ (s t : Stroke) (memory other : Memory), s.x.toNat % 64 = t.x.toNat % 64 →
      s.y.toNat % 32 = t.y.toNat % 32 → s.bytes memory = t.bytes other →
      s.footprint memory = t.footprint other) ∧
    (∀ (m n k : Machine) (strokes others : List Stroke), strokes.Perm others →
      Strokes m strokes n → Strokes m others k → n.picture = k.picture) ∧
    (∀ (m n k : Machine) (strokes : List Stroke) (s : Stroke), Even (strokes.count s) →
      Strokes m strokes n → Strokes m (strokes.filter (· != s)) k → n.picture = k.picture) ∧
    ∀ (first second : Interpreter) (m n k : Machine) (x y rows : Nibble),
      x ≠ Machine.flagRegister → y ≠ Machine.flagRegister →
      m.instruction? = some (.draw x y rows) → m.advance.instruction? = some (.draw x y rows) →
      n = (first.step m).machine → k = (second.step n).machine →
      (first.step m).result = .ok .awaitFrame ∧ (second.step n).result = .ok .awaitFrame ∧
        k.picture = m.picture ∧
        (k.register Machine.flagRegister = 1 ↔
          ∃ c r, m.picture.lit c r = false ∧ n.picture.lit c r = true) ∧
        (m.picture = .blank → n.register Machine.flagRegister = 0 ∧
          (k.register Machine.flagRegister = 1 ↔
            ∃ c r, (m.sprite x y rows).lit c r = true)) := by
  refine ⟨fun config random m x y rows => ⟨_, Guarded.draw?_around m.advance x y rows,
      Instruction.execute_draw config random m x y rows⟩,
    fun m strokes => ⟨Strokes.exists_strokes m strokes, fun n hn => hn.picture_eq⟩,
    fun s t memory other hx hy hbytes => Stroke.footprint_congr hx hy hbytes, ?_, ?_, ?_⟩
  · intro m n k strokes others hperm hn hk
    rw [hn.picture_eq, hk.picture_eq, Picture.total_perm (hperm.map _)]
  · intro m n k strokes s heven hn hk
    rw [hn.picture_eq, hk.picture_eq, Picture.total_map_filter_ne _ heven]
  · rintro first second m n k x y rows hx hy h hnext rfl rfl
    have hagain := Interpreter.instruction?_step_twice h hnext first
    refine ⟨(Interpreter.step_of_draw first h).1, (Interpreter.step_of_draw second hagain).1,
      Interpreter.picture_step_twice hx hy h hnext,
      Interpreter.register_step_twice hx hy h hnext, fun hblank => ?_⟩
    have hsprite : (first.step m).machine.picture = m.sprite x y rows := by
      rw [Interpreter.picture_step_of_draw h, hblank, Picture.blank_xor]
    refine ⟨Interpreter.register_step_of_draw_blank h hblank, ?_⟩
    rw [Interpreter.register_step_twice hx hy h hnext, hblank, hsprite]
    simp

/-- A stroke over the corner of the screen, with the glyph of zero. -/
def cornerStroke : Stroke := ⟨62, 30, Nibble.ofNat 5, 0x50⟩

/-- A stroke in the middle of the screen. -/
def innerStroke : Stroke := ⟨20, 10, Nibble.ofNat 5, 0x50⟩

/-- A machine that draws the glyph of zero twice over the corner of the screen. -/
def twiceMachine : Machine :=
  { Machine.powerOn with
    memory := Machine.powerOn.memory.store Machine.start [0xD0, 0x15, 0xD0, 0x15]
    registers := (Machine.powerOn.registers.put (Nibble.ofNat 0) 62).put (Nibble.ofNat 1) 30
    index := 0x50 }

theorem drawing_is_exclusive_or_of_corner :
    cornerStroke.footprint twiceMachine.memory =
        Stroke.footprint ⟨126, 62, Nibble.ofNat 5, 0x50⟩ twiceMachine.memory ∧
      (∃ n k l, Strokes twiceMachine [cornerStroke, innerStroke, cornerStroke] n ∧
        Strokes twiceMachine [innerStroke] k ∧ n.picture = k.picture ∧
        Strokes twiceMachine [cornerStroke, cornerStroke, innerStroke] l ∧
        n.picture = l.picture) ∧
      ((Interpreter.ofConfig {} 0).step
        ((Interpreter.ofConfig {} 0).step twiceMachine).machine).machine.picture = .blank ∧
      ((Interpreter.ofConfig {} 0).step
        ((Interpreter.ofConfig {} 0).step twiceMachine).machine).machine.register
          Machine.flagRegister = 1 := by
  obtain ⟨-, hmade, hfootprint, hperm, heven, htwice⟩ := drawing_is_exclusive_or
  have hdraw : twiceMachine.instruction? =
      some (.draw (Nibble.ofNat 0) (Nibble.ofNat 1) (Nibble.ofNat 5)) := by decide +kernel
  have hnext : twiceMachine.advance.instruction? =
      some (.draw (Nibble.ofNat 0) (Nibble.ofNat 1) (Nibble.ofNat 5)) := by decide +kernel
  have hlit : (twiceMachine.sprite (Nibble.ofNat 0) (Nibble.ofNat 1) (Nibble.ofNat 5)).lit 62 30
      = true := by decide +kernel
  obtain ⟨n, hn⟩ := (hmade twiceMachine [cornerStroke, innerStroke, cornerStroke]).1
  obtain ⟨k, hk⟩ := (hmade twiceMachine [innerStroke]).1
  obtain ⟨l, hl⟩ := (hmade twiceMachine [cornerStroke, cornerStroke, innerStroke]).1
  have hcancel := heven _ n k _ cornerStroke (by decide) hn hk
  have hreorder := hperm _ n l _ _ (by decide) hn hl
  obtain ⟨-, -, hsame, -, hflag⟩ := htwice (.ofConfig {} 0) (.ofConfig {} 0) twiceMachine _ _
    _ _ _ (by decide) (by decide) hdraw hnext rfl rfl
  exact ⟨hfootprint _ _ _ _ rfl rfl rfl, ⟨n, k, l, hn, hk, hcancel, hl, hreorder⟩, hsame,
    (hflag rfl).2.2 ⟨62, 30, hlit⟩⟩

end Chip8
