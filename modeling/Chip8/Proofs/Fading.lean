import Chip8.Emulator
import Chip8.Proofs.Guarded.Loops
import Mathlib.Data.List.Induction

/-!
# Fading, pixel by pixel

A glow and its frame are remade at one stroke, each pixel from what it was, and going over the
frame four bytes at a time makes the same of them in place (`Guarded.shade?_eq`). So what a pixel
shows after a row of calls, each over another picture, is a fold over the pixel's own history.
-/

namespace Chip8

namespace Phosphor

/-- How bright a dark pixel is after some calls, from whether it was lit at each of them and the
time that had passed. -/
def brightness (history : List (Bool × Float32)) : Float32 :=
  history.foldl (fun b (lit, dt) =>
    if lit then 1.0 else if 0.0 < b - 10.0 * dt then b - 10.0 * dt else 0.0) 0.0

theorem brightness_append (history : List (Bool × Float32)) (lit : Bool) (dt : Float32) :
    brightness (history ++ [(lit, dt)]) = fade dt lit (brightness history) := by
  rw [brightness, List.foldl_append]
  rfl

end Phosphor

namespace Emulator

variable {e : Emulator} {shown : Frame}

/-- Lets time pass on the screen over what a pacer shows by then. -/
def shadeOver (e : Emulator) (pacer : Pacer) (dt : Float32) : Outcome :=
  { e with pacer := pacer }.shade dt

theorem shadeOver_of_frame (hframe : e.frame = some shown) (pacer : Pacer) (dt : Float32) :
    e.shadeOver pacer dt = .completed { e with
      pacer := pacer
      glow := e.glow.shade pacer.machine.picture dt
      frame := some (e.glow.shade pacer.machine.picture dt).frame } := by
  simp only [shadeOver, shade, hframe]

def shadeAll (e : Emulator) (calls : List (Pacer × Float32)) : Emulator :=
  calls.foldl (fun e (pacer, dt) => (e.shadeOver pacer dt).emulator) e

theorem shadeAll_append (e : Emulator) (calls : List (Pacer × Float32)) (pacer : Pacer)
    (dt : Float32) :
    e.shadeAll (calls ++ [(pacer, dt)]) = ((e.shadeAll calls).shadeOver pacer dt).emulator := by
  rw [shadeAll, List.foldl_append]
  rfl

/-- What a pixel was at each call, and the time that had passed. -/
def pixelHistory (x : Fin 64) (y : Fin 32) (calls : List (Pacer × Float32)) :
    List (Bool × Float32) :=
  calls.map fun call => (call.1.machine.picture.lit x y, call.2)

theorem pixelHistory_append (x : Fin 64) (y : Fin 32) (calls : List (Pacer × Float32))
    (pacer : Pacer) (dt : Float32) :
    pixelHistory x y (calls ++ [(pacer, dt)]) =
      pixelHistory x y calls ++ [(pacer.machine.picture.lit x y, dt)] :=
  List.map_append

theorem exists_frame_shadeAll (hframe : e.frame = some shown) (calls : List (Pacer × Float32)) :
    ∃ old, (e.shadeAll calls).frame = some old := by
  induction calls using List.reverseRecOn with
  | nil => exact ⟨shown, hframe⟩
  | append_singleton calls call ih =>
      obtain ⟨old, hold⟩ := ih
      rw [shadeAll_append, shadeOver_of_frame hold]
      exact ⟨_, rfl⟩

/-- A pixel is as bright as its own history makes it. -/
theorem getElem_glow_shadeAll (hdark : e.glow = .dark) (hframe : e.frame = some shown)
    (calls : List (Pacer × Float32)) (x : Fin 64) (y : Fin 32) :
    (e.shadeAll calls).glow[64 * y.val + x.val] =
      Phosphor.brightness (pixelHistory x y calls) := by
  induction calls using List.reverseRecOn with
  | nil =>
      have hstart : (e.shadeAll []).glow = .dark := hdark
      rw [hstart]
      exact Vector.getElem_replicate _
  | append_singleton calls call ih =>
      obtain ⟨old, hold⟩ := exists_frame_shadeAll hframe calls
      rw [pixelHistory_append, Phosphor.brightness_append, ← ih, shadeAll_append,
        shadeOver_of_frame hold, ← Phosphor.litAt_row call.1.machine.picture x y (by omega)]
      exact Phosphor.getElem_shade ..

end Emulator

/-- However often time passes on the screen of an emulator that starts dark and has a frame to draw
to, and whatever is shown by then, each time the frame shows every pixel as green with an opacity
that is folded over the history of that pixel alone. Going over the pixels in place, each one once,
makes the same of the glow and the frame before, and nothing but these two changes. -/
theorem pixels_fade_on_their_own {e : Emulator} {shown : Frame} (hdark : e.glow = .dark)
    (hframe : e.frame = some shown) (calls : List (Pacer × Float32)) (pacer : Pacer)
    (dt : Float32) :
    ∃ old glow frame, (e.shadeAll calls).frame = some old ∧
      ({ e.shadeAll calls with pacer := pacer } : Emulator).shade dt = .completed
        { e.shadeAll calls with pacer := pacer, glow := glow, frame := some frame } ∧
      Guarded.shade? pacer.machine.picture dt (Guarded.rows (e.shadeAll calls).glow) old =
        some (Guarded.rows glow, frame) ∧
      ∀ (x : Fin 64) (y : Fin 32) (b : Float32),
        Phosphor.brightness (Emulator.pixelHistory x y (calls ++ [(pacer, dt)])) = b →
        glow[64 * y.val + x.val] = b ∧
          frame[4 * (64 * y.val + x.val)] = 0 ∧
          frame[4 * (64 * y.val + x.val) + 1] = 255 ∧
          frame[4 * (64 * y.val + x.val) + 2] = 0 ∧
          frame[4 * (64 * y.val + x.val) + 3] = (b * 255.0).toUInt8 := by
  obtain ⟨old, hold⟩ := Emulator.exists_frame_shadeAll hframe calls
  refine ⟨old, (e.shadeAll calls).glow.shade pacer.machine.picture dt, _, hold,
    Emulator.shadeOver_of_frame hold pacer dt, Guarded.shade?_eq .., ?_⟩
  rintro x y b rfl
  have hplace : 64 * y.val + x.val < 2048 := by omega
  have hpixel := Phosphor.getElem_shade (e.shadeAll calls).glow pacer.machine.picture dt hplace
  rw [Phosphor.litAt_row, Emulator.getElem_glow_shadeAll hdark hframe calls,
    ← Phosphor.brightness_append, ← Emulator.pixelHistory_append] at hpixel
  rw [← hpixel]
  exact ⟨rfl, Phosphor.getElem_frame _ hplace⟩

/-- A dark screen with a frame to draw to. -/
def darkScreen : Emulator :=
  { pacer := .ofRate .powerOn (.ofConfig {} 0) 500.0
    glow := .dark
    frame := some .fresh
    tone := false
    exiting := false
    fault := none }

/-- A pacer whose machine shows one pixel, in column 3 of row 2. -/
def dottedPacer : Pacer :=
  { darkScreen.pacer with
    machine := { Machine.powerOn with picture := Picture.blank.set 2 (BitVec.twoPow 64 60) } }

/-- A pixel that was turned off has lost three tenths of its brightness after three hundredths of a
second. The pixel in column 2 of row 3 has stayed dark. -/
theorem pixels_fade_on_their_own_of_dot :
    ∃ after frame, ({ darkScreen.shadeAll [(dottedPacer, 0.016)] with
        pacer := darkScreen.pacer } : Emulator).shade 0.03 = .completed after ∧
      after.pacer = darkScreen.pacer ∧ after.frame = some frame ∧
      frame[4 * (64 * 2 + 3) + 3] = 178 ∧ frame[4 * (64 * 3 + 2) + 3] = 0 := by
  obtain ⟨_, _, frame, -, hshade, -, hpixels⟩ := pixels_fade_on_their_own
    (e := darkScreen) rfl rfl [(dottedPacer, 0.016)] darkScreen.pacer 0.03
  refine ⟨_, frame, hshade, rfl, rfl, ?_, ?_⟩
  · obtain ⟨-, -, -, -, hopacity⟩ := hpixels ⟨3, by decide⟩ ⟨2, by decide⟩ _ rfl
    exact hopacity.trans (by decide +kernel)
  · obtain ⟨-, -, -, -, hopacity⟩ := hpixels ⟨2, by decide⟩ ⟨3, by decide⟩ _ rfl
    exact hopacity.trans (by decide +kernel)

end Chip8
