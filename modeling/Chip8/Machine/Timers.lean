/-!
# Timers

The delay timer and the sound timer count down to zero and stay there. The tone
sounds while the sound timer is above zero.
-/

namespace Chip8

structure Timers where
  delay : UInt8
  sound : UInt8
  deriving DecidableEq, Repr

namespace Timers

def stopped : Timers := ⟨0, 0⟩

/-- A timer `count` ticks later: that much less, but not below zero. -/
def countDown (t : UInt8) (count : Nat) : UInt8 := UInt8.ofNat (t.toNat - count)

def ticks (t : Timers) (count : Nat) : Timers := ⟨countDown t.delay count, countDown t.sound count⟩

def tick (t : Timers) : Timers := t.ticks 1

def sounding (t : Timers) : Bool := 0 < t.sound

@[simp] theorem toNat_countDown (t : UInt8) (count : Nat) :
    (countDown t count).toNat = t.toNat - count := by
  have := t.toNat_lt
  simp only [countDown, UInt8.toNat_ofNat']
  omega

@[simp] theorem countDown_zero (t : UInt8) : countDown t 0 = t := by
  simp [← UInt8.toNat_inj]

theorem countDown_countDown (t : UInt8) (m n : Nat) :
    countDown (countDown t m) n = countDown t (m + n) := by
  simp only [← UInt8.toNat_inj, toNat_countDown]
  omega

@[simp] theorem ticks_zero (t : Timers) : t.ticks 0 = t := by
  simp [ticks]

/-- Ticks add up. -/
theorem ticks_ticks (t : Timers) (m n : Nat) : (t.ticks m).ticks n = t.ticks (m + n) := by
  simp [ticks, countDown_countDown]

end Timers

end Chip8
