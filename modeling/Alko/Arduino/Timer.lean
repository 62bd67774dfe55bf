import Mathlib.Tactic

/-! The millisecond timers of the machine, over the wrapping 32-bit clock. -/

namespace Alko.Arduino

structure Timer where
  startTime : UInt32
  interval : UInt32
  isActive : Bool
  deriving DecidableEq, Repr

namespace Timer

def idle (interval : UInt32) : Timer := ⟨0, interval, false⟩

/-- `millis` is what the clock shows; an inactive timer does not look at it. -/
def timedOut (millis : UInt32) (t : Timer) : Bool :=
  t.isActive && decide (t.startTime + t.interval ≤ millis)

@[simps] def start (millis : UInt32) (t : Timer) : Timer :=
  { t with startTime := millis, isActive := true }

@[simps] def startFor (interval millis : UInt32) : Timer :=
  ⟨millis, interval, true⟩

@[simps] def stop (t : Timer) : Timer := { t with isActive := false }

/-! The deadline is an absolute time, and so is what it is compared with. -/

theorem timedOut_start (s now : UInt32) (t : Timer) :
    (t.start s).timedOut now = true ↔ s + t.interval ≤ now := by
  simp [timedOut]

/-- After `e` milliseconds the timer tells the truth exactly if its deadline and the clock have both
wrapped around, or neither has. -/
theorem timedOut_iff_elapsed (t : Timer) (s e : UInt32) :
    ((t.start s).timedOut (s + e) = true ↔ t.interval ≤ e) ↔
      (s.toNat + t.interval.toNat < 2 ^ 32 ↔ s.toNat + e.toNat < 2 ^ 32) := by
  have hs := s.toNat_lt
  have hi := t.interval.toNat_lt
  have he := e.toNat_lt
  rw [timedOut_start, UInt32.le_iff_toNat_le, UInt32.le_iff_toNat_le, UInt32.toNat_add,
    UInt32.toNat_add]
  omega

/-- A deadline beyond the wrap is already behind a clock that has not got there. -/
theorem timedOut_early :
    ¬ ∀ (t : Timer) (s e : UInt32), (t.start s).timedOut (s + e) = true ↔ t.interval ≤ e := by
  intro h
  have hearly := (h (idle 100) 4294967286 0).mp (by decide)
  exact absurd hearly (by decide)

end Timer

end Alko.Arduino
