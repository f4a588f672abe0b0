/-!
The two countdown timers.
-/
namespace ChipEight

structure Timers where
  delay : UInt8
  sound : UInt8
deriving DecidableEq, Repr

namespace Timers

def initial : Timers := ⟨0, 0⟩

def countDown (t : UInt8) : UInt8 := if t = 0 then 0 else t - 1

def advance (t : Timers) : Timers := ⟨countDown t.delay, countDown t.sound⟩

/-- The next tick ends the sound. -/
def soundEnds (t : Timers) : Bool := t.sound == 1

theorem toNat_countDown (t : UInt8) : (countDown t).toNat = t.toNat - 1 := by
  unfold countDown
  split
  · next h => simp [h]
  · next h =>
    have hpos : 1 ≤ t := by
      rw [UInt8.le_iff_toNat_le]
      have : t.toNat ≠ 0 := fun h0 => h (UInt8.toNat_inj.mp h0)
      simp only [UInt8.toNat_one]
      omega
    rw [UInt8.toNat_sub_of_le _ _ hpos]
    rfl

end Timers
end ChipEight
