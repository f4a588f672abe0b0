import ChipEight.Machine.Notes
import ChipEight.Proofs.Drawing
import ChipEight.Proofs.Effect

/-!
Runs of a machine. The trail of a run is the list of states in which it executes an instruction,
so it tells which instructions are executed, at which addresses, and what they find. A property
that every instruction keeps is kept by a run, a wait for a key can only be the last instruction
of one, and the frame changes exactly if some instruction of the trail draws or clears.
-/
namespace ChipEight.Machine

/-- The states in which at most `n` steps execute an instruction, in order. -/
def trail : Nat → Machine → List Machine
  | 0, _ => []
  | n + 1, m => if m.isAwaiting then [] else m :: trail n m.advance

/-- Where none of some states gives a value, the value from before is the last one. -/
theorem foldl_getD_of_none {α : Type} {given : Machine → Option α} {states : List Machine}
    (h : ∀ s ∈ states, given s = none) (value : α) :
    states.foldl (fun value s => (given s).getD value) value = value := by
  induction states with
  | nil => rfl
  | cons s rest ih =>
    have hfirst : (given s).getD value = value := by
      rw [h s (List.mem_cons_self ..)]
      rfl
    rw [List.foldl_cons, hfirst]
    exact ih fun t ht => h t (List.mem_cons_of_mem _ ht)

theorem step_of_running {m : Machine} (h : m.isAwaiting = false) :
    m.step = some (m.registers.pc, m.advance) := by
  simp [step, h]

theorem trail_of_awaiting {m : Machine} (h : m.isAwaiting = true) (n : Nat) : m.trail n = [] := by
  cases n <;> simp [trail, h]

theorem trail_succ_of_running {m : Machine} (h : m.isAwaiting = false) (n : Nat) :
    m.trail (n + 1) = m :: m.advance.trail n := by
  simp [trail, h]

theorem cycle_of_awaiting {m : Machine} (h : m.isAwaiting = true) (n : Nat) :
    m.cycle n = ([], m) := by
  cases n with
  | zero => rfl
  | succ n => simp [cycle, (step_eq_none_iff m).mpr h]

theorem cycle_succ_of_running {m : Machine} (h : m.isAwaiting = false) (n : Nat) :
    m.cycle (n + 1) = (m.registers.pc :: (m.advance.cycle n).1, (m.advance.cycle n).2) := by
  simp [cycle, step_of_running h]

/-- What every executed instruction keeps, a run keeps. -/
theorem cycle_induction {P : Machine → Prop}
    (hadvance : ∀ m, m.isAwaiting = false → P m → P m.advance) (n : Nat) {m : Machine}
    (h : P m) : P (m.cycle n).2 := by
  induction n generalizing m with
  | zero => exact h
  | succ n ih =>
    cases hrun : m.isAwaiting with
    | true => rw [cycle_of_awaiting hrun]; exact h
    | false => rw [cycle_succ_of_running hrun]; exact ih (hadvance m hrun h)

@[simp] theorem config_cycle (n : Nat) (m : Machine) : (m.cycle n).2.config = m.config :=
  cycle_induction (P := fun s => s.config = m.config)
    (fun s _ hs => by rw [config_advance, hs]) n rfl

/-- A run executes at the addresses of its trail. -/
theorem cycle_addresses (n : Nat) (m : Machine) :
    (m.cycle n).1 = (m.trail n).map fun s => s.registers.pc := by
  induction n generalizing m with
  | zero => rfl
  | succ n ih =>
    cases hrun : m.isAwaiting with
    | true => rw [cycle_of_awaiting hrun, trail_of_awaiting hrun]; rfl
    | false => rw [cycle_succ_of_running hrun, trail_succ_of_running hrun, ih]; rfl

theorem length_trail_le (n : Nat) (m : Machine) : (m.trail n).length ≤ n := by
  induction n generalizing m with
  | zero => exact Nat.le_refl 0
  | succ n ih =>
    cases hrun : m.isAwaiting with
    | true =>
      rw [trail_of_awaiting hrun]
      exact Nat.zero_le _
    | false =>
      rw [trail_succ_of_running hrun]
      exact Nat.succ_le_succ (ih m.advance)

/-- A tick reports at most as many places as it may execute instructions. -/
theorem length_executed_tick_le (budget : Nat) (m : Machine) :
    (m.tick budget).1.executed.length ≤ budget := by
  calc
    (m.tick budget).1.executed.length ≤ (m.cycle budget).1.length := List.length_filterMap_le ..
    _ = (m.trail budget).length := by rw [cycle_addresses, List.length_map]
    _ ≤ budget := length_trail_le budget m

/-- A run ends where the last instruction of its trail leads. -/
theorem cycle_last (n : Nat) (m : Machine) :
    (m.cycle n).2 = ((m.trail n).getLast?.map advance).getD m := by
  induction n generalizing m with
  | zero => rfl
  | succ n ih =>
    cases hrun : m.isAwaiting with
    | true => rw [cycle_of_awaiting hrun, trail_of_awaiting hrun]; rfl
    | false =>
      rw [cycle_succ_of_running hrun, trail_succ_of_running hrun, ih, List.getLast?_cons]
      cases (m.advance.trail n).getLast? <;> rfl

/-- A run tells what each instruction of its trail tells. -/
theorem cycleNotes_eq_flatMap (n : Nat) (m : Machine) :
    m.cycleNotes n = (m.trail n).flatMap stepNotes := by
  induction n generalizing m with
  | zero => rfl
  | succ n ih =>
    cases hrun : m.isAwaiting with
    | true =>
      rw [cycleNotes, (step_eq_none_iff m).mpr hrun, trail_of_awaiting hrun]
      rfl
    | false =>
      rw [cycleNotes, step_of_running hrun, trail_succ_of_running hrun]
      simp only [ih, List.flatMap_cons]

/-- A run that ends in a wait for a key has executed that wait as its last instruction. -/
theorem getLast?_trail_of_awaiting {n : Nat} {m : Machine} {x : Fin 16}
    (hrun : m.isAwaiting = false) (h : (m.cycle n).2.keypad.execution = .awaitingKey x) :
    ∃ s, (m.trail n).getLast? = some s ∧ s.isAwaiting = false ∧
      s.nextInstruction = .awaitKey x := by
  induction n generalizing m with
  | zero =>
    rw [show (m.cycle 0).2 = m from rfl, m.isAwaiting_eq_false_iff.mp hrun] at h
    cases h
  | succ n ih =>
    rw [cycle_succ_of_running hrun] at h
    rw [trail_succ_of_running hrun]
    cases hnext : m.advance.isAwaiting with
    | true =>
      rw [cycle_of_awaiting hnext] at h
      rw [trail_of_awaiting hnext]
      exact ⟨m, rfl, hrun, (execution_advance_eq_awaitingKey_iff hrun x).mp h⟩
    | false =>
      obtain ⟨s, hlast, hs⟩ := ih hnext h
      exact ⟨s, by rw [List.getLast?_cons, hlast]; rfl, hs⟩

section Frame

/-- The next instruction is a clear, or a draw of a sprite with a set bit. -/
def redraws (m : Machine) : Bool :=
  match m.nextInstruction with
  | .clear => true
  | .draw _ _ n => (m.sprite n).any (· != 0)
  | _ => false

theorem dirty_advance (m : Machine) : m.advance.frame.dirty = (m.frame.dirty || m.redraws) := by
  rw [frame_advance, redraws]
  cases m.nextInstruction with
  | clear => simp [frameAfter, Frame.clear]
  | draw x y n => exact Frame.dirty_draw ..
  | _ => simp [frameAfter]

/-- A run marks the frame exactly if some instruction of its trail changes pixels. -/
theorem dirty_cycle (n : Nat) (m : Machine) :
    (m.cycle n).2.frame.dirty = (m.frame.dirty || (m.trail n).any redraws) := by
  induction n generalizing m with
  | zero => simp [cycle, trail]
  | succ n ih =>
    cases hrun : m.isAwaiting with
    | true => rw [cycle_of_awaiting hrun, trail_of_awaiting hrun]; simp
    | false =>
      rw [cycle_succ_of_running hrun, trail_succ_of_running hrun, ih, dirty_advance,
        List.any_cons, Bool.or_assoc]

/-- While no instruction changes pixels the frame stays as it is. -/
theorem frame_advance_of_not_redraws {m : Machine} (h : m.redraws = false) :
    m.advance.frame = m.frame := by
  rw [frame_advance]
  rw [redraws] at h
  cases hi : m.nextInstruction with
  | clear => rw [hi] at h; cases h
  | draw x y n =>
    rw [hi] at h
    have hpoints : Sprite.points (m.reg x).toNat (m.reg y).toNat (m.sprite n) = [] := by
      simpa [Sprite.points_eq_nil_iff] using h
    simp [frameAfter, Frame.draw, hpoints, Frame.plot]
  | _ => rfl

theorem frame_cycle_of_not_redraws {n : Nat} {m : Machine}
    (h : (m.trail n).any redraws = false) : (m.cycle n).2.frame = m.frame := by
  induction n generalizing m with
  | zero => rfl
  | succ n ih =>
    cases hrun : m.isAwaiting with
    | true => rw [cycle_of_awaiting hrun]
    | false =>
      rw [trail_succ_of_running hrun, List.any_cons, Bool.or_eq_false_iff] at h
      rw [cycle_succ_of_running hrun, ih h.2, frame_advance_of_not_redraws h.1]

end Frame

structure Fitted (m : Machine) : Prop where
  width : m.frame.width = max m.config.width 1
  height : m.frame.height = max m.config.height 1

namespace Fitted

theorem size_pixels {m : Machine} (h : m.Fitted) :
    m.frame.pixels.size = max m.config.width 1 * max m.config.height 1 := by
  rw [m.frame.size_pixels, h.width, h.height]

theorem boot (config : Config) (random : RandomBytes) : (Machine.boot config random).Fitted :=
  ⟨rfl, rfl⟩

theorem advance {m : Machine} (h : m.Fitted) : m.advance.Fitted := by
  constructor
  · rw [frame_advance, config_advance, ← h.width]
    cases m.nextInstruction <;> simp [frameAfter, Frame.clear, Frame.draw]
  · rw [frame_advance, config_advance, ← h.height]
    cases m.nextInstruction <;> simp [frameAfter, Frame.clear, Frame.draw]

theorem cycle {m : Machine} (h : m.Fitted) (n : Nat) : (m.cycle n).2.Fitted :=
  cycle_induction (fun _ _ hm => hm.advance) n h

theorem takeFrame {m : Machine} (h : m.Fitted) : m.takeFrame.2.Fitted := by
  rw [takeFrame_snd]
  exact ⟨h.width, h.height⟩

theorem setKey {m n : Machine} (h : m.Fitted) {key : UInt8} {pressed : Bool}
    (hkey : m.setKey key pressed = .ok n) : n.Fitted := by
  rw [eq_of_setKey hkey]
  exact ⟨h.width, h.height⟩

end Fitted
end ChipEight.Machine
