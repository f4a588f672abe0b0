import ChipEight.Proofs.Footprint
import ChipEight.Proofs.History

/-!
What a program sees of the keys. A key counts as pressed if the last event that has reached the
machine for it was a press. Events reach the machine unless the console is stopped, so a key that
is let go meanwhile stays pressed. A fresh start of the machine forgets them all, and nothing
else has a say.
-/
namespace ChipEight

theorem Keypad.isPressed_initial (key : UInt8) : initial.isPressed key = false := by
  rw [isPressed, initial, Vector.getElem?_replicate]
  split <;> rfl

namespace Machine

variable (m : Machine) (key : UInt8)

theorem isPressed_advance : m.advance.isPressed key = m.isPressed key := by
  have hpressed : m.advance.keypad.pressed = m.keypad.pressed := by
    rw [keypad_advance]
    cases m.nextInstruction <;> rfl
  rw [isPressed, Keypad.isPressed, hpressed]
  rfl

theorem isPressed_cycle (n : Nat) : (m.cycle n).2.isPressed key = m.isPressed key :=
  cycle_induction (P := fun s => s.isPressed key = m.isPressed key)
    (fun s _ hs => (s.isPressed_advance key).trans hs) n rfl

/-- All instructions of a run see the same keys. -/
theorem isPressed_of_mem_trail {n : Nat} {m s : Machine} (hs : s ∈ m.trail n) (key : UInt8) :
    s.isPressed key = m.isPressed key := by
  induction n generalizing m with
  | zero => cases hs
  | succ n ih =>
    cases hrun : m.isAwaiting with
    | true =>
      rw [trail_of_awaiting hrun] at hs
      cases hs
    | false =>
      rw [trail_succ_of_running hrun] at hs
      rcases List.mem_cons.mp hs with rfl | hlater
      · rfl
      · exact (ih hlater).trans (m.isPressed_advance key)

/-- The event of a key of the keypad is taken, and decides about its key. -/
theorem exists_setKey {code : UInt8} (hcode : code.toNat < 16) (pressed : Bool) :
    ∃ n, m.setKey code pressed = .ok n ∧
      ∀ key, n.isPressed key = if key = code then pressed else m.isPressed key := by
  have hpressed := m.isPressed_respond_setKey hcode pressed
  rw [respond] at hpressed
  cases hset : m.setKey code pressed with
  | ok n =>
    rw [hset] at hpressed
    exact ⟨n, rfl, hpressed⟩
  | error rejection =>
    have htaken : ∃ k, m.keypad.setKey code pressed = .ok k := ⟨_, dif_pos hcode⟩
    obtain ⟨k, hk⟩ := htaken
    rw [setKey, hk] at hset
    cases hawaited : m.keypad.awaited pressed <;> (rw [hawaited] at hset; cases hset)

end Machine

namespace Console

def startsAfresh (c : Console) : Action → Bool
  | .load program autoplay => (c.load program autoplay).isOk
  | .loadRom chunks autoplay => (c.loadRom chunks autoplay).isOk
  | .replay => c.isLoaded && c.replay.isOk
  | .reset => true
  | _ => false

/-- The log of key events after an action, the newest first. -/
def logged (c : Console) (log : List (UInt8 × Bool)) : Action → List (UInt8 × Bool)
  | .setKey key pressed =>
    if (c.status = .running ∨ c.status = .paused) ∧ key.toNat < 16 then (key, pressed) :: log
    else log
  | action => if c.startsAfresh action then [] else log

def keyLog (c : Console) (log : List (UInt8 × Bool)) : List Action → List (UInt8 × Bool)
  | [] => log
  | action :: rest => (c.next action).keyLog (c.logged log action) rest

def lastSaid (log : List (UInt8 × Bool)) (key : UInt8) : Bool := (log.lookup key).getD false

theorem lastSaid_cons (log : List (UInt8 × Bool)) (key code : UInt8) (pressed : Bool) :
    lastSaid ((code, pressed) :: log) key = if key = code then pressed else lastSaid log key := by
  unfold lastSaid
  rw [List.lookup_cons]
  by_cases h : key = code
  · rw [if_pos h, beq_iff_eq.mpr h]
    rfl
  · rw [if_neg h, beq_eq_false_iff_ne.mpr h]

section Steps

variable {c : Console} {log : List (UInt8 × Bool)}

theorem isPressed_load (h : ∀ key, c.machine.isPressed key = lastSaid log key)
    (program : List UInt8) (autoplay : Bool) (key : UInt8) :
    (c.settled (c.load program autoplay)).machine.isPressed key =
      lastSaid (if (c.load program autoplay).isOk then [] else log) key := by
  by_cases hp : Acceptable program
  · rw [c.load_of_acceptable hp]
    exact Keypad.isPressed_initial key
  · obtain ⟨rejection, hr⟩ := c.load_of_not_acceptable hp autoplay
    rw [hr]
    exact h key

theorem isPressed_setStatus (status : Status) (note : Note) (key : UInt8) :
    (c.setStatus status note).1.machine.isPressed key = c.machine.isPressed key := by
  rw [setStatus]
  split <;> rfl

theorem isPressed_ticked (m : Machine) (budget : Nat) (key : UInt8) :
    (ticked m budget).isPressed key = m.isPressed key := by
  rw [ticked_eq]
  exact m.isPressed_cycle key budget

/-- What an action does to the keys is what it writes to the log. -/
theorem isPressed_next (h : ∀ key, c.machine.isPressed key = lastSaid log key) (action : Action)
    (key : UInt8) :
    (c.next action).machine.isPressed key = lastSaid (c.logged log action) key := by
  cases action with
  | load program autoplay => exact isPressed_load h program autoplay key
  | loadRom chunks autoplay =>
    show (c.settled (c.loadRom chunks autoplay)).machine.isPressed key =
      lastSaid (if (c.loadRom chunks autoplay).isOk then [] else log) key
    obtain ⟨rejection, hr⟩ | ⟨program, -, hr⟩ := c.loadRom_cases chunks autoplay
    · rw [hr]
      exact h key
    · rw [hr]
      exact isPressed_load h program autoplay key
  | play =>
    rw [next, perform, play]
    split
    · exact h key
    · exact (isPressed_setStatus ..).trans (h key)
  | pause => exact (isPressed_setStatus ..).trans (h key)
  | stop => exact (isPressed_setStatus ..).trans (h key)
  | replay =>
    show (c.settled c.replay).machine.isPressed key =
      lastSaid (if c.isLoaded && c.replay.isOk then [] else log) key
    obtain ⟨hnone, hr⟩ | ⟨program, hprogram, hr⟩ := c.replay_cases
    · rw [hr, isLoaded, hnone]
      exact h key
    · rw [hr, isLoaded, hprogram]
      exact isPressed_load h program (c.status != .paused) key
  | reset => exact Keypad.isPressed_initial key
  | setCycles cycles =>
    rw [next, perform, setCycles]
    cases checkCycles cycles <;> exact h key
  | tick =>
    rw [next, perform, tick]
    split
    · exact (isPressed_ticked c.machine c.cycles key).trans (h key)
    · exact h key
  | stepOnce =>
    rw [next, perform, stepOnce]
    split
    · exact (isPressed_ticked c.machine 1 key).trans (h key)
    · exact h key
  | setKey code pressed =>
    rw [next, perform, setKey, logged]
    by_cases hs : c.status = .stopped
    · have hdead : ¬ (c.status = .running ∨ c.status = .paused) := by
        rw [hs]
        decide
      rw [if_pos hs, if_neg fun hand => hdead hand.1]
      exact h key
    · have hlive : c.status = .running ∨ c.status = .paused := by
        cases hstatus : c.status with
        | stopped => exact absurd hstatus hs
        | running => exact .inl rfl
        | paused => exact .inr rfl
      rw [if_neg hs]
      by_cases hcode : code.toNat < 16
      · obtain ⟨m, hm, hpressed⟩ := c.machine.exists_setKey hcode pressed
        rw [hm, if_pos ⟨hlive, hcode⟩, lastSaid_cons, ← h]
        exact hpressed key
      · rw [c.machine.setKey_of_le (Nat.not_lt.mp hcode), if_neg fun hand => hcode hand.2]
        exact h key

theorem isPressed_after (h : ∀ key, c.machine.isPressed key = lastSaid log key)
    (history : List Action) (key : UInt8) :
    (c.after history).machine.isPressed key = lastSaid (c.keyLog log history) key := by
  induction history generalizing c log with
  | nil => exact h key
  | cons action rest ih => exact ih (isPressed_next h action)

/-- Neither a fresh start nor an event for the key that reaches the machine: the log says
what it said. -/
theorem lastSaid_logged {action : Action} (hfresh : c.startsAfresh action = false) {key : UInt8}
    (hother : ∀ pressed, action = .setKey key pressed → c.status = .stopped ∨ 16 ≤ key.toNat) :
    lastSaid (c.logged log action) key = lastSaid log key := by
  cases action with
  | setKey code pressed =>
    rw [logged]
    split
    · next hlive =>
      rw [lastSaid_cons, if_neg]
      rintro rfl
      rcases hother pressed rfl with hstopped | hbeyond
      · rw [hstopped] at hlive
        exact absurd hlive.1 (by decide)
      · exact absurd hlive.2 (Nat.not_lt.mpr hbeyond)
    · rfl
  | _ => exact congrArg (lastSaid · key) (if_neg (t := []) (Bool.eq_false_iff.mp hfresh))

end Steps

/-- A state in which an action executes an instruction has the keys of the console. -/
theorem isPressed_of_mem_trail {c : Console} {action : Action} {s : Machine}
    (hs : s ∈ c.trail action) (key : UInt8) : s.isPressed key = c.machine.isPressed key := by
  obtain ⟨budget, hrun⟩ := exists_of_mem_trail hs
  exact Machine.isPressed_of_mem_trail hrun key

end Console

namespace Machine

open Instruction

variable {s : Machine} {x : Fin 16}

theorem pc_advance_of_skipPressed (h : s.nextWord = wordXNN 0xE x 0x9E) :
    s.advance.registers.pc = s.skipTo (s.isPressed (s.reg x)) := by
  have hnext : s.nextInstruction = .skipPressed x := decode_of_eq_encode trivial h
  rw [advance, hnext]
  exact s.pc_skipIf_advance _

theorem pc_advance_of_skipNotPressed (h : s.nextWord = wordXNN 0xE x 0xA1) :
    s.advance.registers.pc = s.skipTo (!s.isPressed (s.reg x)) := by
  have hnext : s.nextInstruction = .skipNotPressed x := decode_of_eq_encode trivial h
  rw [advance, hnext]
  exact s.pc_skipIf_advance _

end Machine

namespace Console

open Instruction

/-- After any history of a new console a key is pressed if the last event that has reached the
machine for it since the last fresh start says so, and no key beyond the keypad ever is. Only a
fresh start and an event for the key itself that reaches the machine can change that: no
instruction does, and no event while the console is stopped. The two skips on a key go by the same
log, whatever byte they are given for a key. -/
theorem keys_follow_history {config : Config} {random : RandomBytes} {c : Console}
    (hc : ofMachine (.boot config random) = .ok c) (history : List Action) :
    let log := c.keyLog [] history
    let now := c.after history
    (∀ key, now.machine.isPressed key = lastSaid log key) ∧
      (∀ key : UInt8, 16 ≤ key.toNat → now.machine.isPressed key = false) ∧
      (∀ action key, now.startsAfresh action = false →
        (∀ pressed, action = .setKey key pressed → now.status = .stopped ∨ 16 ≤ key.toNat) →
        (now.next action).machine.isPressed key = now.machine.isPressed key) ∧
      ∀ action, ∀ s ∈ now.trail action,
        (∀ key, s.advance.isPressed key = lastSaid log key) ∧
          ∀ x : Fin 16,
            (s.nextWord = wordXNN 0xE x 0x9E → s.advance.registers.pc =
              if lastSaid log (s.reg x) then s.registers.pc + 4 else s.registers.pc + 2) ∧
            (s.nextWord = wordXNN 0xE x 0xA1 → s.advance.registers.pc =
              if lastSaid log (s.reg x) then s.registers.pc + 2 else s.registers.pc + 4) := by
  intro log now
  have hstart : ∀ key, c.machine.isPressed key = lastSaid [] key := by
    intro key
    rw [(eq_of_ofMachine hc).2]
    exact Keypad.isPressed_initial key
  have hnow : ∀ key, now.machine.isPressed key = lastSaid log key :=
    isPressed_after hstart history
  refine ⟨hnow, fun key => now.machine.isPressed_of_le, fun action key hfresh hother => ?_,
    fun action s hs => ⟨fun key => ?_, fun x => ⟨fun hword => ?_, fun hword => ?_⟩⟩⟩
  · rw [isPressed_next hnow action key, lastSaid_logged hfresh hother, hnow]
  · rw [s.isPressed_advance, isPressed_of_mem_trail hs, hnow]
  · rw [Machine.pc_advance_of_skipPressed hword, isPressed_of_mem_trail hs, hnow]
    rfl
  · rw [Machine.pc_advance_of_skipNotPressed hword, isPressed_of_mem_trail hs, hnow]
    cases lastSaid log (s.reg x) <;> rfl

/-- A key is pressed in vain before a program is loaded, then pressed, and let go while the
console is stopped: the program sees it pressed and skips. -/
theorem keys_follow_history_past_stop :
    let history : List Action := [.setKey 5 true, .load [0x60, 0x03, 0xE0, 0x9E] true,
      .setKey 3 true, .setKey 0x10 true, .stop, .setKey 3 false, .play]
    let c := fresh .standard (.ofSeed 7)
    let now := c.after history
    ofMachine (.boot .standard (.ofSeed 7)) = .ok c ∧ c.keyLog [] history = [(3, true)] ∧
      now.machine.isPressed 3 = true ∧ now.machine.isPressed 5 = false ∧
      (now.next .pause).machine.isPressed 3 = true ∧
      ∃ s ∈ now.trail .tick,
        s.nextWord = wordXNN 0xE 0 0x9E ∧ s.advance.registers.pc = 0x206 := by
  intro history c now
  have hc : ofMachine (.boot .standard (.ofSeed 7)) = .ok c := rfl
  have hlog : c.keyLog [] history = [(3, true)] := by decide +kernel
  have hstate : ∃ s ∈ now.trail .tick,
      s.nextWord = wordXNN 0xE 0 0x9E ∧ s.reg 0 = 3 ∧ s.registers.pc = 0x202 := by decide +kernel
  obtain ⟨s, hs, hword, hreg, hpc⟩ := hstate
  obtain ⟨hpressed, -, hkept, hskip⟩ := keys_follow_history hc history
  have hthree : now.machine.isPressed 3 = true := (hpressed 3).trans (hlog ▸ rfl)
  refine ⟨hc, hlog, hthree, (hpressed 5).trans (hlog ▸ rfl), ?_, s, hs, hword, ?_⟩
  · exact (hkept .pause 3 rfl fun _ h => nomatch h).trans hthree
  · rw [((hskip .tick s hs).2 0).1 hword, hlog, hreg, hpc]
    rfl

end Console
end ChipEight
