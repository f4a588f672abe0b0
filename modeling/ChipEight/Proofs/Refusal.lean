import ChipEight.Proofs.InPlace
import ChipEight.Proofs.Screen
import ChipEight.Proofs.StoredProgram

/-!
Refused operations. A console refuses a program that is empty or does not fit into memory, a
program file that cannot be read, a number of cycles outside of its bounds, and a key that is not
on the keypad unless it is stopped; it refuses nothing else. A refusal comes before anything has
been written or anybody has been called.
-/
namespace ChipEight

namespace Chunk

def content : Chunk → List UInt8
  | bytes content => content
  | interrupted | failed _ => []

def cause? : Chunk → Option String
  | failed cause => some cause
  | bytes _ | interrupted => none

end Chunk

namespace Rom

def beforeEnd (chunks : List Chunk) : List Chunk := chunks.takeWhile (· != .bytes [])

def failure (chunks : List Chunk) : Option String := (beforeEnd chunks).findSome? Chunk.cause?

/-- The bytes before the end of the source, however they are divided into chunks. -/
def delivered (chunks : List Chunk) : List UInt8 := (beforeEnd chunks).flatMap Chunk.content

theorem read_eq (chunks : List Chunk) :
    read chunks =
      (failure chunks).elim (.ok (delivered chunks)) fun cause => .error (.unreadable cause) := by
  induction chunks with
  | nil => rfl
  | cons chunk rest ih =>
    cases chunk with
    | bytes content =>
      cases content with
      | nil => rfl
      | cons byte more =>
        have hfailure : failure (.bytes (byte :: more) :: rest) = failure rest := rfl
        have hdelivered : delivered (.bytes (byte :: more) :: rest) =
            byte :: more ++ delivered rest := rfl
        rw [read, ih, hfailure, hdelivered]
        · cases failure rest <;> rfl
        · intro hempty
          cases hempty
    | interrupted => exact ih
    | failed cause => rfl

theorem read_of_failure {chunks : List Chunk} {cause : String}
    (h : failure chunks = some cause) : read chunks = .error (.unreadable cause) := by
  rw [read_eq, h, Option.elim_some]

theorem read_of_failure_eq_none {chunks : List Chunk} (h : failure chunks = none) :
    read chunks = .ok (delivered chunks) := by
  rw [read_eq, h, Option.elim_none]

end Rom

def programRefusal (program : List UInt8) : Option Rejection :=
  if program.length = 0 then some .emptyProgram
  else if 3584 < program.length then some (.programTooLarge program.length)
  else none

theorem programRefusal_eq_none_iff (program : List UInt8) :
    programRefusal program = none ↔ Acceptable program := by
  unfold programRefusal Acceptable
  have hroom : Layout.maxProgramSize = 3584 := rfl
  rw [hroom]
  split
  · next hempty => simp [hempty]
  · next hne =>
    split
    · next hlarge => simp [Nat.not_le.mpr hlarge]
    · next hfits => simp [Nat.not_lt.mp hfits, Nat.one_le_iff_ne_zero.mpr hne]

theorem Memory.ofResult_load (m : Memory) (program : List UInt8) :
    Rejection.ofResult (m.load program) = programRefusal program := by
  have hroom : Layout.maxProgramSize = 3584 := rfl
  rw [load, programRefusal, hroom]
  by_cases hempty : program = []
  · rw [if_pos hempty, if_pos (List.length_eq_zero_iff.mpr hempty)]
    rfl
  · rw [if_neg hempty, if_neg (mt List.length_eq_zero_iff.mp hempty)]
    by_cases hlarge : 3584 < program.length
    · rw [if_pos hlarge, if_pos hlarge]
      rfl
    · rw [if_neg hlarge, if_neg hlarge]
      rfl

theorem ofResult_checkCycles (cycles : Nat) :
    Rejection.ofResult (checkCycles cycles) =
      if 1 ≤ cycles ∧ cycles ≤ 30 then none else some (.cyclesOutOfRange cycles) := by
  rw [checkCycles]
  change Rejection.ofResult (if 1 ≤ cycles ∧ cycles ≤ 30 then _ else _) = _
  split <;> rfl

theorem Machine.ofResult_setKey (m : Machine) (key : UInt8) (pressed : Bool) :
    Rejection.ofResult (m.setKey key pressed) =
      if 0xF < key.toNat then some (.keyOutOfRange key) else none := by
  by_cases hkey : key.toNat < 16
  · rw [if_neg (by omega), setKey, Keypad.setKey, dif_pos hkey]
    cases m.keypad.awaited pressed <;> rfl
  · rw [if_pos (by omega), m.setKey_of_le (Nat.not_lt.mp hkey)]
    rfl

namespace Console

def refusal (c : Console) : Action → Option Rejection
  | .load program _ => programRefusal program
  | .loadRom chunks _ =>
    match Rom.failure chunks with
    | some cause => some (.unreadable cause)
    | none => programRefusal (Rom.delivered chunks)
  | .setCycles cycles =>
    if 1 ≤ cycles ∧ cycles ≤ 30 then none else some (.cyclesOutOfRange cycles)
  | .setKey key _ =>
    if c.status ≠ .stopped ∧ 0xF < key.toNat then some (.keyOutOfRange key) else none
  | _ => none

theorem ofResult_load (c : Console) (program : List UInt8) (autoplay : Bool) :
    Rejection.ofResult (c.load program autoplay) = programRefusal program := by
  rw [load, Machine.load, ← Memory.initial.ofResult_load]
  cases Memory.initial.load program <;> rfl

theorem ofResult_replay {c : Console} (h : c.HoldsAcceptable) :
    Rejection.ofResult c.replay = none := by
  obtain ⟨-, hr⟩ | ⟨program, hprogram, hr⟩ := c.replay_cases
  · rw [hr]
    rfl
  · rw [hr, ofResult_load]
    exact (programRefusal_eq_none_iff program).mpr (h program hprogram)

theorem loadRom_of_failure_eq_none (c : Console) {chunks : List Chunk}
    (h : Rom.failure chunks = none) (autoplay : Bool) :
    c.loadRom chunks autoplay = c.load (Rom.delivered chunks) autoplay := by
  rw [loadRom, Rom.read_of_failure_eq_none h]

theorem ofResult_perform {c : Console} (h : c.HoldsAcceptable) (action : Action) :
    Rejection.ofResult (c.perform action) = c.refusal action := by
  cases action with
  | load program autoplay => exact c.ofResult_load program autoplay
  | loadRom chunks autoplay =>
    rw [perform, refusal]
    cases hfailure : Rom.failure chunks with
    | some cause =>
      rw [loadRom, Rom.read_of_failure hfailure]
      rfl
    | none =>
      rw [c.loadRom_of_failure_eq_none hfailure]
      exact c.ofResult_load (Rom.delivered chunks) autoplay
  | replay => exact ofResult_replay h
  | setCycles cycles =>
    rw [perform, setCycles, refusal, ← ofResult_checkCycles]
    cases checkCycles cycles <;> rfl
  | setKey key pressed =>
    rw [perform, setKey, refusal]
    by_cases hstopped : c.status = .stopped
    · rw [if_pos hstopped, if_neg fun h => h.1 hstopped]
      rfl
    · have hkey := c.machine.ofResult_setKey key pressed
      simp only [ne_eq, hstopped, not_false_eq_true, true_and, if_false]
      rw [← hkey]
      cases c.machine.setKey key pressed <;> rfl
  | _ => rfl

section Peripherals

variable {σ : Type} [Peripherals σ]

theorem act_of_error {c : Console} {action : Action} {rejection : Rejection}
    (h : c.perform action = .error rejection) (world : σ) :
    c.act world action = ⟨some rejection, c, world⟩ := by
  rw [act, h]

theorem refusal_act (c : Console) (world : σ) (action : Action) :
    (c.act world action).refusal = Rejection.ofResult (c.perform action) := by
  rw [act]
  cases c.perform action <;> rfl

/-- Carried out in place, an action ends where the console and the peripherals are after it. -/
theorem run_inPlace (c : Console) (world : σ) (action : Action) :
    (InPlace.perform action).run (c, world) =
      match Rejection.ofResult (c.perform action) with
      | some rejection => .error rejection (c, world)
      | none => .ok () ((c.act world action).console, (c.act world action).world) := by
  rw [InPlace.run_perform, act]
  cases c.perform action <;> rfl

/-- A console that has come into being, after any history. Whatever it is asked for next, the
refusal is the one that the request calls for. A refused action, carried out in place, ends where
it began: no part of the console has been written, no peripheral has been called, and everything
later goes on as if it had not been asked for. A program file that can be read is loaded as the
bytes that it delivers, however they come in chunks. -/
theorem refusals_change_nothing {m : Machine} {c : Console} (h : ofMachine m = .ok c)
    (history : List Action) (world : σ) (action : Action) :
    let d := c.after history
    (d.act world action).refusal = d.refusal action ∧
      (InPlace.perform action).run (d, world) =
        (match d.refusal action with
        | some rejection => .error rejection (d, world)
        | none => .ok () ((d.act world action).console, (d.act world action).world)) ∧
      (d.refusal action ≠ none →
        ∀ later, d.actAll world (action :: later) = d.actAll world later) ∧
      ∀ chunks autoplay, Rom.failure chunks = none →
        d.loadRom chunks autoplay = d.load (Rom.delivered chunks) autoplay := by
  intro d
  have hholds : d.HoldsAcceptable := (program_after_ofMachine h history).2
  have hrefusal := ofResult_perform hholds action
  refine ⟨?_, ?_, fun hrefused later => ?_,
    fun chunks autoplay hread => d.loadRom_of_failure_eq_none hread autoplay⟩
  · rw [refusal_act, hrefusal]
  · rw [run_inPlace, hrefusal]
  · cases hperform : d.perform action with
    | ok outcome =>
      rw [hperform] at hrefusal
      exact absurd hrefusal.symm hrefused
    | error rejection => rw [actAll, act_of_error hperform]

end Peripherals

/-- While the screen shows a drawing, a program file turns out to be unreadable behind its
first byte. -/
theorem refusals_change_nothing_of_shown_drawing :
    let actions := [.load [0xD1, 0x11, 0xF3, 0x0A] true, .tick]
    let broken := Action.loadRom [.bytes [0x12], .interrupted, .failed "gone"] true
    ∃ c, ofMachine (.boot (.chosen [.display 3 2]) (.ofSeed 7)) = .ok c ∧
      (c.actAll (Screen.mk (.replicate 6 false)) actions).2.pixels =
        #[false, true, true, false, false, false] ∧
      (InPlace.perform broken).run (c.actAll (Screen.mk (.replicate 6 false)) actions) =
        .error (.unreadable "gone") (c.actAll (Screen.mk (.replicate 6 false)) actions) := by
  intro actions broken
  let config := Config.chosen [.display 3 2]
  have hc : ofMachine (.boot config (.ofSeed 7)) = .ok (fresh config (.ofSeed 7)) :=
    ofMachine_boot (Config.accepted_chosen _) _
  refine ⟨_, hc, by decide +kernel, ?_⟩
  have hend := actAll_console (fresh config (.ofSeed 7)) (Screen.mk (.replicate 6 false)) actions
  have hcause : ((fresh config (.ofSeed 7)).after actions).refusal broken =
      some (.unreadable "gone") := rfl
  have hrun := (refusals_change_nothing hc actions
    ((fresh config (.ofSeed 7)).actAll (Screen.mk (.replicate 6 false)) actions).2 broken).2.1
  rw [hcause, ← hend, Prod.eta] at hrun
  exact hrun

end Console
end ChipEight
