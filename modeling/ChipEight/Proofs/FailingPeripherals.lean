import ChipEight.Proofs.Calls
import ChipEight.Proofs.InPlace

/-!
Peripherals that fail. Showing a frame, blanking the screen and beeping may each time succeed or
fail, as the peripherals please. Whole sessions, carried out in place, are run against two sets of
peripherals that have nothing in common, with a recorder in front of either. Everything that is
answered, every console in between and all the calls on record are the same, because they are
those of a session that can be foretold without any peripherals.
-/
namespace ChipEight

/-- Peripherals behind a recorder, with the calls on record. -/
structure Recorded (σ : Type) where
  world : σ
  calls : List Call

namespace Recorded

variable {σ : Type} [Peripherals σ]

/-- A call that may fail is put on record whether it fails or not. -/
def attempt (r : Recorded σ) (call : Call) (result : Except String Unit × σ) :
    Except String Unit × Recorded σ :=
  (result.1, ⟨result.2, r.calls ++ [call]⟩)

instance : Peripherals (Recorded σ) where
  render frame r := r.attempt (.render frame) (Peripherals.render frame r.world)
  clear r := r.attempt .clear (Peripherals.clear r.world)
  beep r := r.attempt .beep (Peripherals.beep r.world)
  loaded listing r := ⟨Peripherals.loaded listing r.world, r.calls ++ [.loaded listing]⟩
  forget r := ⟨Peripherals.forget r.world, r.calls ++ [.forget]⟩
  observe observation r :=
    ⟨Peripherals.observe observation r.world, r.calls ++ [.observe observation]⟩
  note n r := ⟨Peripherals.note n r.world, r.calls⟩

theorem settle_attempt (explain : String → Note) (r : Recorded σ) (call : Call)
    (result : Except String Unit × σ) :
    Peripherals.settle explain (r.attempt call result) =
      ⟨Peripherals.settle explain result, r.calls ++ [call]⟩ := by
  obtain ⟨outcome, world⟩ := result
  cases outcome <;> rfl

/-- A signal reaches the peripherals through the recorder, and its call is put on record. -/
theorem receive_eq (r : Recorded σ) (signal : Signal) :
    Peripherals.receive r signal =
      ⟨Peripherals.receive r.world signal, r.calls ++ signal.call?.toList⟩ := by
  cases signal with
  | render frame => exact settle_attempt ..
  | clear => exact settle_attempt ..
  | beep => exact settle_attempt ..
  | loaded listing => rfl
  | forget => rfl
  | observe observation => rfl
  | note n => exact congrArg (Recorded.mk _) (List.append_nil r.calls).symm

theorem deliver_eq (r : Recorded σ) (signals : List Signal) :
    Peripherals.deliver r signals =
      ⟨Peripherals.deliver r.world signals, r.calls ++ callsIn signals⟩ := by
  induction signals generalizing r with
  | nil => exact congrArg (Recorded.mk _) (List.append_nil r.calls).symm
  | cons signal rest ih =>
    have hfirst : Peripherals.deliver r (signal :: rest) =
        Peripherals.deliver (Peripherals.receive r signal) rest := rfl
    rw [hfirst, receive_eq, ih, callsIn_cons, List.append_assoc]
    rfl

end Recorded

namespace InPlace

variable {σ : Type} [Peripherals σ]

open Console (Acted)

def acted (c : Console) (world : σ) (action : Action) : Acted σ :=
  match (perform action).run (c, world) with
  | .ok () (d, left) => ⟨none, d, left⟩
  | .error rejection (d, left) => ⟨some rejection, d, left⟩

def session (c : Console) (world : σ) : List Action → List (Acted σ)
  | [] => []
  | action :: rest =>
    let first := acted c world action
    first :: session first.console first.world rest

theorem acted_eq (c : Console) (world : σ) (action : Action) :
    acted c world action = c.act world action := by
  rw [acted, run_perform, Console.act]
  cases c.perform action <;> rfl

end InPlace

namespace Console

structure Account where
  refusal : Option Rejection
  console : Console
  calls : List Call

def Acted.account {σ : Type} (acted : Acted (Recorded σ)) : Account :=
  ⟨acted.refusal, acted.console, acted.world.calls⟩

def Acted.unrecorded {σ : Type} (acted : Acted (Recorded σ)) : Acted σ :=
  ⟨acted.refusal, acted.console, acted.world.world⟩

/-- The accounts of a session as they are foretold, with some calls made before it. -/
def foretold (c : Console) (made : List Call) : List Action → List Account
  | [] => []
  | action :: rest =>
    let made := made ++ c.callsOf action
    ⟨Rejection.ofResult (c.perform action), c.next action, made⟩ ::
      (c.next action).foretold made rest

section Recorded

variable {σ : Type} [Peripherals σ]

theorem act_recorded (c : Console) (r : Recorded σ) (action : Action) :
    c.act r action =
      ⟨Rejection.ofResult (c.perform action), c.next action,
        ⟨(c.act r.world action).world, r.calls ++ c.callsOf action⟩⟩ := by
  rw [← callsIn_signals, act_world, ← Recorded.deliver_eq, act, next, signals]
  cases c.perform action <;> rfl

/-- The peripherals have no say in what is on record. -/
theorem session_account (c : Console) (r : Recorded σ) (actions : List Action) :
    (InPlace.session c r actions).map Acted.account = c.foretold r.calls actions := by
  induction actions generalizing c r with
  | nil => rfl
  | cons action rest ih =>
    rw [InPlace.session, InPlace.acted_eq, act_recorded, List.map_cons, ih]
    rfl

/-- The recorder has no say in what the peripherals come to. -/
theorem session_unrecorded (c : Console) (r : Recorded σ) (actions : List Action) :
    (InPlace.session c r actions).map Acted.unrecorded = InPlace.session c r.world actions := by
  induction actions generalizing c r with
  | nil => rfl
  | cons action rest ih =>
    have hact : (c.act r action).unrecorded = c.act r.world action := by
      rw [act_recorded, Acted.unrecorded, act, next]
      cases c.perform action <;> rfl
    rw [InPlace.session, InPlace.session, InPlace.acted_eq, InPlace.acted_eq, List.map_cons, ih,
      hact, ← hact]
    rfl

/-- Any console, any session, and two sets of peripherals whose calls fail or succeed however they
like. With a recorder in front of either, the answers, the consoles after every action and the
calls on record by then are the same. They are the foretold ones: a tick that runs shows a changed
frame, beeps if the sound has run out, and is observed; an acceptable load blanks the screen, has
the observer forget, tells it the new listing, and is carried out. Either recorder is without
effect on the peripherals behind it. -/
theorem failures_stay_outside {τ : Type} [Peripherals τ] (c : Console) (world : σ) (other : τ)
    (actions : List Action) :
    let first := InPlace.session c (Recorded.mk world []) actions
    let second := InPlace.session c (Recorded.mk other []) actions
    first.map Acted.account = second.map Acted.account ∧
      first.map Acted.account = c.foretold [] actions ∧
      first.map Acted.unrecorded = InPlace.session c world actions ∧
      second.map Acted.unrecorded = InPlace.session c other actions := by
  intro first second
  have hfirst : first.map Acted.account = c.foretold [] actions := c.session_account _ actions
  have hsecond : second.map Acted.account = c.foretold [] actions := c.session_account _ actions
  exact ⟨hfirst.trans hsecond.symm, hfirst, c.session_unrecorded _ actions,
    c.session_unrecorded _ actions⟩

end Recorded

end Console

/-- Peripherals that do nothing but fail as planned, call by call, and count the failures that
come back to them as notes. Without a plan every call succeeds. -/
structure Flaky where
  plan : List Bool
  failures : Nat

namespace Flaky

def attempt (f : Flaky) : Except String Unit × Flaky :=
  (if f.plan.headD false then .error "out of order" else .ok (), { f with plan := f.plan.tail })

instance : Peripherals Flaky where
  render _ := attempt
  clear := attempt
  beep := attempt
  loaded _ f := f
  forget f := f
  observe _ f := f
  note n f :=
    match n with
    | .renderFailed _ | .clearFailed _ | .beepFailed _ => { f with failures := f.failures + 1 }
    | _ => f

end Flaky

namespace Console

/-- A program that draws a digit and sets the sound timer to one. Blanking, showing and beeping
all fail on one side, and nothing does on the other. -/
theorem failures_stay_outside_of_broken_devices :
    let c := fresh (.chosen [.display 8 5]) (.ofSeed 7)
    let actions := [.load [0x60, 0x01, 0xF0, 0x18, 0xD0, 0x05] true, .tick]
    let broken := InPlace.session c (Recorded.mk (Flaky.mk [true, true, true] 0) []) actions
    let intact := InPlace.session c (Recorded.mk (Flaky.mk [] 0) []) actions
    broken.map (fun acted => acted.world.world.failures) = [1, 3] ∧
      intact.map (fun acted => acted.world.world.failures) = [0, 0] ∧
      broken.map (fun acted => acted.world.calls.length) = [3, 6] ∧
      broken.map Acted.account = intact.map Acted.account := by
  intro c actions broken intact
  exact ⟨by decide +kernel, by decide +kernel, by decide +kernel,
    (failures_stay_outside c _ _ actions).1⟩

end Console
end ChipEight
