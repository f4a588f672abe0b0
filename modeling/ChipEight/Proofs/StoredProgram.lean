import ChipEight.Proofs.History

/-!
The program a console holds. It can be told from the history alone: it is the last accepted one
since the last reset. Being accepted once it is accepted again, so a replay never fails.
-/
namespace ChipEight.Console

def heldAfter (held : Option (List UInt8)) : Action → Option (List UInt8)
  | .load program _ => if Acceptable program then some program else held
  | .loadRom chunks _ =>
    match Rom.read chunks with
    | .ok program => if Acceptable program then some program else held
    | .error _ => held
  | .reset => none
  | _ => held

/-- The last program that a history has loaded and not forgotten. -/
def lastLoaded (history : List Action) : Option (List UInt8) := history.foldl heldAfter none

def HoldsAcceptable (c : Console) : Prop :=
  ∀ program, c.program = some program → Acceptable program

theorem holdsAcceptable_of_program_eq_none {c : Console} (h : c.program = none) :
    c.HoldsAcceptable := by
  intro program hprogram
  rw [h] at hprogram
  cases hprogram

theorem holdsAcceptable_next {c : Console} (h : c.HoldsAcceptable) (action : Action) :
    (c.next action).HoldsAcceptable := by
  refine perform_cases (Q := fun _ outcome => (c.settled outcome).HoldsAcceptable) (fun _ => h) h
    (fun _ _ _ => h) (fun _ _ _ => h) (fun program autoplay hp => ?_) ?_ (fun _ => h)
    (fun _ _ => h) (fun _ _ _ _ _ => h) action
  · intro stored hstored
    cases hstored
    exact hp
  · intro stored hstored
    cases hstored

theorem program_load (c : Console) (program : List UInt8) (autoplay : Bool) :
    (c.settled (c.load program autoplay)).program =
      if Acceptable program then some program else c.program := by
  by_cases hp : Acceptable program
  · rw [c.load_of_acceptable hp, if_pos hp]
    rfl
  · obtain ⟨rejection, hr⟩ := c.load_of_not_acceptable hp autoplay
    rw [hr, if_neg hp]
    rfl

theorem program_setStatus (c : Console) (status : Status) (note : Note) :
    (c.setStatus status note).1.program = c.program := by
  unfold setStatus
  split <;> rfl

theorem program_next {c : Console} (h : c.HoldsAcceptable) (action : Action) :
    (c.next action).program = heldAfter c.program action := by
  cases action with
  | load program autoplay => exact c.program_load program autoplay
  | loadRom chunks autoplay =>
    rw [next, perform, loadRom, heldAfter]
    cases Rom.read chunks with
    | error rejection => rfl
    | ok program => exact c.program_load program autoplay
  | play =>
    by_cases hs : c.status = .running
    · rw [next, perform, play, if_pos hs]
      rfl
    · rw [next, perform, play, if_neg hs]
      exact c.program_setStatus ..
  | pause => exact c.program_setStatus ..
  | stop => exact c.program_setStatus ..
  | replay =>
    obtain ⟨-, hr⟩ | ⟨program, hprogram, hr⟩ := c.replay_cases
    · rw [next, perform, hr]
      rfl
    · rw [next, perform, hr, program_load, if_pos (h program hprogram)]
      exact hprogram.symm
  | reset => rfl
  | setCycles cycles =>
    rw [next, perform, setCycles]
    cases checkCycles cycles <;> rfl
  | tick =>
    rw [next, perform, tick]
    split <;> rfl
  | stepOnce =>
    rw [next, perform, stepOnce]
    split <;> rfl
  | setKey key pressed =>
    by_cases hs : c.status = .stopped
    · rw [next, perform, setKey, if_pos hs]
      rfl
    · rw [next, perform, setKey, if_neg hs]
      cases c.machine.setKey key pressed <;> rfl

theorem program_after {c : Console} (h : c.HoldsAcceptable) (history : List Action) :
    (c.after history).program = history.foldl heldAfter c.program ∧
      (c.after history).HoldsAcceptable := by
  induction history generalizing c with
  | nil => exact ⟨rfl, h⟩
  | cons action rest ih =>
    have hrest := ih (holdsAcceptable_next h action)
    rw [program_next h] at hrest
    exact hrest

theorem program_after_ofMachine {m : Machine} {c : Console} (h : ofMachine m = .ok c)
    (history : List Action) :
    (c.after history).program = lastLoaded history ∧ (c.after history).HoldsAcceptable := by
  have hstart : c.program = none := by rw [(eq_of_ofMachine h).2]
  have hafter := program_after (holdsAcceptable_of_program_eq_none hstart) history
  rwa [hstart] at hafter

/-- From the start on, a console holds the last loaded program, and that program is acceptable. -/
theorem program_after_fresh (config : Config) (random : RandomBytes) (history : List Action) :
    ((fresh config random).after history).program = lastLoaded history ∧
      ((fresh config random).after history).HoldsAcceptable :=
  program_after (holdsAcceptable_of_program_eq_none rfl) history

end ChipEight.Console
