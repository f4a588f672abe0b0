import ChipEight.Proofs.Screen

/-!
The calls that the peripherals of a console receive, without what goes to the journal: which calls
each action makes, and what becomes of a part of the peripherals that goes by the calls alone.
-/
namespace ChipEight

inductive Call
  | render (frame : Frame)
  | clear
  | beep
  | loaded (listing : Listing)
  | forget
  | observe (observation : Observation)

/-- The call that a signal makes; what goes to the journal is not one. -/
def Signal.call? : Signal → Option Call
  | render frame => some (.render frame)
  | clear => some .clear
  | beep => some .beep
  | loaded listing => some (.loaded listing)
  | forget => some .forget
  | observe observation => some (.observe observation)
  | note _ => none

def callsIn (signals : List Signal) : List Call := signals.filterMap Signal.call?

theorem callsIn_cons (signal : Signal) (rest : List Signal) :
    callsIn (signal :: rest) = signal.call?.toList ++ callsIn rest := by
  rw [callsIn, List.filterMap_cons]
  cases signal.call? <;> rfl

theorem callsIn_append (first second : List Signal) :
    callsIn (first ++ second) = callsIn first ++ callsIn second := List.filterMap_append

theorem callsIn_notes (list : List Note) : callsIn (Console.notes list) = [] := by
  rw [callsIn, List.filterMap_eq_nil_iff]
  intro signal hsignal
  obtain ⟨n, -, rfl⟩ := List.mem_map.mp hsignal
  rfl

namespace Peripherals

variable {σ α : Type} [Peripherals σ]

/-- A part of the peripherals that takes this step with every call, whether the call fails or not,
and is not touched by the journal. -/
def Follows (part : σ → α) (step : α → Call → α) : Prop :=
  ∀ (world : σ) (signal : Signal),
    part (receive world signal) = signal.call?.elim (part world) (step (part world))

theorem Follows.part_deliver {part : σ → α} {step : α → Call → α} (h : Follows part step)
    (world : σ) (signals : List Signal) :
    part (deliver world signals) = (callsIn signals).foldl step (part world) := by
  induction signals generalizing world with
  | nil => rfl
  | cons signal rest ih =>
    have hfirst : part (deliver world (signal :: rest)) =
        (callsIn rest).foldl step (part (receive world signal)) := ih (receive world signal)
    rw [hfirst, h, callsIn_cons, List.foldl_append]
    cases signal.call? <;> rfl

end Peripherals

namespace Console

def loadCalls (program : List UInt8) : List Call :=
  if Acceptable program then [.clear, .forget, .loaded (.ofProgram program)] else []

/-- The calls of a run before its report: a changed frame is shown, and a sound that has
run out beeps. -/
def showCalls (c : Console) (budget : Nat) : List Call :=
  ((c.machine.tick budget).2.takeFrame.1.map Call.render).toList ++
    if (c.machine.tick budget).1.beep then [.beep] else []

def reportOf (c : Console) (budget : Nat) : Observation :=
  c.watch.observe (ticked c.machine budget).registers (c.machine.tick budget).1.executed

def runCalls (c : Console) (budget : Nat) : List Call :=
  c.showCalls budget ++ [.observe (c.reportOf budget)]

def callsOf (c : Console) : Action → List Call
  | .load program _ => loadCalls program
  | .loadRom chunks _ =>
    match Rom.read chunks with
    | .ok program => loadCalls program
    | .error _ => []
  | .replay =>
    match c.program with
    | some program => loadCalls program
    | none => []
  | .reset => [.clear, .forget]
  | .tick => if c.status = .running then c.runCalls c.cycles else []
  | .stepOnce => if c.isLoaded && !c.machine.isAwaiting then c.runCalls 1 else []
  | _ => []

theorem callsIn_load (c : Console) (program : List UInt8) (autoplay : Bool) :
    callsIn (sent (c.load program autoplay)) = loadCalls program := by
  by_cases hacceptable : Acceptable program
  · rw [c.load_of_acceptable hacceptable, loadCalls, if_pos hacceptable]
    rfl
  · obtain ⟨rejection, hload⟩ := c.load_of_not_acceptable hacceptable autoplay
    rw [hload, loadCalls, if_neg hacceptable]
    rfl

theorem callsIn_setStatus (c : Console) (status : Status) (n : Note) :
    callsIn (c.setStatus status n).2 = [] := by
  rw [setStatus]
  cases c.isLoaded <;> rfl

theorem callsIn_runTick (c : Console) (budget : Nat) :
    callsIn (c.runTick budget).2 = c.runCalls budget := by
  rw [runTick_signals, callsIn_append, callsIn_append, callsIn_append, callsIn_notes, runCalls,
    showCalls]
  cases (c.machine.tick budget).2.takeFrame.1 <;> cases (c.machine.tick budget).1.beep <;> rfl

theorem callsIn_signals (c : Console) (action : Action) :
    callsIn (c.signals action) = c.callsOf action := by
  cases action with
  | load program autoplay => exact c.callsIn_load program autoplay
  | loadRom chunks autoplay =>
    rw [signals, perform, loadRom, callsOf]
    cases Rom.read chunks with
    | error rejection => rfl
    | ok program => exact c.callsIn_load program autoplay
  | play =>
    rw [signals, perform, play]
    by_cases hrunning : c.status = .running
    · rw [if_pos hrunning]
      rfl
    · rw [if_neg hrunning]
      exact c.callsIn_setStatus .running .playing
  | pause => exact c.callsIn_setStatus .paused .pausing
  | stop => exact c.callsIn_setStatus .stopped .stopping
  | replay =>
    rw [signals, perform, replay, callsOf]
    cases c.program with
    | none => rfl
    | some program => exact c.callsIn_load program (c.status != .paused)
  | reset => rfl
  | setCycles cycles =>
    rw [signals, perform, setCycles]
    cases checkCycles cycles <;> rfl
  | tick =>
    rw [signals, perform, tick, callsOf]
    by_cases hrunning : c.status = .running
    · rw [if_pos hrunning, if_pos hrunning]
      exact c.callsIn_runTick c.cycles
    · rw [if_neg hrunning, if_neg hrunning]
      rfl
  | stepOnce =>
    rw [signals, perform, stepOnce, callsOf]
    by_cases hready : (c.isLoaded && !c.machine.isAwaiting) = true
    · rw [if_pos hready, if_pos hready]
      exact callsIn_runTick { c with status := .paused } 1
    · rw [if_neg hready, if_neg hready]
      rfl
  | setKey key pressed =>
    rw [signals, perform, setKey]
    by_cases hstopped : c.status = .stopped
    · rw [if_pos hstopped]
      rfl
    · rw [if_neg hstopped]
      cases c.machine.setKey key pressed with
      | error rejection => rfl
      | ok m => exact callsIn_notes _

/-- A part of the peripherals that matches the console matches it after any history, if the calls
of one action keep it so. -/
theorem part_actAll {σ α : Type} [Peripherals σ] {part : σ → α} {step : α → Call → α}
    (hpart : Peripherals.Follows part step) {view : Console → α}
    (hnext : ∀ c action, (callsIn (c.signals action)).foldl step (view c) = view (c.next action))
    (actions : List Action) {c : Console} {world : σ} (h : part world = view c) :
    part (c.actAll world actions).2 = view (c.actAll world actions).1 := by
  induction actions generalizing c world with
  | nil => exact h
  | cons action rest ih =>
    apply ih
    rw [act_console, act_world, hpart.part_deliver, h]
    exact hnext c action

end Console
end ChipEight
