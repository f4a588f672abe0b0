import ChipEight.Proofs.Bare.Machine
import ChipEight.Proofs.History

/-!
The console over plain data. A load builds the fresh machine, checks and copies the program, and
only then computes the sixteen-bit addresses of its listing; a report compares sixteen registers
one by one. For a console whose budget and whose frame are within their bounds no action breaks
down, so no history does.
-/
namespace ChipEight

namespace Bare

/-- Twice the index of a listed word behind the start of programs, in sixteen-bit arithmetic. -/
def listedAddress (index : Nat) : Guarded UInt16 := do
  let offset ← fit 16 (2 * (index % 2 ^ 16))
  let address ← fit 16 (Layout.programStart.toNat + offset)
  return UInt16.ofNat address

def listing (program : List UInt8) : Guarded Listing :=
  (Listing.pairs program).zipIdx.mapM fun entry => do
    let address ← listedAddress entry.2
    return { index := entry.2, address, word := Word.ofBytes entry.1.1 entry.1.2 }

structure Observation where
  executed : List Nat
  changed : List (Nat × UInt8)
  index : Option UInt16
  pc : UInt16

structure Watch where
  v : Array UInt8
  i : UInt16

namespace Watch

def initial : Watch := ⟨Array.replicate 16 0, 0⟩

def observe (w : Watch) (r : Registers) (executed : List Nat) : Guarded Observation := do
  allocate (wordBits / 8 * executed.length)
  let changed ← (List.range 16).filterMapM fun x => do
    let now ← get r.v x
    let before ← get w.v x
    return if now = before then none else some (x, now)
  return {
    executed := executed.eraseDups
    changed
    index := if r.i = w.i then none else some r.i
    pc := r.pc }

end Watch

structure Console where
  machine : Machine
  cycles : Nat
  watch : Watch
  program : Option (List UInt8)
  listing : Listing
  status : Status

namespace Console

def new (config : Config) (random : RandomBytes) : Guarded (Except Rejection Console) := do
  let machine ← Machine.boot config random
  match checkCycles config.cycles with
  | .error rejection => return .error rejection
  | .ok cycles => return .ok {
      machine, cycles, watch := .initial, program := none, listing := [], status := .stopped }

/-- The listing is computed once the program has been accepted. -/
def load (c : Console) (program : List UInt8) (autoplay : Bool) :
    Guarded (Except Rejection Console) := do
  let loaded ← c.machine.load program
  match loaded with
  | .error rejection => return .error rejection
  | .ok machine => do
    let listing ← Bare.listing program
    return .ok { c with
      machine, listing
      watch := .initial
      program := some program
      status := if autoplay then .running else .stopped }

def loadRom (c : Console) (chunks : List Chunk) (autoplay : Bool) :
    Guarded (Except Rejection Console) :=
  match Rom.read chunks with
  | .error rejection => return .error rejection
  | .ok program => c.load program autoplay

def setStatus (c : Console) (status : Status) : Console :=
  if c.program.isSome then { c with status } else c

def replay (c : Console) : Guarded (Except Rejection Console) :=
  match c.program with
  | none => return .ok c
  | some program => c.load program (c.status != .paused)

def reset (c : Console) : Guarded Console := do
  let machine ← c.machine.reset
  return { c with machine, watch := .initial, program := none, listing := [], status := .stopped }

def runTick (c : Console) (budget : Nat) : Guarded (Console × Observation) := do
  let (tick, machine) ← c.machine.tick budget
  let machine := machine.takeFrame
  let observation ← c.watch.observe machine.registers tick.executed
  return ({ c with machine, watch := ⟨machine.registers.v, machine.registers.i⟩ }, observation)

/-- The console after a run, its report left aside. -/
def run (c : Console) (budget : Nat) : Guarded Console := do
  let (console, _) ← c.runTick budget
  return console

def isAwaiting (c : Console) : Bool :=
  match c.machine.keypad.execution with
  | .running => false
  | .awaitingKey _ => true

def tick (c : Console) : Guarded Console :=
  if c.status = .running then c.run c.cycles else return c

def stepOnce (c : Console) : Guarded Console :=
  if c.program.isSome && !c.isAwaiting then { c with status := .paused }.run 1 else return c

def setKey (c : Console) (key : UInt8) (pressed : Bool) : Guarded (Except Rejection Console) :=
  if c.status = .stopped then return .ok c
  else do
    let taken ← c.machine.setKey key pressed
    return taken.map fun machine => { c with machine }

def perform (c : Console) : Action → Guarded (Except Rejection Console)
  | .load program autoplay => c.load program autoplay
  | .loadRom chunks autoplay => c.loadRom chunks autoplay
  | .play => return .ok (c.setStatus .running)
  | .pause => return .ok (c.setStatus .paused)
  | .stop => return .ok (c.setStatus .stopped)
  | .replay => c.replay
  | .reset => do
    let c ← c.reset
    return .ok c
  | .setCycles cycles => return (checkCycles cycles).map fun cycles => { c with cycles }
  | .tick => do
    let c ← c.tick
    return .ok c
  | .stepOnce => do
    let c ← c.stepOnce
    return .ok c
  | .setKey key pressed => c.setKey key pressed

def next (c : Console) (action : Action) : Guarded Console := do
  let outcome ← c.perform action
  match outcome with
  | .ok console => return console
  | .error _ => return c

def after (c : Console) (actions : List Action) : Guarded Console := actions.foldlM next c

end Console
end Bare

namespace Listing

open Bare

theorem listedAddress_eq {index : Nat} (h : index < 0x7F00) :
    listedAddress index = .ok (Layout.programStart + 2 * UInt16.ofNat index) := by
  have hindex : index % 2 ^ 16 = index := Nat.mod_eq_of_lt (by omega)
  have hstart : Layout.programStart.toNat = 512 := rfl
  rw [listedAddress, hindex, fit_eq_ok (by omega), ok_bind, fit_eq_ok (by omega), ok_bind,
    pure_eq_ok, UInt16.ofNat_add, UInt16.ofNat_mul]
  rfl

example : listedAddress 0x7F00 = .error (.overflow 16 0x10000) := by cbv

/-- A program that fits into memory has a listing. -/
theorem listing_eq {program : List UInt8} (h : program.length ≤ Layout.maxProgramSize) :
    listing program = .ok (ofProgram program) := by
  have hlength : program.length ≤ 3584 := h
  have hpairs := length_pairs program
  rw [listing, ofProgram, List.mapIdx_eq_zipIdx_map]
  refine mapM_eq_ok fun entry hentry => ?_
  have hindex : entry.2 < (pairs program).length := List.snd_lt_of_mem_zipIdx hentry
  rw [listedAddress_eq (by omega)]
  rfl

end Listing

namespace Watch

open Bare

def bare (w : Watch) : Bare.Watch := ⟨w.v.toArray, w.i⟩

end Watch

namespace Observation

def bare (o : Observation) : Bare.Observation :=
  ⟨o.executed, o.changed.map fun entry => (entry.1.val, entry.2), o.index, o.pc⟩

end Observation

namespace Watch

open Bare

theorem observe_bare (w : Watch) (r : Registers) {executed : List Nat}
    (h : executed.length ≤ Layout.maxCycles) :
    w.bare.observe r.bare executed = .ok (w.observe r executed).bare := by
  have hrange : List.range 16 = (List.finRange 16).map Fin.val := by decide
  have hcompare : ∀ x ∈ List.finRange 16, (do
      let now ← get r.bare.v x.val
      let before ← get w.bare.v x.val
      return if now = before then none else some (x.val, now) : Guarded (Option (Nat × UInt8))) =
      .ok (if r.get x = w.v.get x then none else some (x.val, r.get x)) := by
    intro x _
    have hbefore : get w.bare.v x.val = .ok (w.v.get x) := get_toArray w.v x.isLt
    rw [Registers.get_bare, ok_bind, hbefore]
    rfl
  rw [Bare.Watch.observe, allocate_eq_ok (Machine.room_le h), ok_bind, hrange,
    filterMapM_eq_ok hcompare, ok_bind]
  have hchanged : (w.observe r executed).bare.changed = (List.finRange 16).filterMap fun x =>
      if r.get x = w.v.get x then none else some (x.val, r.get x) := by
    change (List.filterMap _ _).map _ = _
    rw [List.map_filterMap]
    congr 1
    funext x
    split <;> rfl
  rw [← hchanged]
  rfl

end Watch

namespace Console

open Bare

def bare (c : Console) : Bare.Console where
  machine := c.machine.bare
  cycles := c.cycles
  watch := c.watch.bare
  program := c.program
  listing := c.listing
  status := c.status

@[simp] theorem machine_bare (c : Console) : c.bare.machine = c.machine.bare := rfl

structure Sound (c : Console) : Prop where
  machine : c.machine.Sound
  cycles_le : c.cycles ≤ Layout.maxCycles

def bareOutcome (outcome : Except Rejection Outcome) : Except Rejection Bare.Console :=
  outcome.map fun result => result.1.bare

theorem load_bare {c : Console} (h : c.Sound) (program : List UInt8) (autoplay : Bool) :
    c.bare.load program autoplay = .ok (bareOutcome (c.load program autoplay)) := by
  rw [Bare.Console.load, machine_bare, Machine.load_bare h.machine, ok_bind]
  by_cases hp : Acceptable program
  · rw [c.machine.load_of_acceptable hp, c.load_of_acceptable hp]
    dsimp only [Except.map]
    rw [Listing.listing_eq hp.2]
    rfl
  · obtain ⟨rejection, hr⟩ := c.machine.load_of_not_acceptable hp
    rw [Console.load, hr]
    rfl

theorem loadRom_bare {c : Console} (h : c.Sound) (chunks : List Chunk) (autoplay : Bool) :
    c.bare.loadRom chunks autoplay = .ok (bareOutcome (c.loadRom chunks autoplay)) := by
  rw [Bare.Console.loadRom, loadRom]
  cases Rom.read chunks with
  | error rejection => rfl
  | ok program => exact load_bare h program autoplay

theorem setStatus_bare (c : Console) (status : Status) (note : Note) :
    c.bare.setStatus status = (c.setStatus status note).1.bare := by
  rw [Bare.Console.setStatus, setStatus]
  change (if c.program.isSome then _ else _) = _
  rw [isLoaded]
  split <;> rfl

theorem replay_bare {c : Console} (h : c.Sound) :
    c.bare.replay = .ok (bareOutcome c.replay) := by
  rw [Bare.Console.replay, replay]
  change (match c.program with | none => _ | some program => _) = _
  cases c.program with
  | none => rfl
  | some program => exact load_bare h ..

theorem reset_bare {c : Console} (h : c.Sound) : c.bare.reset = .ok c.reset.1.bare := by
  rw [Bare.Console.reset, machine_bare, Machine.reset_bare h.machine]
  rfl

theorem runTick_bare {c : Console} (h : c.machine.Sound) {budget : Nat}
    (hbudget : budget ≤ Layout.maxCycles) :
    c.bare.runTick budget = .ok ((c.runTick budget).1.bare,
      (c.watch.observe (ticked c.machine budget).registers
        (c.machine.tick budget).1.executed).bare) := by
  have hexecuted := Nat.le_trans (c.machine.length_executed_tick_le budget) hbudget
  rw [Bare.Console.runTick, machine_bare, Machine.tick_bare h hbudget, ok_bind]
  dsimp only
  rw [Machine.takeFrame_bare]
  change (do
    let observation ← c.watch.bare.observe (ticked c.machine budget).registers.bare
      (c.machine.tick budget).1.executed
    _) = _
  rw [Watch.observe_bare _ _ hexecuted]
  rfl

theorem run_bare {c : Console} (h : c.machine.Sound) {budget : Nat}
    (hbudget : budget ≤ Layout.maxCycles) :
    c.bare.run budget = .ok (c.runTick budget).1.bare := by
  rw [Bare.Console.run, runTick_bare h hbudget]
  rfl

theorem isAwaiting_bare (c : Console) : c.bare.isAwaiting = c.machine.isAwaiting := by
  rw [Bare.Console.isAwaiting, machine_bare, Machine.execution_bare]
  cases hwait : c.machine.keypad.execution with
  | running => exact (c.machine.isAwaiting_eq_false_iff.mpr hwait).symm
  | awaitingKey x => exact (c.machine.isAwaiting_iff.mpr ⟨x, hwait⟩).symm

theorem tick_bare {c : Console} (h : c.Sound) : c.bare.tick = .ok c.tick.1.bare := by
  rw [Bare.Console.tick, tick]
  change (if c.status = .running then c.bare.run c.cycles else _) = _
  by_cases hrunning : c.status = .running
  · rw [if_pos hrunning, if_pos hrunning, run_bare h.machine h.cycles_le]
  · rw [if_neg hrunning, if_neg hrunning]
    rfl

theorem stepOnce_bare {c : Console} (h : c.Sound) :
    c.bare.stepOnce = .ok c.stepOnce.1.bare := by
  rw [Bare.Console.stepOnce, isAwaiting_bare, stepOnce]
  change (if (c.isLoaded && !c.machine.isAwaiting) = true then
    ({ c with status := .paused } : Console).bare.run 1 else _) = _
  by_cases hready : (c.isLoaded && !c.machine.isAwaiting) = true
  · rw [if_pos hready, if_pos hready]
    exact run_bare (c := { c with status := .paused }) h.machine (by decide)
  · rw [if_neg hready, if_neg hready]
    rfl

theorem setKey_bare (c : Console) (key : UInt8) (pressed : Bool) :
    c.bare.setKey key pressed = .ok (bareOutcome (c.setKey key pressed)) := by
  rw [Bare.Console.setKey, setKey]
  change (if c.status = .stopped then _ else _) = _
  by_cases hstopped : c.status = .stopped
  · rw [if_pos hstopped, if_pos hstopped]
    rfl
  · rw [if_neg hstopped, if_neg hstopped, machine_bare, Machine.setKey_bare, ok_bind]
    cases c.machine.setKey key pressed <;> rfl

/-- An action does on plain data what it does on the console. -/
theorem perform_bare {c : Console} (h : c.Sound) (action : Action) :
    c.bare.perform action = .ok (bareOutcome (c.perform action)) := by
  cases action with
  | load program autoplay => exact load_bare h program autoplay
  | loadRom chunks autoplay => exact loadRom_bare h chunks autoplay
  | play =>
    by_cases hrunning : c.status = .running
    · have hsame : { c.bare with status := .running } = c.bare := by rw [← hrunning]; rfl
      rw [perform, play, if_pos hrunning, Bare.Console.perform, Bare.Console.setStatus, hsame,
        ite_self]
      rfl
    · rw [perform, play, if_neg hrunning, Bare.Console.perform,
        c.setStatus_bare .running .playing]
      rfl
  | pause =>
    rw [Bare.Console.perform, c.setStatus_bare .paused .pausing]
    rfl
  | stop =>
    rw [Bare.Console.perform, c.setStatus_bare .stopped .stopping]
    rfl
  | replay => exact replay_bare h
  | reset =>
    rw [Bare.Console.perform, reset_bare h]
    rfl
  | setCycles cycles =>
    rw [perform, setCycles, Bare.Console.perform]
    cases checkCycles cycles <;> rfl
  | tick =>
    rw [Bare.Console.perform, tick_bare h]
    rfl
  | stepOnce =>
    rw [Bare.Console.perform, stepOnce_bare h]
    rfl
  | setKey key pressed => exact c.setKey_bare key pressed

theorem sound_next {c : Console} (h : c.Sound) (action : Action) : (c.next action).Sound := by
  have hcycles : (c.next action).cycles ≤ Layout.maxCycles :=
    perform_cases (Q := fun _ outcome => (c.settled outcome).cycles ≤ Layout.maxCycles)
      (fun _ => h.cycles_le) h.cycles_le (fun _ _ _ => h.cycles_le) (fun _ _ hmax => hmax)
      (fun _ _ _ => h.cycles_le) h.cycles_le (fun _ => h.cycles_le) (fun _ _ => h.cycles_le)
      (fun _ _ _ _ _ => h.cycles_le) action
  have hallocatable := h.machine.allocatable
  rw [← config_next c action] at hallocatable
  exact ⟨⟨fitted_next h.machine.fitted action, hallocatable⟩, hcycles⟩

theorem next_bare {c : Console} (h : c.Sound) (action : Action) :
    c.bare.next action = .ok (c.next action).bare := by
  rw [Bare.Console.next, perform_bare h, ok_bind, next]
  cases c.perform action <;> rfl

theorem after_bare {c : Console} (h : c.Sound) (actions : List Action) :
    c.bare.after actions = .ok (c.after actions).bare ∧ (c.after actions).Sound := by
  induction actions generalizing c with
  | nil => exact ⟨rfl, h⟩
  | cons action rest ih =>
    have hrest := ih (sound_next h action)
    rw [Bare.Console.after, List.foldlM_cons, next_bare h, ok_bind]
    exact hrest

end Console
end ChipEight
