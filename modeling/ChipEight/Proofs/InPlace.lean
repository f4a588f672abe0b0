import ChipEight.Proofs.Event
import ChipEight.Proofs.History

/-!
The operations of a console carried out in place: the parts of the console are written one after
the other, with the calls of the peripherals in between, and a refusal leaves everything as it
stands at that moment. Carried out in this way an operation has the outcome of `perform`, so a
refused one has written nothing and called nobody by then.
-/
namespace ChipEight

/-- A part of an operation on a console with its peripherals. -/
abbrev InPlace (σ α : Type) := EStateM Rejection (Console × σ) α

namespace InPlace

variable {σ : Type}

def console : InPlace σ Console := do
  let (c, _) ← get
  return c

def write (f : Console → Console) : InPlace σ Unit := modify fun (c, world) => (f c, world)

def check {α : Type} : Except Rejection α → InPlace σ α
  | .ok value => pure value
  | .error rejection => throw rejection

variable [Peripherals σ]

def send (signal : Signal) : InPlace σ Unit :=
  modify fun (c, world) => (c, Peripherals.receive world signal)

def sendAll (signals : List Signal) : InPlace σ Unit :=
  modify fun (c, world) => (c, Peripherals.deliver world signals)

/-- The program is copied into a new memory, which takes the place of the old one if
that succeeds. -/
def load (program : List UInt8) (autoplay : Bool) : InPlace σ Unit := do
  let memory ← check (Memory.initial.load program)
  write fun c => { c with machine := { c.machine.reset with memory } }
  send (.note (.replaced program.length))
  write fun c => { c with watch := .initial }
  send .clear
  send .forget
  write fun c => { c with listing := .ofProgram program }
  send (.loaded (.ofProgram program))
  write fun c => { c with program := some program }
  write fun c => { c with status := if autoplay then .running else .stopped }
  send (.note (.programReady autoplay))

def gather (gathered : List UInt8) : List Chunk → Except Rejection (List UInt8)
  | [] => .ok gathered
  | .bytes [] :: _ => .ok gathered
  | .bytes content :: rest => gather (gathered ++ content) rest
  | .interrupted :: rest => gather gathered rest
  | .failed cause :: _ => .error (.unreadable cause)

def loadRom (chunks : List Chunk) (autoplay : Bool) : InPlace σ Unit := do
  let program ← check (gather [] chunks)
  load program autoplay

def setStatus (status : Status) (note : Note) : InPlace σ Unit := do
  let c ← console
  if c.isLoaded then
    send (.note note)
    write fun c => { c with status }

def play : InPlace σ Unit := do
  let c ← console
  if c.status ≠ .running then setStatus .running .playing

def replay : InPlace σ Unit := do
  let c ← console
  match c.program with
  | none => return ()
  | some program => load program (c.status != .paused)

def reset : InPlace σ Unit := do
  send (.note .resetting)
  write fun c => { c with machine := c.machine.reset }
  write fun c => { c with watch := .initial }
  send .clear
  send .forget
  write fun c => { c with program := none }
  write fun c => { c with listing := [] }
  write fun c => { c with status := .stopped }

def setCycles (cycles : Nat) : InPlace σ Unit := do
  let cycles ← check (checkCycles cycles)
  write fun c => { c with cycles }
  send (.note (.cyclesSet cycles))

/-- The machine runs first; then its frame is taken and shown, and its registers are watched. -/
def runTick (budget : Nat) : InPlace σ Unit := do
  let c ← console
  let (tick, machine) := c.machine.tick budget
  sendAll (Console.notes (c.machine.tickNotes budget))
  write fun c => { c with machine }
  let (frame, machine) := machine.takeFrame
  write fun c => { c with machine }
  if let some frame := frame then send (.render frame)
  if tick.beep then send .beep
  let observation := c.watch.observe machine.registers tick.executed
  write fun c => { c with watch := .ofRegisters machine.registers }
  send (.observe observation)

def tick : InPlace σ Unit := do
  let c ← console
  if c.status = .running then runTick c.cycles

def stepOnce : InPlace σ Unit := do
  let c ← console
  if c.isLoaded && !c.machine.isAwaiting then
    write fun c => { c with status := .paused }
    runTick 1

/-- The key is recorded before the awaited register is filled. -/
def setKey (key : UInt8) (pressed : Bool) : InPlace σ Unit := do
  let c ← console
  if c.status ≠ .stopped then
    if h : key.toNat < 16 then
      write fun c => { c with
        machine.keypad.pressed := c.machine.keypad.pressed.set key.toNat pressed h }
      if let some register := c.machine.keypad.awaited pressed then
        send (.note (.resumed key register))
        write fun c => { c with machine.keypad.execution := .running }
        write fun c => { c with machine := c.machine.setReg register key }
    else throw (.keyOutOfRange key)

def perform : Action → InPlace σ Unit
  | .load program autoplay => load program autoplay
  | .loadRom chunks autoplay => loadRom chunks autoplay
  | .play => play
  | .pause => setStatus .paused .pausing
  | .stop => setStatus .stopped .stopping
  | .replay => replay
  | .reset => reset
  | .setCycles cycles => setCycles cycles
  | .tick => tick
  | .stepOnce => stepOnce
  | .setKey key pressed => setKey key pressed

/-- Where an operation ends that has this outcome: with the signals delivered, or
where it began. -/
def finish (c : Console) (world : σ) :
    Except Rejection Outcome → EStateM.Result Rejection (Console × σ) Unit
  | .ok (d, signals) => .ok () (d, Peripherals.deliver world signals)
  | .error rejection => .error rejection (c, world)

variable (c : Console) (world : σ)

theorem run_load (program : List UInt8) (autoplay : Bool) :
    (load program autoplay).run (c, world) = finish c world (c.load program autoplay) := by
  rw [load, Console.load, Machine.load]
  cases Memory.initial.load program <;> rfl

theorem gather_eq (gathered : List UInt8) (chunks : List Chunk) :
    gather gathered chunks = (Rom.read chunks).map (gathered ++ ·) := by
  fun_induction gather gathered chunks with
  | case1 gathered => simp [Rom.read, Except.map]
  | case2 gathered rest => simp [Rom.read, Except.map]
  | case3 gathered content rest hne ih =>
    rw [ih, Rom.read]
    · cases Rom.read rest <;> simp [Except.map]
    · exact hne
  | case4 gathered rest ih => rw [ih, Rom.read]
  | case5 gathered cause rest => rfl

theorem run_loadRom (chunks : List Chunk) (autoplay : Bool) :
    (loadRom chunks autoplay).run (c, world) = finish c world (c.loadRom chunks autoplay) := by
  have hgather : gather [] chunks = Rom.read chunks := by
    rw [gather_eq]
    cases Rom.read chunks <;> rfl
  rw [loadRom, Console.loadRom, hgather]
  cases Rom.read chunks with
  | error rejection => rfl
  | ok program => exact run_load c world program autoplay

theorem deliver_append (first second : List Signal) :
    Peripherals.deliver world (first ++ second) =
      Peripherals.deliver (Peripherals.deliver world first) second :=
  List.foldl_append

omit [Peripherals σ] in
theorem run_console {α : Type} (rest : Console → InPlace σ α) :
    (console >>= rest).run (c, world) = (rest c).run (c, world) := rfl

theorem run_setStatus (status : Status) (note : Note) :
    (setStatus status note).run (c, world) = finish c world (.ok (c.setStatus status note)) := by
  rw [setStatus, run_console, Console.setStatus]
  by_cases hloaded : c.isLoaded = true
  · rw [if_pos hloaded, if_pos hloaded]
    rfl
  · rw [if_neg hloaded, if_neg hloaded]
    rfl

theorem run_play : play.run (c, world) = finish c world (.ok c.play) := by
  rw [play, run_console, Console.play]
  by_cases hrunning : c.status = .running
  · rw [if_neg (not_not_intro hrunning), if_pos hrunning]
    rfl
  · rw [if_pos hrunning, if_neg hrunning]
    exact run_setStatus c world .running .playing

theorem run_replay : replay.run (c, world) = finish c world c.replay := by
  rw [replay, run_console, Console.replay]
  cases c.program with
  | none => rfl
  | some program => exact run_load c world program (c.status != .paused)

theorem run_setCycles (cycles : Nat) :
    (setCycles cycles).run (c, world) = finish c world (c.setCycles cycles) := by
  rw [setCycles, Console.setCycles]
  cases checkCycles cycles <;> rfl

theorem run_runTick (budget : Nat) :
    (runTick budget).run (c, world) = finish c world (.ok (c.runTick budget)) := by
  rw [runTick, run_console, Console.runTick]
  rcases c.machine.tick budget with ⟨tick, machine⟩
  simp only [finish, deliver_append]
  cases machine.takeFrame.1 <;> cases tick.beep <;> rfl

theorem run_tick : tick.run (c, world) = finish c world (.ok c.tick) := by
  rw [tick, run_console, Console.tick]
  by_cases hrunning : c.status = .running
  · rw [if_pos hrunning, if_pos hrunning]
    exact run_runTick c world c.cycles
  · rw [if_neg hrunning, if_neg hrunning]
    rfl

theorem run_stepOnce : stepOnce.run (c, world) = finish c world (.ok c.stepOnce) := by
  rw [stepOnce, run_console, Console.stepOnce]
  by_cases hready : (c.isLoaded && !c.machine.isAwaiting) = true
  · rw [if_pos hready, if_pos hready]
    exact run_runTick { c with status := .paused } world 1
  · rw [if_neg hready, if_neg hready]
    rfl

/-- The machine records the key and the end of the wait at once, here it is done one by one. -/
theorem run_setKey (key : UInt8) (pressed : Bool) :
    (setKey key pressed).run (c, world) = finish c world (c.setKey key pressed) := by
  rw [setKey, run_console, Console.setKey]
  by_cases hstopped : c.status = .stopped
  · rw [if_neg (not_not_intro hstopped), if_pos hstopped]
    rfl
  rw [if_pos hstopped, if_neg hstopped]
  by_cases hkey : key.toNat < 16
  · rw [dif_pos hkey, Machine.keyNotes]
    cases hwait : c.machine.keypad.execution with
    | running =>
      have hawaited : c.machine.keypad.awaited pressed = none := by
        simp only [Keypad.awaited, hwait]
      rw [Machine.setKey_of_running hwait hkey, hawaited, ← hwait]
      rfl
    | awaitingKey x =>
      cases pressed with
      | false =>
        have hawaited : c.machine.keypad.awaited false = none := by
          simp only [Keypad.awaited, hwait]
        rw [Machine.setKey_release _ hkey, hawaited]
        rfl
      | true =>
        have hawaited : c.machine.keypad.awaited true = some x := by
          simp only [Keypad.awaited, hwait]
        rw [Machine.setKey_press_of_awaiting hwait hkey, hawaited]
        rfl
  · rw [dif_neg hkey, Machine.setKey_of_le _ (Nat.not_lt.mp hkey)]
    rfl

theorem run_perform (action : Action) :
    (perform action).run (c, world) = finish c world (c.perform action) := by
  cases action with
  | load program autoplay => exact run_load c world program autoplay
  | loadRom chunks autoplay => exact run_loadRom c world chunks autoplay
  | play => exact run_play c world
  | pause => exact run_setStatus c world .paused .pausing
  | stop => exact run_setStatus c world .stopped .stopping
  | replay => exact run_replay c world
  | reset => rfl
  | setCycles cycles => exact run_setCycles c world cycles
  | tick => exact run_tick c world
  | stepOnce => exact run_stepOnce c world
  | setKey key pressed => exact run_setKey c world key pressed

end InPlace
end ChipEight
