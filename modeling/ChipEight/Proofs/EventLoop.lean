import ChipEight.Desktop.Session
import ChipEight.Proofs.Control
import ChipEight.Proofs.Refusal

/-!
The turns of a session at the desktop. Once the program is loaded no event is refused: the
keyboard only has codes of the keypad, a change of speed out of bounds changes nothing, and the
stored program can always be loaded again. So a session ends by quitting alone, and each turn
before that handles its events in order and ticks once.
-/
namespace ChipEight

namespace Console

theorem cycles_load (c : Console) (program : List UInt8) (autoplay : Bool) :
    (c.settled (c.load program autoplay)).cycles = c.cycles := by
  rw [load]
  cases c.machine.load program <;> rfl

theorem cycles_setStatus (c : Console) (status : Status) (note : Note) :
    (c.setStatus status note).1.cycles = c.cycles := by
  unfold setStatus
  split <;> rfl

/-- The number of instructions in a tick changes only by being set. -/
theorem cycles_next (c : Console) {action : Action} (h : ∀ cycles, action ≠ .setCycles cycles) :
    (c.next action).cycles = c.cycles := by
  cases action with
  | setCycles cycles => exact absurd rfl (h cycles)
  | load program autoplay => exact c.cycles_load program autoplay
  | loadRom chunks autoplay =>
    obtain ⟨rejection, hr⟩ | ⟨program, -, hr⟩ := c.loadRom_cases chunks autoplay
    · rw [next, perform, hr]
      rfl
    · rw [next, perform, hr]
      exact c.cycles_load program autoplay
  | play =>
    by_cases hs : c.status = .running
    · rw [next, perform, play, if_pos hs]
      rfl
    · rw [next, perform, play, if_neg hs]
      exact c.cycles_setStatus ..
  | pause => exact c.cycles_setStatus ..
  | stop => exact c.cycles_setStatus ..
  | replay =>
    obtain ⟨-, hr⟩ | ⟨program, -, hr⟩ := c.replay_cases
    · rw [next, perform, hr]
      rfl
    · rw [next, perform, hr]
      exact c.cycles_load ..
  | reset => rfl
  | tick =>
    rw [next, perform, tick]
    split <;> rfl
  | stepOnce =>
    rw [next, perform, stepOnce]
    split <;> rfl
  | setKey key pressed =>
    rw [next, perform, setKey]
    split
    · rfl
    · cases c.machine.setKey key pressed <;> rfl

theorem cycles_next_setCycles (c : Console) (cycles : Nat) :
    (c.next (.setCycles cycles)).cycles =
      if 1 ≤ cycles ∧ cycles ≤ 30 then cycles else c.cycles := by
  by_cases hc : 1 ≤ cycles ∧ cycles ≤ 30
  · have hcheck : checkCycles cycles = .ok cycles := if_pos hc
    rw [next, perform, setCycles, hcheck, if_pos hc]
    rfl
  · have hcheck : checkCycles cycles = .error (.cyclesOutOfRange cycles) := if_neg hc
    rw [next, perform, setCycles, hcheck, if_neg hc]
    rfl

/-- What there is no reason to refuse is carried out. -/
theorem perform_eq_ok {c : Console} (h : c.HoldsAcceptable) (action : Action)
    (hnone : c.refusal action = none) :
    ∃ signals, c.perform action = .ok (c.next action, signals) := by
  have hresult := ofResult_perform h action
  rw [hnone] at hresult
  rw [next]
  cases hperform : c.perform action with
  | error rejection =>
    rw [hperform] at hresult
    cases hresult
  | ok outcome => exact ⟨outcome.2, rfl⟩

end Console

namespace Desktop

namespace Command

def action (c : Console) : Command → Action
  | togglePlay => if c.status = .running then .pause else .play
  | step => .stepOnce
  | replay => .replay
  | stop => .stop
  | faster => .setCycles (c.cycles + 1)
  | slower => .setCycles (c.cycles - 1)

theorem setSpeed_eq (c : Console) (cycles : Nat) :
    setSpeed c cycles = (c.next (.setCycles cycles), (setSpeed c cycles).2) := by
  rw [setSpeed, Console.next, Console.perform]
  cases c.setCycles cycles <;> rfl

/-- A command is refused only if its operation is, and a change of speed is not even then. -/
theorem apply_eq_ok {c : Console} (h : c.HoldsAcceptable) (command : Command) :
    ∃ signals, command.apply c = .ok (c.next (command.action c), signals) := by
  cases command with
  | togglePlay =>
    rw [apply, action]
    split
    · exact Console.perform_eq_ok h .pause rfl
    · exact Console.perform_eq_ok h .play rfl
  | step => exact Console.perform_eq_ok h .stepOnce rfl
  | replay => exact Console.perform_eq_ok h .replay rfl
  | stop => exact Console.perform_eq_ok h .stop rfl
  | faster => exact ⟨_, congrArg Except.ok (setSpeed_eq ..)⟩
  | slower => exact ⟨_, congrArg Except.ok (setSpeed_eq ..)⟩

end Command

namespace Key

/-- The keyboard reaches only keys of the keypad. -/
theorem toNat_lt_of_code {key : Key} {code : UInt8} (h : key.code = some code) :
    code.toNat < 16 := by
  cases key <;> simp only [Key.code, Option.some.injEq, reduceCtorEq] at h <;> subst h <;> decide

end Key

namespace Event

/-- Repeated presses, keys without a meaning, and whatever else comes in. -/
def Ignored : Event → Prop
  | keyDown (some key) false => key.code = none ∧ key.command = none
  | keyUp (some key) => key.code = none
  | quit => False
  | _ => True

def speedAfter (cycles : Nat) : Event → Nat
  | keyDown (some .equals) false => min (cycles + 1) 30
  | keyDown (some .minus) false => max (cycles - 1) 1
  | _ => cycles

end Event

namespace Session

structure Ready (c : Console) : Prop where
  controlled : c.Controlled
  holds : c.HoldsAcceptable

theorem Ready.next {c : Console} (h : Ready c) (action : Action) : Ready (c.next action) :=
  ⟨h.controlled.next action, Console.holdsAcceptable_next h.holds action⟩

def asked (c : Console) : Event → Option Action
  | .keyDown (some key) false =>
    match key.code, key.command with
    | some code, _ => some (.setKey code true)
    | none, some command => some (command.action c)
    | none, none => none
  | .keyUp (some key) => key.code.map fun code => .setKey code false
  | _ => none

theorem setKey_eq_ok {c : Console} (h : c.HoldsAcceptable) {key : Key} {code : UInt8}
    (hcode : key.code = some code) (pressed : Bool) :
    ∃ signals, c.setKey code pressed = .ok (c.next (.setKey code pressed), signals) := by
  have hlt := Key.toNat_lt_of_code hcode
  exact Console.perform_eq_ok h (.setKey code pressed) (if_neg (by omega))

/-- No event is refused. -/
theorem handle_eq_ok {c : Console} (h : Ready c) (event : Event) :
    ∃ signals, handle c event = .ok ((asked c event).elim c c.next, signals) := by
  cases event with
  | keyDown key repeated =>
    cases key with
    | none => exact ⟨_, rfl⟩
    | some key =>
      cases repeated with
      | true => exact ⟨_, rfl⟩
      | false =>
        rw [handle, asked]
        cases hcode : key.code with
        | some code => exact setKey_eq_ok h.holds hcode true
        | none =>
          cases key.command with
          | some command => exact command.apply_eq_ok h.holds
          | none => exact ⟨_, rfl⟩
  | keyUp key =>
    cases key with
    | none => exact ⟨_, rfl⟩
    | some key =>
      rw [handle, asked]
      cases hcode : key.code with
      | some code => exact setKey_eq_ok h.holds hcode false
      | none => exact ⟨_, rfl⟩
  | quit => exact ⟨_, rfl⟩
  | other => exact ⟨_, rfl⟩

theorem handle_of_ignored (c : Console) {event : Event} (h : event.Ignored) :
    handle c event = .ok (c, []) := by
  cases event with
  | keyDown key repeated =>
    cases key with
    | none => rfl
    | some key =>
      cases repeated with
      | true => rfl
      | false => rw [handle, h.1, h.2]
  | keyUp key =>
    cases key with
    | none => rfl
    | some key =>
      have hcode : key.code = none := h
      rw [handle, hcode]
  | quit => exact h.elim
  | other => rfl

/-- A command for more or less speed moves the number of instructions by one, within
its bounds. -/
theorem cycles_asked {c : Console} (h : c.Controlled) (event : Event) :
    ((asked c event).elim c c.next).cycles = event.speedAfter c.cycles := by
  have hmin : 1 ≤ c.cycles := h.minCycles_le
  have hmax : c.cycles ≤ 30 := h.le_maxCycles
  match event with
  | .keyDown none _ | .quit | .other | .keyUp none => rfl
  | .keyDown (some key) true => cases key <;> rfl
  | .keyUp (some key) => cases key <;> first | rfl | exact c.cycles_next nofun
  | .keyDown (some key) false =>
    cases key with
    | equals =>
      refine (c.cycles_next_setCycles (c.cycles + 1)).trans ?_
      rw [Event.speedAfter]
      split <;> omega
    | minus =>
      refine (c.cycles_next_setCycles (c.cycles - 1)).trans ?_
      rw [Event.speedAfter]
      split <;> omega
    | space =>
      refine c.cycles_next fun cycles => ?_
      rw [Command.action]
      split <;> exact nofun
    | other => rfl
    | _ => exact c.cycles_next nofun

theorem Ready.asked {c : Console} (h : Ready c) (event : Event) :
    Ready ((asked c event).elim c c.next) := by
  cases Session.asked c event with
  | none => exact h
  | some action => exact h.next action

def handled (c : Console) : List Event → Outcome
  | [] => (c, [])
  | event :: rest =>
    match handle c event with
    | .error _ => (c, [])
    | .ok (d, signals) => ((handled d rest).1, signals ++ (handled d rest).2)

/-- The console after a turn without a quit. -/
def afterTurn (c : Console) (events : List Event) : Console := (handled c events).1.tick.1

def afterTurns (c : Console) (batches : List (List Event)) : Console := batches.foldl afterTurn c

theorem Ready.handled {c : Console} (h : Ready c) (events : List Event) :
    Ready (handled c events).1 := by
  induction events generalizing c with
  | nil => exact h
  | cons event rest ih =>
    obtain ⟨signals, hhandle⟩ := handle_eq_ok h event
    rw [Session.handled, hhandle]
    exact ih (h.asked event)

theorem Ready.afterTurns {c : Console} (h : Ready c) (batches : List (List Event)) :
    Ready (afterTurns c batches) := by
  induction batches generalizing c with
  | nil => exact h
  | cons events rest ih => exact ih ((h.handled events).next .tick)

section Turn

variable {σ : Type} [Peripherals σ] {c : Console} {events : List Event}

/-- A turn handles the events before a quit one after the other. -/
theorem turn_append (h : Ready c) (hquit : .quit ∉ events) (world : σ) (rest : List Event) :
    turn c world (events ++ rest) =
      turn (handled c events).1 (Peripherals.deliver world (handled c events).2) rest := by
  induction events generalizing c world with
  | nil => rfl
  | cons event later ih =>
    have hevent : event ≠ .quit := fun heq => hquit (heq ▸ List.mem_cons_self ..)
    have hlater : .quit ∉ later := fun hmem => hquit (List.mem_cons_of_mem _ hmem)
    obtain ⟨signals, hhandle⟩ := handle_eq_ok h event
    rw [List.cons_append, turn, handled, hhandle, InPlace.deliver_append]
    · exact ih (h.asked event) hlater _
    · exact hevent

theorem turn_of_quiet (h : Ready c) (hquit : .quit ∉ events) (world : σ) :
    turn c world events = ⟨.next, afterTurn c events,
      Peripherals.deliver (Peripherals.deliver world (handled c events).2)
        (handled c events).1.tick.2⟩ := by
  have hturn := turn_append h hquit world []
  rwa [List.append_nil] at hturn

theorem turn_of_quit (h : Ready c) (hquit : .quit ∉ events) (world : σ) (rest : List Event) :
    turn c world (events ++ .quit :: rest) =
      ⟨.quit, (handled c events).1, Peripherals.deliver world (handled c events).2⟩ :=
  turn_append h hquit world (.quit :: rest)

end Turn

/-- The events of a turn up to the first quit. -/
theorem quiet_or_quits (events : List Event) :
    .quit ∉ events ∨ ∃ before rest, events = before ++ .quit :: rest ∧ .quit ∉ before := by
  by_cases hquit : .quit ∈ events
  · exact .inr (List.eq_append_cons_of_mem hquit)
  · exact .inl hquit

section Turns

variable {c : Console} (samples : Nat)

theorem turns_of_quit (h : Ready c) {events : List Event} (hquit : .quit ∉ events) (d : Desk)
    (rest : List Event) (later : List (List Event)) :
    turns samples c d ((events ++ .quit :: rest) :: later) =
      ([(cut (Peripherals.deliver d (handled c events).2) []).1], none) := by
  rw [turns, turn_of_quit h hquit]

/-- A turn without a quit gives a segment, and the session goes on with the console
after its tick. -/
theorem turns_of_quiet (h : Ready c) {events : List Event} (hquit : .quit ∉ events) (d : Desk) :
    ∃ segment desk, ∀ later, turns samples c d (events :: later) =
      (segment :: (turns samples (afterTurn c events) desk later).1,
        (turns samples (afterTurn c events) desk later).2) := by
  let ticked := Peripherals.deliver (Peripherals.deliver d (handled c events).2)
    (handled c events).1.tick.2
  let played := ticked.play samples
  let collected := cut played.2 played.1
  refine ⟨collected.1, collected.2, fun later => ?_⟩
  rw [turns, turn_of_quiet h hquit]

theorem turns_append (h : Ready c) {before : List (List Event)}
    (hquit : ∀ events ∈ before, .quit ∉ events) (d : Desk) :
    ∃ segments desk, segments.length = before.length ∧ ∀ later,
      turns samples c d (before ++ later) =
        (segments ++ (turns samples (afterTurns c before) desk later).1,
          (turns samples (afterTurns c before) desk later).2) := by
  induction before generalizing c d with
  | nil => exact ⟨[], d, rfl, fun _ => rfl⟩
  | cons events rest ih =>
    obtain ⟨segment, middle, hfirst⟩ :=
      turns_of_quiet samples h (hquit events (List.mem_cons_self ..)) d
    obtain ⟨segments, desk, hlength, hrest⟩ := ih (h.afterTurns [events])
      (fun e he => hquit e (List.mem_cons_of_mem _ he)) middle
    refine ⟨segment :: segments, desk, congrArg (· + 1) hlength, fun later => ?_⟩
    rw [List.cons_append, hfirst]
    exact congrArg (fun r => (segment :: r.1, r.2)) (hrest later)

theorem failure_turns (h : Ready c) (d : Desk) (batches : List (List Event)) :
    (turns samples c d batches).2 = none := by
  induction batches generalizing c d with
  | nil => rfl
  | cons events rest ih =>
    obtain hquit | ⟨before, after, rfl, hquit⟩ := quiet_or_quits events
    · obtain ⟨segment, desk, hfirst⟩ := turns_of_quiet samples h hquit d
      rw [hfirst]
      exact ih (h.afterTurns [events]) desk
    · rw [turns_of_quit samples h hquit]

end Turns

section SetUp

variable {α β : Type}

/-- Every result of a piece of work satisfies the property. -/
def Yields (work : DeskM α) (P : α → Prop) : Prop :=
  ∀ d a e, work.run d = (.ok a, e) → P a

theorem yields_any (work : DeskM α) : Yields work fun _ => True := fun _ _ _ _ => trivial

theorem yields_rejecting (result : Except Rejection α) :
    Yields (rejecting result) fun a => result = .ok a := by
  intro d a e hrun
  cases result with
  | ok b =>
    cases hrun
    rfl
  | error rejection => cases hrun

theorem Yields.bind {work : DeskM α} {P : α → Prop} {rest : α → DeskM β} {Q : β → Prop}
    (h : Yields work P) (hrest : ∀ a, P a → Yields (rest a) Q) : Yields (work >>= rest) Q := by
  intro d b e hrun
  rw [ExceptT.run_bind, stateM_bind_apply] at hrun
  cases hwork : work.run d with
  | mk result middle =>
    rw [hwork] at hrun
    cases result with
    | ok a => exact hrest a (h d a middle hwork) middle b e hrun
    | error failure => cases hrun

/-- Work that may be left out. -/
theorem Yields.optional {condition : Prop} [Decidable condition] {work : DeskM Unit}
    {rest : Unit → DeskM β} {Q : β → Prop} (h : Yields (rest ()) Q) :
    Yields (if condition then work >>= rest else rest ()) Q := by
  split
  · exact (yields_any work).bind fun _ _ => h
  · exact h

theorem yields_pure {a : α} {P : α → Prop} (h : P a) : Yields (pure a) P := by
  intro d b e hrun
  cases hrun
  exact h

theorem yields_throw (failure : Failure) (P : α → Prop) : Yields (throw failure) P := by
  intro d a e hrun
  cases hrun

/-- The console of a session comes into being and loads a program before the first turn. -/
theorem ready_setUp (options : Options) (random : RandomBytes) (file : RomFile) :
    Yields (setUp options random file) Ready := by
  unfold setUp
  refine (yields_rejecting _).bind fun config hconfig => ?_
  refine (yields_rejecting _).bind fun console hconsole => ?_
  refine (yields_any _).bind fun _ _ => (yields_any _).bind fun _ _ => ?_
  have hready : Ready console := by
    refine ⟨.of_ofMachine hconsole, Console.holdsAcceptable_of_program_eq_none ?_⟩
    rw [(Console.eq_of_ofMachine hconsole).2]
  refine Yields.optional ((yields_any _).bind fun _ _ => ?_)
  cases file.contents with
  | error cause => exact yields_throw _ _
  | ok chunks =>
    refine (yields_rejecting _).bind fun outcome hload => ?_
    refine (yields_any _).bind fun _ _ => (yields_any _).bind fun _ _ => ?_
    have hloaded := hready.next (.loadRom chunks options.autoplay)
    rw [Console.next, Console.perform, hload] at hloaded
    exact yields_pure hloaded

end SetUp

/-- A session whose program is loaded, after any turns without a quit. It goes on with the console
that these turns lead to. In its next turn no event is refused. The number of instructions in a
tick stays within its bounds and moves by one with each command for more or less speed that does
not cross them. Repeated presses and keys without a meaning change nothing. A turn without a quit
ticks once at its end; at the first quit the session ends without a failure and without another
event or tick. -/
theorem session_ends_by_quitting {options : Options} {random : RandomBytes} {file : RomFile}
    {host : Host} {c : Console} {d : Desk}
    (hup : (setUp options random file).run (.ofHost host) = (.ok c, d))
    (before : List (List Event)) (hbefore : ∀ events ∈ before, .quit ∉ events) :
    let e := afterTurns c before
    (∀ samples, ∃ segments desk, segments.length = before.length + 1 ∧ ∀ later,
      run options random file host samples (before ++ later) =
        (segments ++ (turns samples e desk later).1, (turns samples e desk later).2)) ∧
    (∀ events, .quit ∉ events →
      let f := (handled e events).1
      (1 ≤ f.cycles ∧ f.cycles ≤ 30) ∧ f.tick.1.cycles = f.cycles ∧
        (∀ event, ∃ g signals, handle f event = .ok (g, signals) ∧
          g.cycles = event.speedAfter f.cycles ∧ (event.Ignored → g = f ∧ signals = [])) ∧
        (∀ (σ : Type) [Peripherals σ] (world : σ),
          let heard := Peripherals.deliver world (handled e events).2
          turn e world events = ⟨.next, f.tick.1, Peripherals.deliver heard f.tick.2⟩ ∧
            ∀ rest, turn e world (events ++ .quit :: rest) = ⟨.quit, f, heard⟩) ∧
        ∀ samples desk rest later, turns samples e desk ((events ++ .quit :: rest) :: later) =
          ([(cut (Peripherals.deliver desk (handled e events).2) []).1], none)) ∧
    ∀ samples batches, (run options random file host samples batches).2 = none := by
  intro e
  have hstart : Ready c := ready_setUp options random file _ _ _ hup
  have he : Ready e := hstart.afterTurns before
  refine ⟨fun samples => ?_, fun events hquit => ?_, fun samples batches => ?_⟩
  · obtain ⟨segments, desk, hlength, hlater⟩ := turns_append samples hstart hbefore (cut d []).2
    refine ⟨(cut d []).1 :: segments, desk, congrArg (· + 1) hlength, fun later => ?_⟩
    rw [run, hup]
    exact congrArg (fun r => ((cut d []).1 :: r.1, r.2)) (hlater later)
  · have hf : Ready (handled e events).1 := he.handled events
    have htick : ∀ cycles, Action.tick ≠ .setCycles cycles := nofun
    refine ⟨⟨hf.controlled.minCycles_le, hf.controlled.le_maxCycles⟩,
      Console.cycles_next _ htick, fun event => ?_, fun σ _ world => ?_,
      fun samples desk rest later => turns_of_quit samples he hquit desk rest later⟩
    · obtain ⟨signals, hhandle⟩ := handle_eq_ok hf event
      refine ⟨_, signals, hhandle, cycles_asked hf.controlled event, fun hignored => ?_⟩
      exact Prod.mk.inj (Except.ok.inj (hhandle.symm.trans (handle_of_ignored _ hignored)))
    · exact ⟨turn_of_quiet he hquit world, turn_of_quit he hquit world⟩
  · rw [run, hup]
    exact failure_turns samples hstart (cut d []).2 batches

set_option maxRecDepth 1024 in
/-- A session at full speed waits for a key, which is pressed and then repeated. A command to go
faster changes nothing, one to go slower does, and nothing is handled behind the quit. -/
theorem session_ends_by_quitting_after_key_wait :
    let options : Options := ⟨"wait.ch8", 30, 10, true, true⟩
    let file := RomFile.file [0xF3, 0x0A, 0x12, 0x02]
    let host : Host := ⟨fun _ => none, fun _ _ => ⟨192, #[]⟩, [], Int32.ofNat⟩
    let before : List (List Event) :=
      [[], [.keyDown (some .q) false, .keyDown (some .q) true, .keyDown (some .equals) false]]
    let last : List Event := [.keyDown (some .minus) false, .keyUp (some .other)]
    ∃ c d, (setUp options (.ofSeed 7) file).run (.ofHost host) = (.ok c, d) ∧
      (afterTurns c before).cycles = 30 ∧ (handled (afterTurns c before) last).1.cycles = 29 ∧
      (afterTurns c before).machine.registers.get 3 = 4 ∧
      (∀ world : Desk, (turn (afterTurns c before) world
        (last ++ .quit :: [.keyDown (some .minus) false])).console.cycles = 29) ∧
      ∀ samples batches, (run options (.ofSeed 7) file host samples batches).2 = none := by
  intro options file host before last
  let c := (Console.fresh ⟨30, 64, 32⟩ (.ofSeed 7)).loaded [0xF3, 0x0A, 0x12, 0x02] true
  let d := ((setUp options (.ofSeed 7) file).run (.ofHost host)).2
  have hup : (setUp options (.ofSeed 7) file).run (.ofHost host) = (.ok c, d) :=
    Prod.ext rfl rfl
  obtain ⟨-, hnext, hfailure⟩ := session_ends_by_quitting hup before (by decide)
  obtain ⟨hfaster, hslower, hkey⟩ : (afterTurns c before).cycles = 30 ∧
      (handled (afterTurns c before) last).1.cycles = 29 ∧
      (afterTurns c before).machine.registers.get 3 = 4 := by decide +kernel
  refine ⟨c, d, hup, hfaster, hslower, hkey, fun world => ?_, hfailure⟩
  obtain ⟨-, -, -, hturn, -⟩ := hnext last (by decide)
  rw [(hturn Desk world).2]
  exact hslower

end Session

end Desktop
end ChipEight
