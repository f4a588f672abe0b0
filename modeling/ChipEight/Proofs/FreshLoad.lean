import ChipEight.Proofs.StoredProgram

/-!
No trace of what came before. A loaded program finds the console as a new one would be, whatever
was done with it earlier; only the random bytes that have been used and the chosen speed remain.
Two consoles that differ in their random bytes alone answer alike for as long as no random
instruction is executed.
-/
namespace ChipEight

namespace Machine

theorem trail_withRandom (random : RandomBytes) {n : Nat} {m : Machine}
    (h : ∀ s ∈ m.trail n, s.nextInstruction.isRandom = false) :
    (m.withRandom random).trail n = (m.trail n).map (·.withRandom random) := by
  induction n generalizing m with
  | zero => rfl
  | succ n ih =>
    cases hrun : m.isAwaiting with
    | true =>
      have hrun' : (m.withRandom random).isAwaiting = true := hrun
      rw [trail_of_awaiting hrun, trail_of_awaiting hrun']
      rfl
    | false =>
      have hrun' : (m.withRandom random).isAwaiting = false := hrun
      rw [trail_succ_of_running hrun] at h ⊢
      have hhead := h m (List.mem_cons_self ..)
      have htail := ih fun s hs => h s (List.mem_cons_of_mem _ hs)
      rw [trail_succ_of_running hrun', advance_withRandom m random hhead, htail, List.map_cons]

/-- Without a random instruction a run is the same whatever the random bytes are. -/
theorem cycle_withRandom (random : RandomBytes) {n : Nat} {m : Machine}
    (h : ∀ s ∈ m.trail n, s.nextInstruction.isRandom = false) :
    (m.withRandom random).cycle n = ((m.cycle n).1, (m.cycle n).2.withRandom random) := by
  apply Prod.ext
  · rw [cycle_addresses, trail_withRandom random h, List.map_map, cycle_addresses]
    rfl
  · rw [cycle_last, trail_withRandom random h, cycle_last, List.getLast?_map]
    cases hlast : (m.trail n).getLast? with
    | none => rfl
    | some s => exact advance_withRandom s random (h s (List.mem_of_getLast? hlast))

theorem cycleNotes_withRandom (random : RandomBytes) {n : Nat} {m : Machine}
    (h : ∀ s ∈ m.trail n, s.nextInstruction.isRandom = false) :
    (m.withRandom random).cycleNotes n = m.cycleNotes n := by
  rw [cycleNotes_eq_flatMap, trail_withRandom random h, List.flatMap_map, cycleNotes_eq_flatMap]
  rfl

/-- A tick of a run without a random instruction: what it did, what it tells, and
where it ends. -/
theorem tick_withRandom (random : RandomBytes) {budget : Nat} {m : Machine}
    (h : ∀ s ∈ m.trail budget, s.nextInstruction.isRandom = false) :
    (m.withRandom random).tick budget =
      ((m.tick budget).1, (m.tick budget).2.withRandom random) := by
  rw [tick, cycle_withRandom random h]
  rfl

theorem tickNotes_withRandom (random : RandomBytes) {budget : Nat} {m : Machine}
    (h : ∀ s ∈ m.trail budget, s.nextInstruction.isRandom = false) :
    (m.withRandom random).tickNotes budget = m.tickNotes budget := by
  rw [tickNotes, cycleNotes_withRandom random h, cycle_withRandom random h]
  rfl

theorem takeFrame_withRandom (m : Machine) (random : RandomBytes) :
    (m.withRandom random).takeFrame = (m.takeFrame.1, m.takeFrame.2.withRandom random) := by
  rw [takeFrame, takeFrame]
  have hframe : (m.withRandom random).frame = m.frame := rfl
  rw [hframe]
  split <;> rfl

theorem setKey_withRandom (m : Machine) (random : RandomBytes) (key : UInt8) (pressed : Bool) :
    (m.withRandom random).setKey key pressed =
      (m.setKey key pressed).map (·.withRandom random) := by
  rw [setKey, setKey]
  have hkeypad : (m.withRandom random).keypad = m.keypad := rfl
  rw [hkeypad]
  cases m.keypad.setKey key pressed with
  | error rejection => rfl
  | ok keypad => cases m.keypad.awaited pressed <;> rfl

end Machine

namespace Console

def withRandom (c : Console) (random : RandomBytes) : Console :=
  { c with machine := c.machine.withRandom random }

theorem runTick_withRandom (random : RandomBytes) {c : Console} {budget : Nat}
    (h : ∀ s ∈ c.machine.trail budget, s.nextInstruction.isRandom = false) :
    (c.withRandom random).runTick budget =
      ((c.runTick budget).1.withRandom random, (c.runTick budget).2) := by
  have hmachine : (c.withRandom random).machine = c.machine.withRandom random := rfl
  rw [runTick, hmachine, Machine.tickNotes_withRandom random h, Machine.tick_withRandom random h]
  simp only [Machine.takeFrame_withRandom]
  rfl

theorem load_withRandom (c : Console) (random : RandomBytes) (program : List UInt8)
    (autoplay : Bool) :
    (c.withRandom random).load program autoplay =
      (c.load program autoplay).map fun (d, signals) => (d.withRandom random, signals) := by
  rw [load, load, Machine.load, Machine.load]
  cases Memory.initial.load program <;> rfl

theorem setStatus_withRandom (c : Console) (random : RandomBytes) (status : Status)
    (note : Note) :
    (c.withRandom random).setStatus status note =
      ((c.setStatus status note).1.withRandom random, (c.setStatus status note).2) := by
  unfold setStatus
  have hloaded : (c.withRandom random).isLoaded = c.isLoaded := rfl
  rw [hloaded]
  split <;> rfl

/-- An action that executes no random instruction answers and does the same whatever the
random bytes are. -/
theorem perform_withRandom (random : RandomBytes) {c : Console} {action : Action}
    (h : ∀ s ∈ c.trail action, s.nextInstruction.isRandom = false) :
    (c.withRandom random).perform action =
      (c.perform action).map fun (d, signals) => (d.withRandom random, signals) := by
  cases action with
  | load program autoplay => exact c.load_withRandom ..
  | loadRom chunks autoplay =>
    rw [perform, perform, loadRom, loadRom]
    cases Rom.read chunks with
    | error rejection => rfl
    | ok program => exact c.load_withRandom ..
  | play =>
    rw [perform, perform, play, play]
    have hstatus : (c.withRandom random).status = c.status := rfl
    rw [hstatus, setStatus_withRandom]
    split <;> rfl
  | pause =>
    rw [perform, perform, pause, pause, setStatus_withRandom]
    rfl
  | stop =>
    rw [perform, perform, stop, stop, setStatus_withRandom]
    rfl
  | replay =>
    rw [perform, perform, replay, replay]
    have hprogram : (c.withRandom random).program = c.program := rfl
    rw [hprogram]
    cases c.program with
    | none => rfl
    | some program => exact c.load_withRandom ..
  | reset => rfl
  | setCycles cycles =>
    rw [perform, perform, setCycles, setCycles]
    cases checkCycles cycles <;> rfl
  | tick =>
    rw [perform, perform, tick, tick]
    by_cases hs : c.status = .running
    · rw [trail, if_pos hs] at h
      have hs' : (c.withRandom random).status = .running := hs
      rw [if_pos hs, if_pos hs']
      exact congrArg Except.ok (runTick_withRandom random h)
    · have hs' : ¬ (c.withRandom random).status = .running := hs
      rw [if_neg hs, if_neg hs']
      rfl
  | stepOnce =>
    rw [perform, perform, stepOnce, stepOnce]
    by_cases hl : (c.isLoaded && !c.machine.isAwaiting) = true
    · rw [trail, if_pos hl] at h
      have hl' : ((c.withRandom random).isLoaded &&
        !(c.withRandom random).machine.isAwaiting) = true := hl
      rw [if_pos hl, if_pos hl']
      exact congrArg Except.ok (runTick_withRandom (c := { c with status := .paused }) random h)
    · have hl' : ¬ ((c.withRandom random).isLoaded &&
        !(c.withRandom random).machine.isAwaiting) = true := hl
      rw [if_neg hl, if_neg hl']
      rfl
  | setKey key pressed =>
    rw [perform, perform, setKey, setKey]
    by_cases hs : c.status = .stopped
    · have hs' : (c.withRandom random).status = .stopped := hs
      rw [if_pos hs, if_pos hs']
      rfl
    · have hs' : ¬ (c.withRandom random).status = .stopped := hs
      have hkey : (c.withRandom random).machine.setKey key pressed =
          (c.machine.setKey key pressed).map (·.withRandom random) :=
        c.machine.setKey_withRandom random key pressed
      rw [if_neg hs, if_neg hs', hkey]
      cases c.machine.setKey key pressed <;> rfl

/-- As long as no random instruction is executed, two consoles that differ in their random bytes
alone answer alike, and go on to differ in them alone. -/
theorem replies_withRandom (random : RandomBytes) {actions : List Action} {c : Console}
    (h : ∀ s ∈ c.trailAll actions, s.nextInstruction.isRandom = false) :
    (c.withRandom random).replies actions = c.replies actions ∧
      (c.withRandom random).after actions = (c.after actions).withRandom random := by
  induction actions generalizing c with
  | nil => exact ⟨rfl, rfl⟩
  | cons action rest ih =>
    have hfirst := perform_withRandom random fun s hs => h s (List.mem_append_left _ hs)
    have hreply : (c.withRandom random).reply action = c.reply action := by
      rw [reply, reply, hfirst]
      cases c.perform action <;> rfl
    have hnext : (c.withRandom random).next action = (c.next action).withRandom random := by
      rw [next, next, hfirst]
      cases c.perform action <;> rfl
    obtain ⟨hreplies, hafter⟩ := ih fun s hs => h s (List.mem_append_right _ hs)
    constructor
    · rw [replies, replies, hreply, hnext, hreplies]
    · have hcons : ∀ d : Console, d.after (action :: rest) = (d.next action).after rest :=
        fun _ => rfl
      rw [hcons, hcons, hnext, hafter]

/-- Consoles in the same state but for random bytes have the same future, if these are the same or
no random instruction is executed. -/
theorem same_future {d e : Console} (h : e = d.withRandom e.machine.random) {later : List Action}
    (hrandom : d.machine.random = e.machine.random ∨
      ∀ s ∈ d.trailAll later, s.nextInstruction.isRandom = false) :
    d.replies later = e.replies later ∧
      d.after later = (e.after later).withRandom (d.after later).machine.random ∧
      (d.machine.random = e.machine.random → d.after later = e.after later) := by
  have hequal : d.machine.random = e.machine.random → d = e := by
    intro hsame
    rw [h, ← hsame]
    rfl
  rcases hrandom with hsame | hnone
  · rw [hequal hsame]
    exact ⟨rfl, rfl, fun _ => rfl⟩
  · obtain ⟨hreplies, hafter⟩ := replies_withRandom e.machine.random hnone
    rw [← h] at hreplies hafter
    refine ⟨hreplies.symm, ?_, fun hsame => by rw [hequal hsame]⟩
    rw [hafter]
    rfl

/-- What is loaded into a console depends on it only through its configuration, its random bytes
and its speed. -/
theorem loaded_eq {c e : Console} (h : c.machine.config = e.machine.config)
    (program : List UInt8) (autoplay : Bool) :
    c.loaded program autoplay =
      { (e.loaded program autoplay).withRandom c.machine.random with cycles := c.cycles } := by
  have hloaded : c.machine.loaded program =
      (e.machine.loaded program).withRandom c.machine.random := by
    rw [Machine.loaded, Machine.reset, h]
    rfl
  rw [loaded, hloaded]
  rfl

/-- After any history an acceptable program is loaded as it is by a new console, with the same
signals and into the same state but for the random bytes and the speed. From then on, at one
speed, both answer alike and stay in the same state, if their random bytes are the same; and up
to these bytes, if no random instruction is executed. A replay is such a load of the program
loaded last. -/
theorem load_forgets_history (choices : List Config.Choice) (random random' : RandomBytes)
    (history : List Action) :
    ∃ c new, ofMachine (.boot (.chosen choices) random) = .ok c ∧
      ofMachine (.boot (.chosen choices) random') = .ok new ∧
      (∀ program autoplay, Acceptable program →
        ∃ d e signals, (c.after history).load program autoplay = .ok (d, signals) ∧
          new.load program autoplay = .ok (e, signals) ∧
          d = { e.withRandom (c.after history).machine.random with
            cycles := (c.after history).cycles } ∧
          ∀ (cycles : Nat) (later : List Action),
            let d' : Console := { d with cycles }
            let e' : Console := { e with cycles }
            (d'.machine.random = e'.machine.random ∨
              ∀ s ∈ d'.trailAll later, s.nextInstruction.isRandom = false) →
            d'.replies later = e'.replies later ∧
              d'.after later = (e'.after later).withRandom (d'.after later).machine.random ∧
              (d'.machine.random = e'.machine.random → d'.after later = e'.after later)) ∧
      ∀ program, lastLoaded history = some program → Acceptable program ∧
        (c.after history).replay =
          (c.after history).load program ((c.after history).status != .paused) := by
  have haccepted := Config.accepted_chosen choices
  refine ⟨fresh (.chosen choices) random, fresh (.chosen choices) random',
    ofMachine_boot haccepted random, ofMachine_boot haccepted random', ?_, ?_⟩
  · intro program autoplay hp
    have hconfig := config_after (fresh (.chosen choices) random) history
    have hloaded := loaded_eq (e := fresh (.chosen choices) random') hconfig program autoplay
    refine ⟨_, _, _, load_of_acceptable _ hp autoplay, load_of_acceptable _ hp autoplay,
      hloaded, fun cycles later hrandom => ?_⟩
    refine same_future ?_ hrandom
    rw [hloaded]
    rfl
  · intro program hlast
    obtain ⟨hprogram, hholds⟩ := program_after_fresh (.chosen choices) random history
    rw [hlast] at hprogram
    refine ⟨hholds program hprogram, ?_⟩
    rw [replay, hprogram]

/-- A program after another one that a key press and some ticks have changed, and its replay. -/
theorem load_forgets_running_program :
    Acceptable [0x12, 0x00] ∧
      lastLoaded [.load [0xA2, 0x02, 0xF0, 0x55] true, .setKey 3 true, .tick] =
        some [0xA2, 0x02, 0xF0, 0x55] ∧
      ∃ c new, ofMachine (.boot (.chosen []) (.ofSeed 1)) = .ok c ∧
        ofMachine (.boot (.chosen []) (.ofSeed 2)) = .ok new ∧
        (∃ d e signals,
          (c.after [.load [0xA2, 0x02, 0xF0, 0x55] true, .setKey 3 true, .tick]).load
            [0x12, 0x00] true = .ok (d, signals) ∧
          new.load [0x12, 0x00] true = .ok (e, signals) ∧
          d.machine.memory = e.machine.memory ∧ d.machine.keypad = e.machine.keypad) ∧
        Acceptable [0xA2, 0x02, 0xF0, 0x55] := by
  have hp : Acceptable [0x12, 0x00] := by decide
  have hlast : lastLoaded [.load [0xA2, 0x02, 0xF0, 0x55] true, .setKey 3 true, .tick] =
      some [0xA2, 0x02, 0xF0, 0x55] := by decide
  obtain ⟨c, new, hc, hnew, hload, hreplay⟩ := load_forgets_history [] (.ofSeed 1) (.ofSeed 2)
    [.load [0xA2, 0x02, 0xF0, 0x55] true, .setKey 3 true, .tick]
  obtain ⟨d, e, signals, hd, he, heq, -⟩ := hload [0x12, 0x00] true hp
  refine ⟨hp, hlast, c, new, hc, hnew, ⟨d, e, signals, hd, he, ?_, ?_⟩, (hreplay _ hlast).1⟩
  · rw [heq]
    rfl
  · rw [heq]
    rfl

end Console
end ChipEight
