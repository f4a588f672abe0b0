import ChipEight.Proofs.Event
import ChipEight.Proofs.History
import Mathlib.Data.List.Forall2

/-!
Schedules. When the timers count down and when keys are pressed and let go reaches a program
only through the instructions that look at the delay timer or at the keys. While it executes
none of these, every schedule makes it execute the same instructions at the same addresses,
and schedules that let it execute equally many leave it with the same memory, registers,
pixels and random bytes.
-/
namespace ChipEight

namespace Instruction

/-- Looks at the delay timer or at the keys, or waits for a key. -/
def looksOutside : Instruction → Bool
  | skipPressed _ | skipNotPressed _ | loadDelay _ | awaitKey _ => true
  | _ => false

end Instruction

namespace Frame

/-- Drawing does not look at the mark of a frame. -/
theorem plot_congr {f g : Frame} (h : f.shown = g.shown) (collision : Bool)
    (points : List (Nat × Nat)) :
    (f.plot collision points).1 = (g.plot collision points).1 ∧
      (f.plot collision points).2.shown = (g.plot collision points).2.shown := by
  induction points generalizing collision f g with
  | nil => exact ⟨rfl, h⟩
  | cons point rest ih =>
    obtain ⟨x, y⟩ := point
    have hlit : f.lit x y = g.lit x y := by
      show f.shown.lit x y = g.shown.lit x y
      rw [h]
    have hflip : (f.flip x y).shown = (g.flip x y).shown := by
      show (f.shown.flip x y).shown = (g.shown.flip x y).shown
      rw [h]
    unfold plot
    rw [hlit]
    exact ih hflip (collision || g.lit x y)

end Frame

namespace Machine

/-- Equal but for the timers, the keypad, the configuration and the mark of the frame. -/
structure Agree (m n : Machine) : Prop where
  random : m.random = n.random
  memory : m.memory = n.memory
  registers : m.registers = n.registers
  frame : m.frame.shown = n.frame.shown

namespace Agree

variable {l m n : Machine}

theorem refl (m : Machine) : Agree m m := ⟨rfl, rfl, rfl, rfl⟩

theorem symm (h : Agree m n) : Agree n m :=
  ⟨h.random.symm, h.memory.symm, h.registers.symm, h.frame.symm⟩

theorem trans (h : Agree l m) (h' : Agree m n) : Agree l n :=
  ⟨h.random.trans h'.random, h.memory.trans h'.memory, h.registers.trans h'.registers,
    h.frame.trans h'.frame⟩

/-- Only four kinds of instructions read what the machines may differ in. -/
theorem execute (h : Agree m n) {i : Instruction} (hi : i.looksOutside = false) :
    Agree (m.execute i) (n.execute i) := by
  obtain ⟨_, random, memory, registers, _, f, _⟩ := m
  obtain ⟨_, random', memory', registers', _, g, _⟩ := n
  obtain ⟨hrandom, hmemory, hregisters, hframe⟩ := h
  simp only at hrandom hmemory hregisters hframe
  subst hrandom hmemory hregisters
  cases i with
  | skipPressed | skipNotPressed | loadDelay | awaitKey => cases hi
  | clear =>
    refine ⟨rfl, rfl, rfl, ?_⟩
    show f.shown.clear.shown = g.shown.clear.shown
    rw [hframe]
  | draw x y height =>
    obtain ⟨hcollision, hdrawn⟩ := Frame.plot_congr hframe false (Sprite.points
      (registers.get x).toNat (registers.get y).toNat (memory.readSpan registers.i height.val))
    exact ⟨rfl, rfl, congrArg registers.setFlag hcollision, hdrawn⟩
  | _ => exact ⟨rfl, rfl, rfl, hframe⟩

theorem nextWord (h : Agree m n) : m.nextWord = n.nextWord := by
  unfold Machine.nextWord
  rw [h.memory, h.registers]

theorem nextInstruction (h : Agree m n) : m.nextInstruction = n.nextInstruction :=
  congrArg Instruction.decode h.nextWord

theorem advance (h : Agree m n) (hi : m.nextInstruction.looksOutside = false) :
    Agree m.advance n.advance := by
  have hmoved : Agree (m.mapRegisters Registers.advance) (n.mapRegisters Registers.advance) :=
    { h with registers := congrArg Registers.advance h.registers }
  unfold Machine.advance
  rw [← h.nextInstruction]
  exact hmoved.execute hi

theorem takeFrame (m : Machine) : Agree m m.takeFrame.2 := by
  unfold Machine.takeFrame
  split
  · exact ⟨rfl, rfl, rfl, rfl⟩
  · exact refl m

end Agree

/-- No instruction that does not look outside suspends the machine. -/
theorem isAwaiting_advance {m : Machine} (hrun : m.isAwaiting = false)
    (hi : m.nextInstruction.looksOutside = false) : m.advance.isAwaiting = false := by
  rw [isAwaiting_eq_false_iff] at hrun ⊢
  rw [keypad_advance]
  cases hnext : m.nextInstruction with
  | awaitKey x =>
    rw [hnext] at hi
    cases hi
  | _ => exact hrun

def fetched (m : Machine) : UInt16 × UInt16 := (m.registers.pc, m.nextWord)

theorem map_fetched_of_agree {states states' : List Machine}
    (h : List.Forall₂ Agree states states') : states.map fetched = states'.map fetched := by
  induction h with
  | nil => rfl
  | @cons m n rest rest' hagree _ ih =>
    have hfetched : m.fetched = n.fetched := by
      unfold fetched
      rw [hagree.registers, hagree.nextWord]
    rw [List.map_cons, List.map_cons, hfetched, ih]

/-- How many instructions an event lets the machine execute, unless a key is awaited. -/
def Event.room : Event → Nat
  | step => 1
  | tick budget => budget
  | _ => 0

def room : List Event → Nat
  | [] => 0
  | event :: rest => event.room + room rest

theorem room_cons (event : Event) (rest : List Event) :
    room (event :: rest) = event.room + room rest := rfl

/-- An event that executes nothing changes nothing that the machines have to agree in. -/
theorem agree_respond_of_eventTrail_eq_nil {m : Machine} (hrun : m.isAwaiting = false)
    {event : Event} (hkeeps : event.KeepsProgram) (htrail : m.eventTrail event = []) :
    Agree m (m.respond event) ∧ (m.respond event).isAwaiting = false ∧ event.room = 0 := by
  cases event with
  | step =>
    rw [eventTrail, trail_succ_of_running hrun] at htrail
    cases htrail
  | tick budget =>
    cases budget with
    | zero => exact ⟨⟨rfl, rfl, rfl, rfl⟩, hrun, rfl⟩
    | succ budget =>
      rw [eventTrail, trail_succ_of_running hrun] at htrail
      cases htrail
  | advanceTimers => exact ⟨⟨rfl, rfl, rfl, rfl⟩, hrun, rfl⟩
  | takeFrame =>
    refine ⟨Agree.takeFrame m, ?_, rfl⟩
    unfold isAwaiting
    rw [keypad_takeFrame]
    exact hrun
  | setKey key pressed =>
    have hexecution := m.isAwaiting_eq_false_iff.mp hrun
    by_cases hkey : key.toNat < 16
    · have hset := setKey_of_running hexecution hkey pressed
      rw [respond, hset]
      exact ⟨⟨rfl, rfl, rfl, rfl⟩, rfl, rfl⟩
    · rw [m.respond_setKey_of_le (Nat.not_lt.mp hkey)]
      exact ⟨Agree.refl m, hrun, rfl⟩
  | load program => exact hkeeps.elim
  | reset => exact hkeeps.elim

/-- Events that execute nothing, all together. -/
theorem agree_respondAll_of_trailAll_eq_nil {m : Machine} (hrun : m.isAwaiting = false)
    {events : List Event} (hkeeps : ∀ event ∈ events, event.KeepsProgram)
    (htrail : m.trailAll events = []) :
    Agree m (m.respondAll events) ∧ room events = 0 := by
  induction events generalizing m with
  | nil => exact ⟨Agree.refl m, rfl⟩
  | cons event rest ih =>
    unfold trailAll at htrail
    rw [List.append_eq_nil_iff] at htrail
    obtain ⟨hagree, hrun', hroom⟩ := agree_respond_of_eventTrail_eq_nil hrun
      (hkeeps event (List.mem_cons_self ..)) htrail.1
    obtain ⟨hrest, hroom'⟩ :=
      ih hrun' (fun e he => hkeeps e (List.mem_cons_of_mem _ he)) htrail.2
    refine ⟨hagree.trans hrest, ?_⟩
    rw [room_cons]
    omega

/-- A run that executes an instruction comes to it without having changed anything that counts,
and then goes on behind it. -/
theorem exists_of_trailAll_eq_cons {m s : Machine} {states : List Machine}
    (hrun : m.isAwaiting = false) {events : List Event}
    (hkeeps : ∀ event ∈ events, event.KeepsProgram) (htrail : m.trailAll events = s :: states) :
    Agree m s ∧ s.isAwaiting = false ∧ ∃ later : List Event,
      (∀ event ∈ later, event.KeepsProgram) ∧ s.advance.trailAll later = states ∧
        s.advance.respondAll later = m.respondAll events ∧ room events = room later + 1 := by
  induction events generalizing m with
  | nil => cases htrail
  | cons event rest ih =>
    have hevent : event.KeepsProgram := hkeeps event (List.mem_cons_self ..)
    have hrest : ∀ e ∈ rest, e.KeepsProgram := fun e he => hkeeps e (List.mem_cons_of_mem _ he)
    unfold trailAll at htrail
    by_cases hquiet : m.eventTrail event = []
    · obtain ⟨hagree, hrun', hroom⟩ := agree_respond_of_eventTrail_eq_nil hrun hevent hquiet
      rw [hquiet, List.nil_append] at htrail
      obtain ⟨hagree', hs, later, hlater, hstates, hend, hroom'⟩ := ih hrun' hrest htrail
      refine ⟨hagree.trans hagree', hs, later, hlater, hstates, hend, ?_⟩
      rw [room_cons]
      omega
    · cases event with
      | step =>
        rw [eventTrail, trail_succ_of_running hrun, respond_step_of_running hrun] at htrail
        obtain ⟨rfl, rfl⟩ := List.cons.inj htrail
        refine ⟨Agree.refl m, hrun, rest, hrest, rfl, ?_, ?_⟩
        · show m.advance.respondAll rest = (m.respond .step).respondAll rest
          rw [respond_step_of_running hrun]
        · rw [room_cons, Event.room]
          omega
      | tick budget =>
        cases budget with
        | zero => exact absurd rfl hquiet
        | succ budget =>
          -- The rest of the tick goes on behind its first instruction.
          have hnext : m.respond (.tick (budget + 1)) = m.advance.respond (.tick budget) := by
            show (m.cycle (budget + 1)).2.advanceTimers.2 =
                (m.advance.cycle budget).2.advanceTimers.2
            rw [cycle_succ_of_running hrun]
          rw [eventTrail, trail_succ_of_running hrun, hnext] at htrail
          obtain ⟨rfl, rfl⟩ := List.cons.inj htrail
          refine ⟨Agree.refl m, hrun, .tick budget :: rest, ?_, rfl, ?_, ?_⟩
          · intro e he
            rcases List.mem_cons.mp he with rfl | hmem
            · trivial
            · exact hrest e hmem
          · show (m.advance.respond (.tick budget)).respondAll rest =
              (m.respond (.tick (budget + 1))).respondAll rest
            rw [hnext]
          · rw [room_cons, room_cons, Event.room, Event.room]
            omega
      | advanceTimers => exact absurd rfl hquiet
      | takeFrame => exact absurd rfl hquiet
      | setKey key pressed => exact absurd rfl hquiet
      | load program => exact hevent.elim
      | reset => exact hevent.elim

theorem trailAll_ne_nil {m : Machine} (hrun : m.isAwaiting = false) {events : List Event}
    (hkeeps : ∀ event ∈ events, event.KeepsProgram) (hroom : 0 < room events) :
    m.trailAll events ≠ [] := by
  intro htrail
  obtain ⟨-, hzero⟩ := agree_respondAll_of_trailAll_eq_nil hrun hkeeps htrail
  omega

theorem length_eventTrail_le (m : Machine) (event : Event) :
    (m.eventTrail event).length ≤ event.room := by
  cases event with
  | step => exact length_trail_le 1 m
  | tick budget => exact length_trail_le budget m
  | _ => exact Nat.le_refl 0

theorem length_trailAll_le (m : Machine) (events : List Event) :
    (m.trailAll events).length ≤ room events := by
  induction events generalizing m with
  | nil => exact Nat.le_refl 0
  | cons event rest ih =>
    have hevent := m.length_eventTrail_le event
    have hrest := ih (m.respond event)
    rw [trailAll, List.length_append, room_cons]
    omega

/-- Two runs that execute equally many instructions, none of which looks outside in the first
run, execute the same ones. The second run may also be given by the room it has: nothing can
hold it up. -/
theorem agree_of_schedules {m n : Machine} (hm : m.isAwaiting = false) (hn : n.isAwaiting = false)
    (h : Agree m n) {events events' : List Event} (hkeeps : ∀ event ∈ events, event.KeepsProgram)
    (hkeeps' : ∀ event ∈ events', event.KeepsProgram)
    (hinside : ∀ s ∈ m.trailAll events, s.nextInstruction.looksOutside = false)
    (hcount : (n.trailAll events').length = (m.trailAll events).length ∨
      room events' = (m.trailAll events).length) :
    List.Forall₂ Agree (m.trailAll events) (n.trailAll events') ∧
      Agree (m.respondAll events) (n.respondAll events') ∧
      room events = (m.trailAll events).length := by
  induction htrail : m.trailAll events generalizing m n events events' with
  | nil =>
    rw [htrail, List.length_nil] at hcount
    have htrail' : n.trailAll events' = [] := by
      apply List.length_eq_zero_iff.mp
      have hle := n.length_trailAll_le events'
      omega
    obtain ⟨hquiet, hroom⟩ := agree_respondAll_of_trailAll_eq_nil hm hkeeps htrail
    obtain ⟨hquiet', -⟩ := agree_respondAll_of_trailAll_eq_nil hn hkeeps' htrail'
    rw [htrail']
    exact ⟨.nil, hquiet.symm.trans (h.trans hquiet'), hroom⟩
  | cons s states ih =>
    rw [htrail] at hinside hcount
    rw [List.length_cons] at hcount
    obtain ⟨hms, hs, later, hlater, hstates, hend, hroom⟩ :=
      exists_of_trailAll_eq_cons hm hkeeps htrail
    have hpos : n.trailAll events' ≠ [] := by
      rcases hcount with hlength | hroom'
      · intro hnil
        rw [hnil] at hlength
        cases hlength
      · exact trailAll_ne_nil hn hkeeps' (by omega)
    obtain ⟨s', states', htrail'⟩ := List.exists_cons_of_ne_nil hpos
    obtain ⟨hns, hs', later', hlater', hstates', hend', hroom'⟩ :=
      exists_of_trailAll_eq_cons hn hkeeps' htrail'
    have hss : Agree s s' := hms.symm.trans (h.trans hns)
    have hi : s.nextInstruction.looksOutside = false := hinside s (List.mem_cons_self ..)
    have hi' : s'.nextInstruction.looksOutside = false := by
      rw [← hss.nextInstruction]
      exact hi
    subst hstates hstates'
    rw [htrail', List.length_cons] at hcount
    obtain ⟨htrails, hends, hrooms⟩ := ih (isAwaiting_advance hs hi) (isAwaiting_advance hs' hi')
      (hss.advance hi) hlater hlater' (fun t ht => hinside t (List.mem_cons_of_mem _ ht))
      (by omega) rfl
    rw [htrail', ← hend, ← hend']
    refine ⟨.cons hss htrails, hends, ?_⟩
    rw [hroom, hrooms, List.length_cons]

end Machine

namespace Console

open Machine (Agree)

/-- A tick of one instruction does to the machine what the instruction does, as far as
that counts. -/
theorem agree_ticked_one {m : Machine} (hrun : m.isAwaiting = false) :
    Agree m.advance (ticked m 1) ∧ (ticked m 1).isAwaiting = m.advance.isAwaiting := by
  have hticked : ticked m 1 = m.advance.advanceTimers.2.takeFrame.2 := by
    show (m.cycle 1).2.advanceTimers.2.takeFrame.2 = m.advance.advanceTimers.2.takeFrame.2
    rw [Machine.cycle_succ_of_running hrun]
    rfl
  have htimers : Agree m.advance m.advance.advanceTimers.2 := ⟨rfl, rfl, rfl, rfl⟩
  rw [hticked]
  refine ⟨htimers.trans (Agree.takeFrame _), ?_⟩
  exact congrArg Keypad.isAwaiting (Machine.keypad_takeFrame m.advance.advanceTimers.2)

theorem stepOnce_of_ready {c : Console} (hloaded : c.isLoaded = true)
    (hrun : c.machine.isAwaiting = false) :
    c.trail .stepOnce = [c.machine] ∧ (c.next .stepOnce).isLoaded = true ∧
      (c.next .stepOnce).machine = ticked c.machine 1 := by
  have hready : (c.isLoaded && !c.machine.isAwaiting) = true := by
    rw [hloaded, hrun]
    rfl
  rw [trail, if_pos hready, Machine.trail_succ_of_running hrun, next, perform, stepOnce,
    if_pos hready]
  exact ⟨rfl, hloaded, rfl⟩

/-- Single steps of a console take its machine as far as a cycle of that many instructions. -/
theorem agree_stepOnce {count : Nat} {c : Console} {m : Machine} (hloaded : c.isLoaded = true)
    (hc : c.machine.isAwaiting = false) (hm : m.isAwaiting = false) (h : Agree c.machine m)
    (hinside : (∀ s ∈ m.trail count, s.nextInstruction.looksOutside = false) ∨
      ∀ s ∈ c.trailAll (List.replicate count .stepOnce),
        s.nextInstruction.looksOutside = false) :
    List.Forall₂ Agree (c.trailAll (List.replicate count .stepOnce)) (m.trail count) ∧
      (m.trail count).length = count ∧
      Agree (c.after (List.replicate count .stepOnce)).machine (m.cycle count).2 := by
  induction count generalizing c m with
  | zero => exact ⟨.nil, rfl, h⟩
  | succ count ih =>
    obtain ⟨htrail, hloaded', hmachine⟩ := stepOnce_of_ready hloaded hc
    obtain ⟨hticked, hawaiting⟩ := agree_ticked_one hc
    rw [List.replicate_succ, trailAll, htrail, Machine.trail_succ_of_running hm] at hinside
    have hi : c.machine.nextInstruction.looksOutside = false := by
      rcases hinside with hinside | hinside
      · rw [h.nextInstruction]
        exact hinside m (List.mem_cons_self ..)
      · exact hinside c.machine (List.mem_cons_self ..)
    have hi' : m.nextInstruction.looksOutside = false := by
      rw [← h.nextInstruction]
      exact hi
    have hc' : (c.next .stepOnce).machine.isAwaiting = false := by
      rw [hmachine, hawaiting]
      exact Machine.isAwaiting_advance hc hi
    have hagree : Agree (c.next .stepOnce).machine m.advance := by
      rw [hmachine]
      exact hticked.symm.trans (h.advance hi)
    have hrest := hinside.imp (fun hall s hs => hall s (List.mem_cons_of_mem _ hs))
      (fun hall s hs => hall s (List.mem_cons_of_mem _ hs))
    obtain ⟨htrails, hlength, hends⟩ :=
      ih hloaded' hc' (Machine.isAwaiting_advance hm hi') hagree hrest
    rw [List.replicate_succ, trailAll, htrail, Machine.trail_succ_of_running hm,
      Machine.cycle_succ_of_running hm]
    exact ⟨.cons h htrails, congrArg Nat.succ hlength, hends⟩

/-- Two machines that no key keeps waiting and that agree in memory, registers, pixels and random
bytes, each through events of its own. If the instructions that one of them executes look neither
at the delay timer nor at the keys, it is never held up; and if the other one executes as many
instructions, or has room for as many, these are the same ones at the same addresses, and the
machines agree in the end. Single steps of a console and one tick with a budget of as many
instructions do this as well. -/
theorem schedules_agree :
    (∀ m n : Machine, m.isAwaiting = false → n.isAwaiting = false → Agree m n →
      ∀ events events', (∀ event ∈ events, event.KeepsProgram) →
        (∀ event ∈ events', event.KeepsProgram) →
        (∀ s ∈ m.trailAll events, s.nextInstruction.looksOutside = false) →
        (m.trailAll events).length = Machine.room events ∧
          ((n.trailAll events').length = (m.trailAll events).length ∨
              Machine.room events' = Machine.room events →
            (n.trailAll events').map Machine.fetched = (m.trailAll events).map Machine.fetched ∧
              Agree (m.respondAll events) (n.respondAll events'))) ∧
    ∀ (c : Console) (count : Nat), c.isLoaded = true → c.machine.isAwaiting = false →
      let steps := List.replicate count .stepOnce
      let ready := { c with cycles := count, status := .running }
      ((∀ s ∈ ready.trail .tick, s.nextInstruction.looksOutside = false) ∨
          ∀ s ∈ c.trailAll steps, s.nextInstruction.looksOutside = false) →
        (c.trailAll steps).map Machine.fetched = (ready.trail .tick).map Machine.fetched ∧
          (c.trailAll steps).length = count ∧
          Agree (c.after steps).machine (ready.next .tick).machine := by
  refine ⟨?_, ?_⟩
  · intro m n hm hn h events events' hkeeps hkeeps' hinside
    obtain ⟨-, -, hroom⟩ :=
      Machine.agree_of_schedules hm hm (Agree.refl m) hkeeps hkeeps hinside (.inl rfl)
    refine ⟨hroom.symm, ?_⟩
    intro hcount
    rw [hroom] at hcount
    obtain ⟨htrails, hends, -⟩ :=
      Machine.agree_of_schedules hm hn h hkeeps hkeeps' hinside hcount
    exact ⟨(Machine.map_fetched_of_agree htrails).symm, hends⟩
  · intro c count hloaded hrun steps ready hinside
    have hrunning : ready.status = .running := rfl
    have htrail : ready.trail .tick = c.machine.trail count := by
      rw [trail, if_pos hrunning]
    have hticked : Agree (c.machine.cycle count).2 (ready.next .tick).machine := by
      rw [next, perform, tick, if_pos hrunning]
      have htimers : Agree (c.machine.cycle count).2 (c.machine.tick count).2 :=
        ⟨rfl, rfl, rfl, rfl⟩
      exact htimers.trans (Agree.takeFrame (c.machine.tick count).2)
    rw [htrail] at hinside ⊢
    obtain ⟨htrails, hlength, hends⟩ := agree_stepOnce hloaded hrun hrun (Agree.refl _) hinside
    refine ⟨Machine.map_fetched_of_agree htrails, ?_, hends.trans hticked⟩
    rw [htrails.length_eq, hlength]

/-- A program that adds to a register, sets the sound timer, draws and rewrites its first
instruction. One run of eight instructions is divided into ticks with keys in between, the other
one into single steps. -/
theorem schedules_agree_under_self_modification :
    let program : List UInt8 :=
      [0x70, 0x05, 0xF0, 0x18, 0xD0, 0x05, 0xA2, 0x00, 0x61, 0x07, 0xF1, 0x55, 0x12, 0x00]
    let m := (Machine.boot .standard (.ofSeed 7)).loaded program
    let n := { m with timers := ⟨9, 1⟩ }
    let events := [.tick 5, .setKey 3 true, .advanceTimers, .tick 3]
    let events' := [.setKey 5 true] ++ List.replicate 7 .step ++
      [.advanceTimers, .setKey 5 false, .step]
    (n.trailAll events').map Machine.fetched = (m.trailAll events).map Machine.fetched ∧
      (m.respondAll events).registers.pc = (n.respondAll events').registers.pc ∧
      (m.respondAll events).memory = (n.respondAll events').memory ∧
      (m.respondAll events).memory.read 0x201 = 0x07 := by
  intro program m n events events'
  have hinside : ∀ s ∈ m.trailAll events, s.nextInstruction.looksOutside = false := by
    decide +kernel
  obtain ⟨-, hagree⟩ := schedules_agree.1 m n rfl rfl ⟨rfl, rfl, rfl, rfl⟩ events events'
    (by simp [events, Machine.Event.KeepsProgram]) (by simp [events', Machine.Event.KeepsProgram])
    hinside
  obtain ⟨htrails, hends⟩ := hagree (.inr rfl)
  exact ⟨htrails, congrArg Registers.pc hends.registers, hends.memory, by decide +kernel⟩

end Console
end ChipEight
