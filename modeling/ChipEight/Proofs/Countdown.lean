import ChipEight.Proofs.KeyWait
import Mathlib.Tactic.SplitIfs

/-!
Countdowns and beeps. The two timers are set by one instruction each and otherwise only count
down, once in every tick, also while a key is awaited. The sound timer beeps when it gets from one
to zero. So a value that it is set to is followed by one beep at most, and no beep comes without
such a value before it.
-/
namespace ChipEight

inductive Clock
  | delay
  | sound
deriving DecidableEq, Repr

namespace Timers

def read (t : Timers) : Clock → UInt8
  | .delay => t.delay
  | .sound => t.sound

theorem read_advance (t : Timers) (clock : Clock) :
    t.advance.read clock = countDown (t.read clock) := by
  cases clock <;> rfl

end Timers

namespace Machine

def sets (m : Machine) : Clock → Option UInt8
  | .delay =>
    match m.nextInstruction with
    | .setDelay x => some (m.reg x)
    | _ => none
  | .sound =>
    match m.nextInstruction with
    | .setSound x => some (m.reg x)
    | _ => none

/-- The value of a clock after some instructions that were executed in these states. -/
def lastSet (clock : Clock) (value : UInt8) (states : List Machine) : UInt8 :=
  states.foldl (fun value s => (s.sets clock).getD value) value

theorem lastSet_of_unset {clock : Clock} {states : List Machine}
    (h : ∀ s ∈ states, s.sets clock = none) (value : UInt8) :
    lastSet clock value states = value :=
  foldl_getD_of_none h value

theorem read_advance (m : Machine) (clock : Clock) :
    m.advance.timers.read clock = (m.sets clock).getD (m.timers.read clock) := by
  rw [timers_advance]
  cases clock with
  | delay =>
    unfold sets
    cases m.nextInstruction <;> rfl
  | sound =>
    unfold sets
    cases m.nextInstruction <;> rfl

theorem read_cycle (n : Nat) (m : Machine) (clock : Clock) :
    (m.cycle n).2.timers.read clock = lastSet clock (m.timers.read clock) (m.trail n) := by
  induction n generalizing m with
  | zero => rfl
  | succ n ih =>
    cases hrun : m.isAwaiting with
    | true =>
      rw [cycle_of_awaiting hrun, trail_of_awaiting hrun]
      rfl
    | false =>
      rw [cycle_succ_of_running hrun, trail_succ_of_running hrun, ih, read_advance]
      rfl

/-- A cycle is as many single steps. -/
theorem respondAll_replicate_step (n : Nat) (m : Machine) :
    m.respondAll (List.replicate n .step) = (m.cycle n).2 := by
  induction n generalizing m with
  | zero => rfl
  | succ n ih =>
    show (m.respond .step).respondAll (List.replicate n .step) = (m.cycle (n + 1)).2
    cases hrun : m.isAwaiting with
    | true =>
      rw [respond_step_of_awaiting hrun, ih, cycle_of_awaiting hrun, cycle_of_awaiting hrun]
    | false => rw [respond_step_of_running hrun, ih, cycle_succ_of_running hrun]

/-- An event lets a clock count down or leaves it alone, once its instructions have
been executed. -/
theorem read_respond (m : Machine) {event : Event} (hkeeps : event.KeepsProgram) (clock : Clock) :
    (m.respond event).timers.read clock =
      if event.countsDown then
        Timers.countDown (lastSet clock (m.timers.read clock) (m.eventTrail event))
      else lastSet clock (m.timers.read clock) (m.eventTrail event) := by
  cases event with
  | step =>
    rw [respond_step]
    exact read_cycle 1 m clock
  | tick budget =>
    show (m.cycle budget).2.timers.advance.read clock = _
    rw [Timers.read_advance, read_cycle]
    rfl
  | advanceTimers => exact Timers.read_advance ..
  | takeFrame =>
    rw [respond_takeFrame]
    rfl
  | setKey key pressed =>
    rw [respond_setKey_eq]
    rfl
  | load program => exact hkeeps.elim
  | reset => exact hkeeps.elim

theorem toNat_read_respond_of_unset {m : Machine} {event : Event} (hkeeps : event.KeepsProgram)
    {clock : Clock} (hunset : ∀ s ∈ m.eventTrail event, s.sets clock = none) :
    ((m.respond event).timers.read clock).toNat =
      (m.timers.read clock).toNat - if event.countsDown then 1 else 0 := by
  rw [m.read_respond hkeeps clock, lastSet_of_unset hunset]
  split
  · exact Timers.toNat_countDown _
  · rfl

/-- Without a count down a clock changes only through an instruction that sets it. -/
theorem exists_sets_of_read_ne {m : Machine} {event : Event} (hkeeps : event.KeepsProgram)
    (hdown : event.countsDown = false) {clock : Clock}
    (hne : (m.respond event).timers.read clock ≠ m.timers.read clock) :
    ∃ s ∈ m.eventTrail event, (s.sets clock).isSome = true := by
  refine Decidable.byContradiction fun hnone => hne ?_
  have hunset : ∀ s ∈ m.eventTrail event, s.sets clock = none := by
    intro s hs
    rw [← Option.not_isSome_iff_eq_none]
    exact fun hsome => hnone ⟨s, hs, hsome⟩
  rw [m.read_respond hkeeps clock, hdown, lastSet_of_unset hunset]
  rfl

/-- A clock that is not set goes down by one for each tick and rests at zero. -/
theorem toNat_read_respondAll_of_unset {m : Machine} {events : List Event}
    (hkeeps : ∀ event ∈ events, event.KeepsProgram) {clock : Clock}
    (hunset : ∀ s ∈ m.trailAll events, s.sets clock = none) :
    ((m.respondAll events).timers.read clock).toNat =
      (m.timers.read clock).toNat - events.countP Event.countsDown := by
  induction events generalizing m with
  | nil => rfl
  | cons event rest ih =>
    have hfirst := toNat_read_respond_of_unset (hkeeps event (List.mem_cons_self ..))
      (fun s hs => hunset s (List.mem_append_left _ hs))
    have hrest := ih (fun e he => hkeeps e (List.mem_cons_of_mem _ he))
      (fun s hs => hunset s (List.mem_append_right _ hs))
    show (((m.respond event).respondAll rest).timers.read clock).toNat = _
    rw [hrest, hfirst, List.countP_cons]
    omega

section Beep

def beeps (m : Machine) : Event → Bool
  | .tick budget => (m.tick budget).1.beep
  | .advanceTimers => m.advanceTimers.1
  | _ => false

def beepCount (m : Machine) : List Event → Nat
  | [] => 0
  | event :: rest => (if m.beeps event then 1 else 0) + (m.respond event).beepCount rest

theorem beepCount_append (m : Machine) (first second : List Event) :
    m.beepCount (first ++ second) =
      m.beepCount first + (m.respondAll first).beepCount second := by
  induction first generalizing m with
  | nil => exact (Nat.zero_add _).symm
  | cons event rest ih =>
    rw [List.cons_append, beepCount, beepCount, ih, Nat.add_assoc]
    rfl

theorem beeps_eq (m : Machine) (event : Event) :
    m.beeps event =
      (event.countsDown && lastSet .sound m.timers.sound (m.eventTrail event) == 1) := by
  cases event with
  | tick budget =>
    show ((m.cycle budget).2.timers.read .sound == 1) = _
    rw [read_cycle]
    rfl
  | _ => rfl

theorem beeps_iff_of_unset {m : Machine} {event : Event}
    (hunset : ∀ s ∈ m.eventTrail event, s.sets .sound = none) :
    m.beeps event = true ↔ event.countsDown = true ∧ m.timers.sound.toNat = 1 := by
  rw [beeps_eq, lastSet_of_unset hunset, Bool.and_eq_true, beq_iff_eq, ← UInt8.toNat_inj]
  rfl

/-- A sound that is not set again beeps when it has counted down from its value. -/
theorem beeps_iff_of_run {m : Machine} {events : List Event}
    (hkeeps : ∀ event ∈ events, event.KeepsProgram)
    (hunset : ∀ s ∈ m.trailAll events, s.sets .sound = none) {before after : List Event}
    {event : Event} (hevents : events = before ++ event :: after) :
    (m.respondAll before).beeps event = true ↔
      event.countsDown = true ∧ before.countP Event.countsDown + 1 = m.timers.sound.toNat := by
  subst hevents
  rw [trailAll_append, trailAll] at hunset
  have hbefore := toNat_read_respondAll_of_unset
    (fun e he => hkeeps e (List.mem_append_left _ he))
    (fun s hs => hunset s (List.mem_append_left _ hs))
  have hevent : ∀ s ∈ (m.respondAll before).eventTrail event, s.sets .sound = none := by
    intro s hs
    exact hunset s (List.mem_append_right _ (List.mem_append_left _ hs))
  have hsound : (m.respondAll before).timers.sound.toNat =
      m.timers.sound.toNat - before.countP Event.countsDown := hbefore
  rw [beeps_iff_of_unset hevent, hsound]
  refine and_congr_right fun _ => ?_
  omega

theorem beepCount_of_unset {m : Machine} {events : List Event}
    (hkeeps : ∀ event ∈ events, event.KeepsProgram)
    (hunset : ∀ s ∈ m.trailAll events, s.sets .sound = none) :
    m.beepCount events =
      if 1 ≤ m.timers.sound.toNat ∧ m.timers.sound.toNat ≤ events.countP Event.countsDown then 1
      else 0 := by
  induction events generalizing m with
  | nil =>
    have hnone : ¬ (1 ≤ m.timers.sound.toNat ∧ m.timers.sound.toNat ≤ 0) := by omega
    exact (if_neg hnone).symm
  | cons event rest ih =>
    have hevent : ∀ s ∈ m.eventTrail event, s.sets .sound = none :=
      fun s hs => hunset s (List.mem_append_left _ hs)
    have hfirst : (m.respond event).timers.sound.toNat =
        m.timers.sound.toNat - if event.countsDown then 1 else 0 :=
      toNat_read_respond_of_unset (hkeeps event (List.mem_cons_self ..)) hevent
    have hrest := ih (fun e he => hkeeps e (List.mem_cons_of_mem _ he))
      (fun s hs => hunset s (List.mem_append_right _ hs))
    have hbeeps := beeps_iff_of_unset hevent
    rw [beepCount, hrest, hfirst, List.countP_cons]
    cases hdown : event.countsDown with
    | false =>
      simp only [hdown, Bool.false_eq_true, false_and, iff_false] at hbeeps
      simp only [hbeeps, Bool.false_eq_true, if_false, Nat.zero_add, Nat.sub_zero, Nat.add_zero]
    | true =>
      simp only [hdown, true_and] at hbeeps
      simp only [hbeeps, if_true]
      split_ifs <;> omega

/-- The next instruction sets the sound timer to a value other than zero. -/
def arms (m : Machine) : Bool :=
  match m.sets .sound with
  | some value => value != 0
  | none => false

def sounding (value : UInt8) : Nat := if value = 0 then 0 else 1

theorem sounding_lastSet_le (value : UInt8) (states : List Machine) :
    sounding (lastSet .sound value states) ≤ states.countP arms + sounding value := by
  induction states generalizing value with
  | nil => exact Nat.le_add_left _ _
  | cons s rest ih =>
    have hrest := ih ((s.sets .sound).getD value)
    have hfirst : sounding ((s.sets .sound).getD value) ≤
        (if s.arms then 1 else 0) + sounding value := by
      unfold arms
      cases s.sets .sound with
      | none => exact Nat.le_add_left _ _
      | some new =>
        show sounding new ≤ (if (new != 0) = true then 1 else 0) + sounding value
        unfold sounding
        by_cases hnew : new = 0
        · rw [if_pos hnew]
          exact Nat.zero_le _
        · rw [if_neg hnew, if_pos (bne_iff_ne.mpr hnew)]
          exact Nat.le_add_right 1 _
    show sounding (lastSet .sound ((s.sets .sound).getD value) rest) ≤ _
    rw [List.countP_cons]
    omega

/-- The tick that beeps is the one that ends the sound. -/
theorem sounding_countDown (value : UInt8) :
    (if value == 1 then 1 else 0) + sounding (Timers.countDown value) = sounding value := by
  have hdown := Timers.toNat_countDown value
  have hone : value = 1 ↔ value.toNat = 1 := UInt8.toNat_inj.symm
  have hzero : value = 0 ↔ value.toNat = 0 := UInt8.toNat_inj.symm
  have hzero' : Timers.countDown value = 0 ↔ (Timers.countDown value).toNat = 0 :=
    UInt8.toNat_inj.symm
  unfold sounding
  simp only [beq_iff_eq, hone, hzero, hzero', hdown]
  split_ifs <;> omega

/-- A beep uses up a sound, and a new one comes only from an instruction. -/
theorem beeps_add_sounding_le {m : Machine} {event : Event} (hkeeps : event.KeepsProgram) :
    (if m.beeps event then 1 else 0) + sounding (m.respond event).timers.sound ≤
      (m.eventTrail event).countP arms + sounding m.timers.sound := by
  have hlast := sounding_lastSet_le m.timers.sound (m.eventTrail event)
  have hread : (m.respond event).timers.sound = _ := m.read_respond hkeeps .sound
  have hdown := sounding_countDown (lastSet .sound m.timers.sound (m.eventTrail event))
  rw [beeps_eq, hread]
  cases event.countsDown with
  | false =>
    simp only [Bool.false_and, Bool.false_eq_true, if_false, Nat.zero_add]
    exact hlast
  | true =>
    simp only [Bool.true_and, if_true]
    exact Nat.le_trans (Nat.le_of_eq hdown) hlast

theorem beepCount_le {m : Machine} {events : List Event}
    (hkeeps : ∀ event ∈ events, event.KeepsProgram) :
    m.beepCount events ≤ (m.trailAll events).countP arms + sounding m.timers.sound := by
  induction events generalizing m with
  | nil => exact Nat.zero_le _
  | cons event rest ih =>
    have hfirst := beeps_add_sounding_le (m := m) (hkeeps event (List.mem_cons_self ..))
    have hrest := ih (m := m.respond event) fun e he => hkeeps e (List.mem_cons_of_mem _ he)
    rw [beepCount, trailAll, List.countP_append]
    omega

/-- After a beep the sound is over. -/
theorem sound_of_beeps {m : Machine} {event : Event} (hkeeps : event.KeepsProgram)
    (hbeeps : m.beeps event = true) : (m.respond event).timers.sound = 0 := by
  rw [beeps_eq, Bool.and_eq_true, beq_iff_eq] at hbeeps
  have hread : (m.respond event).timers.sound = _ := m.read_respond hkeeps .sound
  rw [hread, if_pos hbeeps.1]
  show Timers.countDown (lastSet .sound m.timers.sound (m.eventTrail event)) = 0
  rw [hbeeps.2]
  rfl

theorem exists_arms_of_beeps {m : Machine} {first last : Event} {between : List Event}
    (hfirst : first.KeepsProgram) (hbetween : ∀ event ∈ between ++ [last], event.KeepsProgram)
    (hbeeps : m.beeps first = true)
    (hbeeps' : ((m.respond first).respondAll between).beeps last = true) :
    ∃ s ∈ (m.respond first).trailAll (between ++ [last]), s.arms = true := by
  have hle := beepCount_le (m := m.respond first) hbetween
  rw [sound_of_beeps hfirst hbeeps, beepCount_append, beepCount, if_pos hbeeps'] at hle
  have hsilent : sounding 0 = 0 := rfl
  apply List.countP_pos_iff.mp
  omega

end Beep

/-- Between ticks a timer changes only through an instruction that sets it, and a tick is as many
steps as its budget allows and one count down of both timers. A timer that is not set goes down by
one at each count down until it is zero. A count down beeps if the sound timer was one before it.
So a value other than zero that the sound timer is set to, if no other one follows, is followed by
one beep, at the count down with that number, and by none if there are fewer. Between two beeps
the sound timer is set to a value other than zero, and there is at most one beep for each such
value and one for the sound at the start. -/
theorem beeps_follow_sound :
    (∀ (clock : Clock) (m : Machine) (event : Event), event.KeepsProgram →
      event.countsDown = false →
      (m.respond event).timers.read clock ≠ m.timers.read clock →
        ∃ s ∈ m.eventTrail event, (s.sets clock).isSome = true) ∧
    (∀ (m : Machine) (budget : Nat),
      let stepped := m.respondAll (List.replicate budget .step)
      m.respond (.tick budget) = stepped.respond .advanceTimers ∧
        m.beeps (.tick budget) = stepped.beeps .advanceTimers) ∧
    (∀ (clock : Clock) (m : Machine) (events : List Event),
      (∀ event ∈ events, event.KeepsProgram) →
      (∀ s ∈ m.trailAll events, s.sets clock = none) →
        ((m.respondAll events).timers.read clock).toNat =
          (m.timers.read clock).toNat - events.countP Event.countsDown) ∧
    (∀ m : Machine, m.beeps .advanceTimers = true ↔ m.timers.sound = 1) ∧
    (∀ (m : Machine) (value : UInt8), m.isAwaiting = false → m.sets .sound = some value →
      value ≠ 0 → ∀ events, (∀ event ∈ events, event.KeepsProgram) →
        (∀ s ∈ (m.respond .step).trailAll events, s.sets .sound = none) →
          (∀ before event after, events = before ++ event :: after →
            (((m.respond .step).respondAll before).beeps event = true ↔
              event.countsDown = true ∧
                before.countP Event.countsDown + 1 = value.toNat)) ∧
          (m.respond .step).beepCount events =
            if value.toNat ≤ events.countP Event.countsDown then 1 else 0) ∧
    (∀ (m : Machine) (first last : Event) (between : List Event), first.KeepsProgram →
      (∀ event ∈ between ++ [last], event.KeepsProgram) → m.beeps first = true →
      ((m.respond first).respondAll between).beeps last = true →
        ∃ s ∈ (m.respond first).trailAll (between ++ [last]), s.arms = true) ∧
    ∀ (m : Machine) (events : List Event), (∀ event ∈ events, event.KeepsProgram) →
      m.beepCount events ≤
        (m.trailAll events).countP arms + if m.timers.sound = 0 then 0 else 1 := by
  refine ⟨?_, ?_, ?_, ?_, ?_, ?_, ?_⟩
  · intro clock m event hkeeps hdown hne
    exact exists_sets_of_read_ne hkeeps hdown hne
  · intro m budget stepped
    have hstepped : stepped = (m.cycle budget).2 := respondAll_replicate_step budget m
    rw [hstepped]
    exact ⟨rfl, rfl⟩
  · intro clock m events hkeeps hunset
    exact toNat_read_respondAll_of_unset hkeeps hunset
  · intro m
    exact beq_iff_eq
  · intro m value hrun hset hne events hkeeps hunset
    have hsound : (m.respond .step).timers.sound = value := by
      have hread := m.read_advance .sound
      rw [hset] at hread
      rw [respond_step_of_running hrun]
      exact hread
    have hpos : 1 ≤ value.toNat := by
      rw [Nat.one_le_iff_ne_zero]
      exact fun hzero => hne (UInt8.toNat_inj.mp hzero)
    refine ⟨?_, ?_⟩
    · intro before event after hevents
      rw [← hsound]
      exact beeps_iff_of_run hkeeps hunset hevents
    · rw [beepCount_of_unset hkeeps hunset, hsound]
      simp only [hpos, true_and]
  · intro m first last between hfirst hbetween hbeeps hbeeps'
    exact exists_arms_of_beeps hfirst hbetween hbeeps hbeeps'
  · intro m events hkeeps
    exact beepCount_le hkeeps

/-- A sound of length three whose end comes while the program waits for a key. -/
theorem beeps_follow_sound_through_key_wait :
    let m := ((boot .standard (.ofSeed 7)).loaded [0x60, 0x03, 0xF0, 0x18, 0xF1, 0x0A]).advance
    let events := [.tick 2, .setKey 4 false, .advanceTimers, .setKey 16 true, .tick 5]
    m.sets .sound = some 3 ∧
      ((m.respond .step).respondAll
        [.tick 2, .setKey 4 false, .advanceTimers]).isAwaiting = true ∧
      (m.respond .step).beepCount events = 1 := by
  intro m events
  have hset : m.sets .sound = some 3 := by decide +kernel
  obtain ⟨-, -, -, -, hsound, -⟩ := beeps_follow_sound
  have hcount := (hsound m 3 (by decide +kernel) hset (by decide) events
    (by simp [events, Event.KeepsProgram]) (by decide +kernel)).2
  exact ⟨hset, by decide +kernel, hcount⟩

end Machine
end ChipEight
