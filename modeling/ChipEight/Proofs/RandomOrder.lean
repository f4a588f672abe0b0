import ChipEight.Proofs.Footprint
import ChipEight.Proofs.History

/-!
The order of random bytes. They come from an endless stream, one for each random instruction and
none for anything else. Loads and resets leave the place in the stream alone, so the random
instructions that have been executed since the machine was made have got the bytes of the stream
one after the other.
-/
namespace ChipEight

namespace Instruction

theorem decode_of_family_twelve {word : UInt16} (h : family word = 0xC) :
    decode word = .random (operandX word) (operandNN word) := by
  rw [decode, h]
  rfl

/-- The random instructions are the words `Cxnn`. -/
theorem isRandom_decode (word : UInt16) : (decode word).isRandom = (family word == 0xC) := by
  rw [Bool.eq_iff_iff, beq_iff_eq]
  constructor
  · intro hrandom
    cases hi : decode word with
    | random x nn =>
      have hrow : (decode word).row? = some (.xnn 0xC random) := by
        rw [hi]
        rfl
      exact (matches_of_row? hrow).1
    | _ =>
      rw [hi] at hrandom
      cases hrandom
  · intro hfamily
    rw [decode_of_family_twelve hfamily]
    rfl

end Instruction

namespace Machine

open Instruction

def takesByte (m : Machine) : Bool := family m.nextWord == 0xC

theorem random_advance (m : Machine) :
    m.advance.random = if m.takesByte then m.random.skipOne else m.random := by
  rw [takesByte, ← isRandom_decode]
  exact random_execute ..

/-- A random instruction moves on, masks the next byte and writes it to its register. -/
theorem registers_advance_of_takesByte {m : Machine} (h : m.takesByte = true) :
    m.advance.registers = m.registers.advance.set (operandX m.nextWord)
      (m.random.next &&& operandNN m.nextWord) := by
  have hnext : m.nextInstruction = .random (operandX m.nextWord) (operandNN m.nextWord) :=
    decode_of_family_twelve (beq_iff_eq.mp h)
  rw [advance, hnext]
  rfl

/-- The random bytes are handed on from state to state: each of the states has those that the
instruction before it has left, and the last instruction leaves `rest`. -/
inductive HandsOn : RandomBytes → List Machine → RandomBytes → Prop
  | done (rest : RandomBytes) : HandsOn rest [] rest
  | pass {s : Machine} {states : List Machine} {rest : RandomBytes}
      (h : HandsOn s.advance.random states rest) : HandsOn s.random (s :: states) rest

namespace HandsOn

variable {first middle last : RandomBytes} {states later : List Machine}

theorem append (h : HandsOn first states middle) (h' : HandsOn middle later last) :
    HandsOn first (states ++ later) last := by
  induction h with
  | done => exact h'
  | pass _ ih => exact .pass (ih h')

/-- As many bytes have been used as random instructions have been executed. -/
theorem last_eq (h : HandsOn first states last) :
    last = ⟨first.stream, first.used + states.countP takesByte⟩ := by
  induction h with
  | done => rfl
  | @pass s states last _ ih =>
    rw [ih, random_advance, List.countP_cons]
    cases s.takesByte with
    | true =>
      exact congrArg (RandomBytes.mk _) (by simp only [RandomBytes.skipOne, if_true]; omega)
    | false => rfl

/-- The random instructions come upon the bytes one after the other. -/
theorem random_of_filter (h : HandsOn first states last) {k : Nat} {s : Machine}
    (hs : (states.filter takesByte)[k]? = some s) :
    s.random = ⟨first.stream, first.used + k⟩ := by
  induction h generalizing k with
  | done => cases hs
  | @pass t states last _ ih =>
    rw [random_advance] at ih
    cases ht : t.takesByte with
    | false =>
      rw [List.filter_cons_of_neg (by rw [ht]; exact Bool.false_ne_true)] at hs
      rw [ht] at ih
      exact ih hs
    | true =>
      rw [List.filter_cons_of_pos ht] at hs
      rw [ht] at ih
      cases k with
      | zero =>
        obtain rfl := Option.some.inj hs
        rfl
      | succ k =>
        rw [ih hs]
        exact congrArg (RandomBytes.mk _) (by simp only [RandomBytes.skipOne, if_true]; omega)

end HandsOn

theorem handsOn_trail (n : Nat) (m : Machine) :
    HandsOn m.random (m.trail n) (m.cycle n).2.random := by
  induction n generalizing m with
  | zero => exact .done _
  | succ n ih =>
    cases hrun : m.isAwaiting with
    | true =>
      rw [trail_of_awaiting hrun, cycle_of_awaiting hrun]
      exact .done _
    | false =>
      rw [trail_succ_of_running hrun, cycle_succ_of_running hrun]
      exact .pass (ih m.advance)

/-- Only the instructions that an event executes take random bytes. -/
theorem handsOn_respond (m : Machine) (event : Event) :
    HandsOn m.random (m.eventTrail event) (m.respond event).random := by
  cases event with
  | step =>
    rw [respond_step]
    exact handsOn_trail 1 m
  | tick budget => exact handsOn_trail budget m
  | advanceTimers => exact .done _
  | takeFrame =>
    rw [respond_takeFrame]
    exact .done _
  | setKey key pressed =>
    rw [respond_setKey_eq]
    exact .done _
  | load program =>
    by_cases hp : Acceptable program
    · rw [m.respond_load_of_acceptable hp]
      exact .done _
    · rw [m.respond_load_of_not_acceptable hp]
      exact .done _
  | reset => exact .done _

theorem handsOn_respondAll (m : Machine) (events : List Event) :
    HandsOn m.random (m.trailAll events) (m.respondAll events).random := by
  induction events generalizing m with
  | nil => exact .done _
  | cons event rest ih => exact (m.handsOn_respond event).append (ih _)

/-- The instructions that have been executed in these states have served themselves from the
stream in their order, and the machine has nothing else of it. -/
structure Served (stream : Nat → UInt8) (executed : List Machine) (m : Machine) : Prop where
  nth : ∀ k s, (executed.filter takesByte)[k]? = some s →
    (∀ z, s.advance.reg z =
        if operandX s.nextWord = z then stream k &&& operandNN s.nextWord else s.reg z) ∧
      s.advance.registers.i = s.registers.i
  others : ∀ s ∈ executed, s.takesByte = false → s.advance.random = s.random
  random_eq : m.random = ⟨stream, executed.countP takesByte⟩

theorem HandsOn.served {stream : Nat → UInt8} {executed : List Machine} {m : Machine}
    (h : HandsOn (.ofStream stream) executed m.random) : Served stream executed m where
  nth k s hs := by
    have hrandom : s.random = ⟨stream, k⟩ :=
      (h.random_of_filter hs).trans (congrArg (RandomBytes.mk stream) (Nat.zero_add k))
    have htakes : s.takesByte = true := (List.mem_filter.mp (List.mem_of_getElem? hs)).2
    have hregisters := registers_advance_of_takesByte htakes
    rw [hrandom] at hregisters
    refine ⟨fun z => ?_, congrArg (·.i) hregisters⟩
    rw [reg, hregisters]
    exact Registers.get_set ..
  others s _ hother := by
    rw [random_advance, hother]
    rfl
  random_eq := h.last_eq.trans (congrArg (RandomBytes.mk stream) (Nat.zero_add _))

end Machine

namespace Console

open Machine

theorem handsOn_next (c : Console) (action : Action) :
    HandsOn c.machine.random (c.trail action) (c.next action).machine.random := by
  have hrun : ∀ budget, HandsOn c.machine.random (c.machine.trail budget)
      (ticked c.machine budget).random := by
    intro budget
    rw [ticked_eq]
    exact handsOn_trail budget c.machine
  refine perform_cases (Q := fun trail outcome =>
      HandsOn c.machine.random trail (c.settled outcome).machine.random) (fun _ => .done _)
    (.done _) (fun _ _ _ => .done _) (fun _ _ _ => .done _) (fun _ _ _ => .done _) (.done _)
    (fun _ => hrun c.cycles) (fun _ _ => hrun 1) (fun key pressed m _ hkey => ?_) action
  rw [eq_of_setKey hkey]
  exact .done _

theorem handsOn_after (c : Console) (actions : List Action) :
    HandsOn c.machine.random (c.trailAll actions) (c.after actions).machine.random := by
  induction actions generalizing c with
  | nil => exact .done _
  | cons action rest ih => exact (c.handsOn_next action).append (ih _)

/-- Of the random instructions that a machine has executed since it was made, through any events
and then through any actions of a console around it, the `k`th has written the `k`th byte of the
stream, masked, to its register and changed no other one. Nothing else takes a byte of the stream:
neither another instruction nor a load, a reset, a replay, a key event or a refused request. -/
theorem random_bytes_in_order (config : Config) (stream : Nat → UInt8) (events : List Event) :
    let m := boot config (.ofStream stream)
    Served stream (m.trailAll events) (m.respondAll events) ∧
      ∀ c, ofMachine (m.respondAll events) = .ok c → ∀ actions,
        Served stream (m.trailAll events ++ c.trailAll actions) (c.after actions).machine := by
  intro m
  have hevents : HandsOn (.ofStream stream) (m.trailAll events) (m.respondAll events).random :=
    m.handsOn_respondAll events
  refine ⟨hevents.served, fun c hc actions => ?_⟩
  have hstart : c.machine = m.respondAll events := by rw [(eq_of_ofMachine hc).2]
  have hactions := c.handsOn_after actions
  rw [hstart] at hactions
  exact (hevents.append hactions).served

/-- A random instruction before a reset, a refused load, and two in a console that has taken the
machine over: the last of them gets the third byte. -/
theorem random_bytes_in_order_after_reset :
    let program : List UInt8 := [0xC0, 0xFF, 0xC1, 0x0F]
    let events : List Event := [.load program, .step, .reset, .load []]
    let actions : List Action := [.load program true, .tick]
    let stream : Nat → UInt8 := fun k => 0xA0 + UInt8.ofNat k
    let m := boot .standard (.ofStream stream)
    ∃ c, ofMachine (m.respondAll events) = .ok c ∧ ∃ s,
      ((m.trailAll events ++ c.trailAll actions).filter takesByte)[2]? = some s ∧
        s.nextWord = 0xC10F ∧ s.advance.reg 1 = 0x02 ∧
        (c.after actions).machine.random = ⟨stream, 3⟩ := by
  intro program events actions stream m
  let c : Console := ⟨m.respondAll events, 10, .initial, none, [], .stopped⟩
  let executed := m.trailAll events ++ c.trailAll actions
  have hconfig : (m.respondAll events).config = .standard := by decide +kernel
  have hc : ofMachine (m.respondAll events) = .ok c := by
    rw [ofMachine, hconfig]
    rfl
  have hwords : (executed.filter takesByte).map nextWord = [0xC0FF, 0xC0FF, 0xC10F] := by
    decide +kernel
  have hcount : (executed.filter takesByte).length = 3 := by
    rw [← List.length_map nextWord, hwords]
    rfl
  have hlength : 2 < (executed.filter takesByte).length := by
    rw [hcount]
    decide
  have hs := List.getElem?_eq_getElem hlength
  have hword : (executed.filter takesByte)[2].nextWord = 0xC10F := by
    have hthird := congrArg (·[2]?) hwords
    rw [List.getElem?_map, hs] at hthird
    exact Option.some.inj hthird
  have hserved := (random_bytes_in_order .standard stream events).2 c hc actions
  refine ⟨c, hc, _, hs, hword, ?_, ?_⟩
  · rw [(hserved.nth 2 _ hs).1, hword, if_pos (by decide)]
    decide
  · rw [hserved.random_eq]
    exact congrArg (RandomBytes.mk stream) (List.countP_eq_length_filter.trans hcount)

end Console
end ChipEight
