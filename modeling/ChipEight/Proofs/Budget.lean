import ChipEight.Proofs.History
import ChipEight.Proofs.Event
import ChipEight.Proofs.OpcodeTable

/-!
The budget of a tick. A tick asks for steps until one is refused or the budget is used up. To go
on asking would change nothing: a machine that refuses a step stays as it is and refuses the next
one as well. So a tick does what a plain loop over its whole budget does, and a budget may be
spent in parts.
-/
namespace ChipEight

namespace Machine

/-- The answers to `n` requests for a step, each made whatever the ones before it were answered,
and the machine after them. -/
def requests : Nat → Machine → List (Option UInt16) × Machine
  | 0, m => ([], m)
  | n + 1, m =>
    let (answers, last) := requests n (m.respond .step)
    (m.step.map Prod.fst :: answers, last)

variable {m : Machine}

theorem requests_of_awaiting (h : m.isAwaiting = true) (n : Nat) :
    m.requests n = (List.replicate n none, m) := by
  induction n with
  | zero => rfl
  | succ n ih =>
    rw [requests, respond_step_of_awaiting h, ih, (step_eq_none_iff m).mpr h]
    rfl

theorem requests_succ_of_running (h : m.isAwaiting = false) (n : Nat) :
    m.requests (n + 1) =
      (some m.registers.pc :: (m.advance.requests n).1, (m.advance.requests n).2) := by
  rw [requests, respond_step_of_running h, step_of_running h]
  rfl

/-- The requests of a plain loop are answered as those of a cycle, which then breaks off, and by
refusals from there on. -/
theorem requests_eq (n : Nat) (m : Machine) :
    m.requests n =
      ((m.cycle n).1.map some ++ List.replicate (n - (m.cycle n).1.length) none,
        (m.cycle n).2) := by
  induction n generalizing m with
  | zero => rfl
  | succ n ih =>
    cases hrun : m.isAwaiting with
    | true =>
      rw [requests_of_awaiting hrun, cycle_of_awaiting hrun]
      rfl
    | false =>
      rw [requests_succ_of_running hrun, cycle_succ_of_running hrun, ih]
      simp only [List.map_cons, List.cons_append, List.length_cons, Nat.add_sub_add_right]

/-- A cycle that executes fewer instructions than it may ends in a wait for a key. -/
theorem length_cycle_eq_or_isAwaiting (n : Nat) (m : Machine) :
    (m.cycle n).1.length = n ∨ (m.cycle n).2.isAwaiting = true := by
  induction n generalizing m with
  | zero => exact .inl rfl
  | succ n ih =>
    cases hrun : m.isAwaiting with
    | true =>
      rw [cycle_of_awaiting hrun]
      exact .inr hrun
    | false =>
      rw [cycle_succ_of_running hrun]
      exact (ih m.advance).imp_left (congrArg Nat.succ)

/-- A budget may be spent in two parts. -/
theorem cycle_add (first second : Nat) (m : Machine) :
    m.cycle (first + second) =
      ((m.cycle first).1 ++ ((m.cycle first).2.cycle second).1,
        ((m.cycle first).2.cycle second).2) := by
  induction first generalizing m with
  | zero => rw [Nat.zero_add]; rfl
  | succ first ih =>
    rw [Nat.succ_add]
    cases hrun : m.isAwaiting with
    | true => rw [cycle_of_awaiting hrun, cycle_of_awaiting hrun, cycle_of_awaiting hrun]; rfl
    | false => rw [cycle_succ_of_running hrun, cycle_succ_of_running hrun, ih]; rfl

theorem requests_add (first second : Nat) (m : Machine) :
    m.requests (first + second) =
      ((m.requests first).1 ++ ((m.requests first).2.requests second).1,
        ((m.requests first).2.requests second).2) := by
  induction first generalizing m with
  | zero => rw [Nat.zero_add]; rfl
  | succ first ih =>
    rw [Nat.succ_add, requests, ih]
    rfl

theorem length_requests (n : Nat) (m : Machine) : (m.requests n).1.length = n := by
  induction n generalizing m with
  | zero => rfl
  | succ n ih => exact congrArg Nat.succ (ih _)

/-- Once a wait for a key has been executed every further request is refused. -/
theorem drop_requests_of_awaitKey {n j : Nat} {x : Fin 16} (hj : j < n)
    (hrun : (m.requests j).2.isAwaiting = false)
    (hwait : (m.requests j).2.nextInstruction = .awaitKey x) :
    (m.requests n).1.drop (j + 1) = List.replicate (n - (j + 1)) none := by
  obtain ⟨later, rfl⟩ : ∃ later, n = j + 1 + later := ⟨n - (j + 1), by omega⟩
  have hnext : (m.requests (j + 1)).2 = (m.requests j).2.advance := by
    rw [requests_add, requests_succ_of_running hrun]
    rfl
  have hawaiting : (m.requests (j + 1)).2.isAwaiting = true := by
    rw [hnext, isAwaiting_iff]
    exact ⟨x, (execution_advance_eq_awaitingKey_iff hrun x).mpr hwait⟩
  rw [requests_add, List.drop_left' (length_requests ..), requests_of_awaiting hawaiting,
    Nat.add_sub_cancel_left]

/-- A tick reports the places of the answered requests and ends with a countdown. -/
theorem tick_eq (n : Nat) (m : Machine) :
    m.tick n =
      ({ executed := (m.requests n).1.filterMap fun answer => answer.bind Listing.indexOf
         beep := (m.requests n).2.advanceTimers.1 },
        (m.requests n).2.advanceTimers.2) := by
  have hrefused : ∀ count, (List.replicate count (none : Option UInt16)).filterMap
      (fun answer => answer.bind Listing.indexOf) = [] :=
    fun count => List.filterMap_replicate_of_none rfl
  rw [requests_eq, List.filterMap_append, List.filterMap_map, hrefused, List.append_nil]
  rfl

theorem tick_one (m : Machine) :
    m.tick 1 =
      ({ executed := (m.step.bind fun (address, _) => Listing.indexOf address).toList
         beep := (m.respond .step).advanceTimers.1 },
        (m.respond .step).advanceTimers.2) := by
  have hplaces : [m.step.map Prod.fst].filterMap (fun answer => answer.bind Listing.indexOf) =
      (m.step.bind fun (address, _) => Listing.indexOf address).toList := by
    cases m.step with
    | none => rfl
    | some stepped => cases h : Listing.indexOf stepped.1 <;> simp [h]
  rw [tick_eq, ← hplaces]
  rfl

theorem countP_requests (n : Nat) (m : Machine) :
    (m.requests n).1.countP Option.isSome = (m.cycle n).1.length := by
  have hanswered : (m.cycle n).1.countP (Option.isSome ∘ some) = (m.cycle n).1.length :=
    List.countP_eq_length.mpr fun _ _ => rfl
  rw [requests_eq, List.countP_append, List.countP_map, List.countP_replicate, hanswered]
  rfl

end Machine

namespace Console

open Machine Instruction

/-- A tick, which breaks off at the first refusal, does what requests for its whole budget and one
countdown do, and reports the places of those that are answered. Fewer of them are answered only
if a key is awaited behind them, and a wait for a key that is executed is the last instruction of
its tick. A single step is a tick with a budget of one, for a machine and for the console around
it. A budget may be spent in parts. -/
theorem ticks_spend_their_budget :
    (∀ (m : Machine) (n : Nat),
      let (answers, last) := m.requests n
      m.tick n =
          ({ executed := answers.filterMap fun answer => answer.bind Listing.indexOf
             beep := last.advanceTimers.1 },
            last.advanceTimers.2) ∧
        (answers.countP Option.isSome = n ∨ (m.tick n).2.isAwaiting = true) ∧
        ∀ (j : Nat) (x : Fin 16), j < n → (m.requests j).2.isAwaiting = false →
          (m.requests j).2.nextWord = wordXNN 0xF x 0x0A →
          answers.drop (j + 1) = List.replicate (n - (j + 1)) none) ∧
      (∀ m : Machine, m.tick 1 =
        ({ executed := (m.step.bind fun (address, _) => Listing.indexOf address).toList
           beep := (m.respond .step).advanceTimers.1 },
          (m.respond .step).advanceTimers.2)) ∧
      (∀ c : Console, c.isLoaded = true → c.machine.isAwaiting = false →
        let slow : Console := { c with cycles := 1, status := .running }
        c.stepOnce = ({ slow.tick.1 with cycles := c.cycles, status := .paused }, slow.tick.2)) ∧
      ∀ (m : Machine) (first second : Nat),
        m.cycle (first + second) =
          ((m.cycle first).1 ++ ((m.cycle first).2.cycle second).1,
            ((m.cycle first).2.cycle second).2) := by
  refine ⟨?_, tick_one, ?_, fun m first second => cycle_add first second m⟩
  · intro m n
    refine ⟨tick_eq n m, ?_, fun j x hj hready hword => ?_⟩
    · rw [countP_requests]
      exact length_cycle_eq_or_isAwaiting n m
    · have hwait : (m.requests j).2.nextInstruction = .awaitKey x :=
        decode_of_eq_encode trivial hword
      exact drop_requests_of_awaitKey hj hready hwait
  · intro c hloaded hrun slow
    have hready : (c.isLoaded && !c.machine.isAwaiting) = true := by
      rw [hloaded, hrun]
      rfl
    rw [stepOnce, if_pos hready]
    rfl

/-- A program that waits for a key with its second instruction: of ten requests two are answered,
and the rest of them change nothing. The console takes the same first step alone. -/
theorem ticks_spend_their_budget_before_wait :
    let program : List UInt8 := [0x70, 0x01, 0xF1, 0x0A, 0x70, 0x01]
    let m := (boot .standard (.ofSeed 7)).loaded program
    let c := (fresh .standard (.ofSeed 7)).loaded program false
    (m.requests 1).2.isAwaiting = false ∧ (m.requests 1).2.nextWord = wordXNN 0xF 1 0x0A ∧
      (m.requests 10).1.drop 2 = List.replicate 8 none ∧
      (m.tick 10).2 = (m.requests 10).2.advanceTimers.2 ∧ (m.tick 10).1.executed = [0, 1] ∧
      c.isLoaded = true ∧ c.machine.isAwaiting = false ∧
      c.stepOnce.1.machine =
        ({ c with cycles := 1, status := .running } : Console).tick.1.machine := by
  intro program m c
  have hword : (m.requests 1).2.nextWord = wordXNN 0xF 1 0x0A := by decide +kernel
  have hready : (m.requests 1).2.isAwaiting = false := by decide +kernel
  obtain ⟨htick, -, hlast⟩ := ticks_spend_their_budget.1 m 10
  refine ⟨hready, hword, hlast 1 1 (by decide) hready hword, congrArg Prod.snd htick,
    by decide +kernel, rfl, rfl, ?_⟩
  exact congrArg (·.1.machine) (ticks_spend_their_budget.2.2.1 c rfl rfl)

end Console
end ChipEight
