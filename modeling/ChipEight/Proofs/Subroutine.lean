import ChipEight.Proofs.Event

/-!
Subroutines. A call puts the address behind itself on the stack, and as long as the stack stays
deeper than it was before the call, that address and everything below it lie untouched, whatever
the program does to its memory, its registers or its program counter. The first step after which
the stack is no deeper than before is a return: it restores the stack of the caller and continues
behind the call.
-/
namespace ChipEight

namespace Instruction

theorem ofArithmetic_ne_ret (word : UInt16) : ofArithmetic word ≠ .ret := by
  unfold ofArithmetic
  split <;> nofun

theorem ofMiscellany_ne_ret (word : UInt16) : ofMiscellany word ≠ .ret := by
  unfold ofMiscellany
  split <;> nofun

/-- The return is written in one way only. -/
theorem eq_of_decode_eq_ret {word : UInt16} (h : decode word = .ret) : word = 0x00EE := by
  rw [decode] at h
  split at h
  case h_1 =>
    split at h
    · cases h
    · split at h
      · assumption
      · cases h
  case h_6 | h_10 => split at h <;> cases h
  case h_9 => exact absurd h (ofArithmetic_ne_ret word)
  case h_15 =>
    split at h
    · cases h
    · split at h <;> cases h
  case h_16 => exact absurd h (ofMiscellany_ne_ret word)
  all_goals cases h

theorem decode_of_family_two {word : UInt16} (h : family word = 2) :
    decode word = .call (operandNNN word) := by
  rw [decode, h]
  rfl

end Instruction

namespace Machine

/-- At most one instruction, and neither a load nor a reset. -/
def Event.Stepwise : Event → Prop
  | step | advanceTimers | takeFrame | setKey .. => True
  | tick _ | load _ | reset => False

def depth (m : Machine) : Nat := m.registers.stack.length

/-- The event executes a return, which goes back to `address` and leaves `outer` on the stack. -/
structure ReturnsTo (m : Machine) (event : Event) (address : UInt16) (outer : List UInt16) :
    Prop where
  event_eq : event = .step
  running : m.isAwaiting = false
  nextWord : m.nextWord = 0x00EE
  stack : (m.respond event).registers.stack = outer
  pc : (m.respond event).registers.pc = address

theorem stack_respond_of_ne_step (m : Machine) {event : Event} (he : event.Stepwise)
    (hne : event ≠ .step) : (m.respond event).registers.stack = m.registers.stack := by
  cases event with
  | step => exact absurd rfl hne
  | tick budget => exact he.elim
  | advanceTimers => rfl
  | takeFrame => rw [respond_takeFrame]
  | setKey key pressed =>
    rw [respond, setKey]
    cases m.keypad.setKey key pressed with
    | error rejection => rfl
    | ok keypad => cases m.keypad.awaited pressed <;> rfl
  | load program => exact he.elim
  | reset => exact he.elim

theorem pc_advance_of_ret {m : Machine} {address : UInt16} {outer : List UInt16}
    (hnext : m.nextInstruction = .ret) (hstack : m.registers.stack = address :: outer) :
    m.advance.registers.pc = address := by
  have hmoved : (m.mapRegisters Registers.advance).registers.stack = address :: outer := hstack
  rw [advance, hnext, execute, mapRegisters, Registers.ret_of_stack_cons hmoved]

theorem length_stackAfter (m : Machine) (i : Instruction) :
    (m.stackAfter i).length ≤ m.depth + 1 ∧ m.depth ≤ (m.stackAfter i).length + 1 := by
  cases i with
  | call target => exact ⟨Nat.le_refl _, Nat.le_add_right m.depth 2⟩
  | ret =>
    have htail : (m.stackAfter .ret).length = m.depth - 1 := List.length_tail
    omega
  | _ => exact ⟨Nat.le_succ _, Nat.le_succ _⟩

/-- An event takes at most one address off the stack or puts at most one onto it. -/
theorem depth_respond (m : Machine) {event : Event} (he : event.Stepwise) :
    (m.respond event).depth ≤ m.depth + 1 ∧ m.depth ≤ (m.respond event).depth + 1 := by
  by_cases hstep : event = .step
  · subst hstep
    cases hrun : m.isAwaiting with
    | true =>
      rw [respond_step_of_awaiting hrun]
      omega
    | false =>
      rw [respond_step_of_running hrun, depth, stack_advance]
      exact (m.mapRegisters Registers.advance).length_stackAfter m.nextInstruction
  · rw [depth, m.stack_respond_of_ne_step he hstep]
    exact ⟨Nat.le_succ _, Nat.le_succ _⟩

/-- One event on the way: what lies below stays there, or the event returns to it. -/
theorem suffix_respond {m : Machine} {address : UInt16} {outer : List UInt16} {event : Event}
    (he : event.Stepwise) (h : address :: outer <:+ m.registers.stack) :
    address :: outer <:+ (m.respond event).registers.stack ∨ m.ReturnsTo event address outer := by
  by_cases hstep : event = .step
  · subst hstep
    cases hrun : m.isAwaiting with
    | true =>
      rw [respond_step_of_awaiting hrun]
      exact .inl h
    | false =>
      rw [respond_step_of_running hrun, stack_advance]
      cases hnext : m.nextInstruction with
      | call target => exact .inl (h.trans (List.suffix_cons ..))
      | ret =>
        obtain ⟨upper, hupper⟩ := h
        cases upper with
        | nil =>
          have hstack : m.registers.stack = address :: outer := hupper.symm
          refine .inr ⟨rfl, hrun, Instruction.eq_of_decode_eq_ret hnext, ?_, ?_⟩
          · rw [respond_step_of_running hrun, stack_advance, hnext]
            exact congrArg List.tail hstack
          · rw [respond_step_of_running hrun]
            exact pc_advance_of_ret hnext hstack
        | cons newest upper =>
          have hstack : m.registers.stack = newest :: (upper ++ address :: outer) := hupper.symm
          have htail : m.registers.stack.tail = upper ++ address :: outer := by
            rw [hstack, List.tail_cons]
          exact .inl ⟨upper, htail.symm⟩
      | _ => exact .inl h
  · rw [m.stack_respond_of_ne_step he hstep]
    exact .inl h

/-- While the stack stays deeper than `outer`, the address on top of `outer` stays
in its place. -/
theorem suffix_respondAll {m : Machine} {address : UInt16} {outer : List UInt16}
    {events : List Event} (hall : ∀ event ∈ events, event.Stepwise)
    (h : address :: outer <:+ m.registers.stack)
    (hdeep : ∀ n ≤ events.length, outer.length < (m.respondAll (events.take n)).depth) :
    address :: outer <:+ (m.respondAll events).registers.stack := by
  induction events generalizing m with
  | nil => exact h
  | cons event rest ih =>
    have he : event.Stepwise := hall event (List.mem_cons_self ..)
    have hrest : ∀ n ≤ rest.length,
        outer.length < ((m.respond event).respondAll (rest.take n)).depth :=
      fun n hn => hdeep (n + 1) (Nat.succ_le_succ hn)
    have hnext : address :: outer <:+ (m.respond event).registers.stack := by
      rcases suffix_respond he h with hsuffix | hreturns
      · exact hsuffix
      · -- A return to `outer` would leave the stack as deep as `outer`.
        have hdepth : (m.respond event).depth = outer.length :=
          congrArg List.length hreturns.stack
        have hdeeper : outer.length < (m.respond event).depth := hrest 0 (Nat.zero_le _)
        omega
    exact ih (fun e hmem => hall e (List.mem_cons_of_mem _ hmem)) hnext hrest

/-- The event with which the stack gets as low as `outer` again is the return to `outer`. -/
theorem returnsTo_of_depth_le {m : Machine} {address : UInt16} {outer : List UInt16}
    {event : Event} (he : event.Stepwise) (h : address :: outer <:+ m.registers.stack)
    (hlow : (m.respond event).depth ≤ outer.length) : m.ReturnsTo event address outer := by
  rcases suffix_respond he h with hsuffix | hreturns
  · have hlength : outer.length + 1 ≤ (m.respond event).depth := hsuffix.length_le
    omega
  · exact hreturns

/-- A word `2nnn` that is executed puts the address behind it on the stack. While the stack stays
deeper than before, that address and the stack below it stay in their place through any steps, key
events and timer ticks. The event after which the stack is no deeper than before executes `00EE`,
restores the stack of the call and goes on behind it. No event moves the stack by more than one
address, and a return without an address does nothing but move on. -/
theorem subroutine_discipline :
    (∀ m : Machine, m.isAwaiting = false → Instruction.family m.nextWord = 2 →
      let back := m.registers.pc + 2
      let outer := m.registers.stack
      m.step = some (m.registers.pc, m.advance) ∧ m.advance.registers.stack = back :: outer ∧
        ∀ events, (∀ event ∈ events, event.Stepwise) →
          (∀ n ≤ events.length, outer.length < (m.advance.respondAll (events.take n)).depth) →
          back :: outer <:+ (m.advance.respondAll events).registers.stack ∧
            ∀ event, event.Stepwise →
              (m.advance.respondAll (events ++ [event])).depth ≤ outer.length →
              (m.advance.respondAll events).ReturnsTo event back outer) ∧
    (∀ (m : Machine) (event : Event), event.Stepwise →
      (m.respond event).depth ≤ m.depth + 1 ∧ m.depth ≤ (m.respond event).depth + 1) ∧
    ∀ m : Machine, m.isAwaiting = false → m.nextWord = 0x00EE → m.registers.stack = [] →
      m.step = some (m.registers.pc,
        { m with registers := { m.registers with pc := m.registers.pc + 2 } }) := by
  refine ⟨fun m hrun hcall => ?_, fun m event he => m.depth_respond he,
    fun m hrun hret hempty => ?_⟩
  · have hcalled : m.advance.registers.stack = (m.registers.pc + 2) :: m.registers.stack := by
      have hnext : m.nextInstruction = .call (Instruction.operandNNN m.nextWord) :=
        Instruction.decode_of_family_two hcall
      calc m.advance.registers.stack
          = (m.mapRegisters Registers.advance).stackAfter m.nextInstruction := m.stack_advance
        _ = (m.mapRegisters Registers.advance).stackAfter (.call _) := by rw [hnext]
        _ = (m.registers.pc + 2) :: m.registers.stack := rfl
    refine ⟨step_of_running hrun, hcalled, fun events hall hdeep => ?_⟩
    have hstart : (m.registers.pc + 2) :: m.registers.stack <:+ m.advance.registers.stack :=
      ⟨[], hcalled.symm⟩
    have hsuffix := suffix_respondAll hall hstart hdeep
    refine ⟨hsuffix, fun event he hlow => returnsTo_of_depth_le he hsuffix ?_⟩
    rwa [respondAll_append] at hlow
  · have hnext : m.nextInstruction = .ret :=
      calc m.nextInstruction = Instruction.decode 0x00EE := congrArg Instruction.decode hret
        _ = .ret := rfl
    have hmoved : (m.mapRegisters Registers.advance).registers.stack = [] := hempty
    rw [step_of_running hrun, advance, hnext, execute, mapRegisters,
      Registers.ret_of_stack_nil hmoved]
    rfl

/-- A program that calls a subroutine, which calls another one; a key is pressed in
the inner one. -/
theorem subroutine_discipline_of_nested_calls :
    let m := (boot .standard (.ofSeed 7)).loaded
      [0x22, 0x04, 0x12, 0x02, 0x22, 0x08, 0x00, 0xEE, 0x00, 0xEE]
    m.isAwaiting = false ∧ Instruction.family m.nextWord = 2 ∧
      m.advance.registers.stack = [0x202] ∧
      (m.advance.respondAll [.step, .setKey 3 true, .step]).ReturnsTo .step 0x202 [] := by
  intro m
  have hcall : Instruction.family m.nextWord = 2 := by decide +kernel
  obtain ⟨-, hstack, hinner⟩ := subroutine_discipline.1 m rfl hcall
  have hreturns := (hinner [.step, .setKey 3 true, .step] (by simp [Event.Stepwise])
    (by decide +kernel)).2 .step trivial (by decide +kernel)
  exact ⟨rfl, hcall, hstack, hreturns⟩

end Machine
end ChipEight
