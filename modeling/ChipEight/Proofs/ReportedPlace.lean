import ChipEight.Proofs.Event
import ChipEight.Proofs.Screen

/-!
The places that are reported as executed. An instruction is fetched from the cell that the program
counter means, while its place in the listing is computed from the program counter itself. As long
as the program counter lies within memory, the place is that of the cell. Beyond the end of memory
it never is: a place is reported that no listing has.
-/
namespace ChipEight

namespace Listing

/-- The place of the word at a cell of memory; below the start of programs there is none. -/
def placeOf (cell : Fin Layout.memorySize) : Option Nat :=
  if 0x200 ≤ cell.val then some ((cell.val - 0x200) / 2) else none

variable {address : UInt16}

theorem indexOf_of_lt (h : address.toNat < 4096) :
    indexOf address = placeOf (Memory.cell address) := by
  rw [indexOf_eq, placeOf, Memory.cell_val, Nat.mod_eq_of_lt h]

/-- Every multiple of the size of memory adds as many places as memory has words. -/
theorem indexOf_of_le (h : 4096 ≤ address.toNat) :
    indexOf address =
      some (address.toNat / 4096 * 2048 + (Memory.cell address).val / 2 - 256) := by
  have hplace : (address.toNat - 0x200) / 2 =
      address.toNat / 4096 * 2048 + address.toNat % 4096 / 2 - 256 := by omega
  rw [indexOf_eq, if_pos (by omega), Memory.cell_val, hplace]

/-- No listing has more than 1792 words. -/
theorem indexOf_lt_iff {i : Nat} (h : indexOf address = some i) :
    i < 1792 ↔ address.toNat < 4096 := by
  rw [indexOf_eq] at h
  split at h
  · cases h
    omega
  · cases h

theorem placeOf_lt {cell : Fin Layout.memorySize} {i : Nat} (h : placeOf cell = some i) :
    i < 1792 := by
  have hcell : cell.val < 4096 := cell.isLt
  rw [placeOf] at h
  split at h
  · cases h
    omega
  · cases h

theorem indexOf_eq_placeOf_iff (address : UInt16) :
    indexOf address = placeOf (Memory.cell address) ↔ address.toNat < 4096 := by
  constructor
  · intro hsame
    apply Nat.lt_of_not_le
    intro hbeyond
    have hindex := indexOf_of_le hbeyond
    have hlt := (indexOf_lt_iff hindex).mp (placeOf_lt (hsame.symm.trans hindex))
    exact absurd hlt (Nat.not_lt.mpr hbeyond)
  · exact indexOf_of_lt

end Listing

namespace Machine

/-- A tick reports the places of the instructions it executes. -/
theorem mem_executed_iff (m : Machine) (budget i : Nat) :
    i ∈ (m.tick budget).1.executed ↔
      ∃ s ∈ m.trail budget, Listing.indexOf s.registers.pc = some i := by
  have hexecuted :
      (m.tick budget).1.executed = (m.cycle budget).1.filterMap Listing.indexOf := rfl
  rw [hexecuted, cycle_addresses, List.filterMap_map, List.mem_filterMap]
  rfl

theorem executed_lt_iff (m : Machine) (budget : Nat) :
    (∀ i ∈ (m.tick budget).1.executed, i < 1792) ↔
      ∀ s ∈ m.trail budget, s.registers.pc.toNat < 4096 := by
  constructor
  · intro hplaces s hs
    apply Nat.lt_of_not_le
    intro hbeyond
    have hindex := Listing.indexOf_of_le hbeyond
    have hreported := hplaces _ ((m.mem_executed_iff budget _).mpr ⟨s, hs, hindex⟩)
    exact absurd ((Listing.indexOf_lt_iff hindex).mp hreported) (Nat.not_lt.mpr hbeyond)
  · intro hwithin i hi
    obtain ⟨s, hs, hindex⟩ := (m.mem_executed_iff budget i).mp hi
    exact (Listing.indexOf_lt_iff hindex).mpr (hwithin s hs)

/-- A step executes the word at the cells of its address and the next one. -/
theorem fetch_of_step {m next : Machine} {address : UInt16} (h : m.step = some (address, next)) :
    address = m.registers.pc ∧
      next = (m.mapRegisters Registers.advance).execute (.decode (Word.ofBytes
        (m.memory.bytes.get (Memory.cell address))
        (m.memory.bytes.get (Memory.cell (address + 1))))) := by
  rw [step] at h
  split at h
  · cases h
  · cases h
    exact ⟨rfl, rfl⟩

/-- Behind a jump to the last word of memory the next instruction runs from beyond the end. -/
theorem step_of_jump_to_end :
    let m := (boot .standard (.ofSeed 7)).respondAll [.load [0x1F, 0xFE], .step, .step]
    m.step = some (0x1000, m.advance) := by
  intro m
  obtain ⟨hpc, hrun⟩ : m.registers.pc = 0x1000 ∧ m.isAwaiting = false := by decide +kernel
  rw [← hpc]
  exact step_of_running hrun

end Machine

namespace Console

def ObservesListed (signals : List Signal) : Prop :=
  ∀ o, .observe o ∈ signals → ∀ i ∈ o.executed, i < 1792

theorem observesListed_of_not_mem {signals : List Signal}
    (h : ∀ o, .observe o ∉ signals) : ObservesListed signals :=
  fun o ho => absurd ho (h o)

theorem observe_not_mem_notes (o : Observation) (list : List Note) : .observe o ∉ notes list := by
  simp [notes]

/-- The observation of a run holds the places of its tick, each of them once. -/
theorem observesListed_runTick (c : Console) (budget : Nat) :
    ObservesListed (c.runTick budget).2 ↔
      ∀ i ∈ (c.machine.tick budget).1.executed, i < 1792 := by
  have hmem : ∀ o, .observe o ∈ (c.runTick budget).2 ↔
      o = c.watch.observe (ticked c.machine budget).registers
        (c.machine.tick budget).1.executed := by
    intro o
    rw [runTick_signals]
    cases (c.machine.tick budget).1.beep <;> simp [notes]
  have hplaces : ∀ i, i ∈ (c.watch.observe (ticked c.machine budget).registers
      (c.machine.tick budget).1.executed).executed ↔ i ∈ (c.machine.tick budget).1.executed :=
    fun _ => List.mem_eraseDups
  constructor
  · intro hlisted i hi
    exact hlisted _ ((hmem _).mpr rfl) i ((hplaces i).mpr hi)
  · intro hlisted o ho i hi
    rw [hmem] at ho
    subst ho
    exact hlisted i ((hplaces i).mp hi)

theorem observesListed_signals (c : Console) (action : Action) :
    ObservesListed (c.signals action) ↔
      ∀ s ∈ c.trail action, s.registers.pc.toNat < 4096 := by
  have hquiet : ∀ {signals : List Signal}, (∀ o, .observe o ∉ signals) →
      (ObservesListed signals ↔ ∀ s ∈ ([] : List Machine), s.registers.pc.toNat < 4096) :=
    fun h => iff_of_true (observesListed_of_not_mem h) nofun
  have hrun : ∀ (d : Console) budget, ObservesListed (d.runTick budget).2 ↔
      ∀ s ∈ d.machine.trail budget, s.registers.pc.toNat < 4096 :=
    fun d budget => (d.observesListed_runTick budget).trans (d.machine.executed_lt_iff budget)
  refine perform_cases (Q := fun states outcome =>
    ObservesListed (sent outcome) ↔ ∀ s ∈ states, s.registers.pc.toNat < 4096)
    ?refused ?nothing ?status ?cycles ?load ?reset ?tick ?step ?key action
  case refused => exact fun _ => hquiet nofun
  case nothing => exact hquiet nofun
  case status => exact fun _ _ _ => hquiet (by simp [sent])
  case cycles => exact fun _ _ _ => hquiet (by simp [sent])
  case load => exact fun _ _ _ => hquiet (by simp [sent, loadSignals])
  case reset => exact hquiet (by simp [sent, reset])
  case tick => exact fun _ => hrun c c.cycles
  case step => exact fun _ _ => hrun { c with status := .paused } 1
  case key => exact fun _ _ _ _ _ => hquiet fun o => observe_not_mem_notes o _

/-- The place that a step reports is the one of the cell it fetches from if and only if the
program counter lies within memory. From an address beyond the end the step fetches around the
end, while the place counts on. So a tick and whatever a console is told to do report only places
of a listing if and only if no instruction runs from beyond the end of memory. -/
theorem reported_places_within_memory (m : Machine) (budget : Nat) (c : Console)
    (action : Action) :
    (∀ address next, m.step = some (address, next) →
      (address = m.registers.pc ∧
        next = (m.mapRegisters Registers.advance).execute (.decode (Word.ofBytes
          (m.memory.bytes.get (Memory.cell address))
          (m.memory.bytes.get (Memory.cell (address + 1)))))) ∧
      (Listing.indexOf address = Listing.placeOf (Memory.cell address) ↔ address.toNat < 4096) ∧
      (4096 ≤ address.toNat → Listing.indexOf address =
        some (address.toNat / 4096 * 2048 + (Memory.cell address).val / 2 - 256))) ∧
      ((∀ i ∈ (m.tick budget).1.executed, i < 1792) ↔
        ∀ s ∈ m.trail budget, s.registers.pc.toNat < 4096) ∧
      (ObservesListed (c.signals action) ↔
        ∀ s ∈ c.trail action, s.registers.pc.toNat < 4096) := by
  refine ⟨fun address next hstep => ?_, m.executed_lt_iff budget, c.observesListed_signals action⟩
  exact ⟨Machine.fetch_of_step hstep, Listing.indexOf_eq_placeOf_iff address,
    Listing.indexOf_of_le⟩

/-- A jump to the last word of memory. The step after it executes the last place of a listing, and
the next one runs the first word of the digit sprites from beyond the end of memory, which an
observer is told. -/
theorem reported_places_within_memory_up_to_end :
    let start := (Machine.boot .standard (.ofSeed 7)).respondAll [.load [0x1F, 0xFE]]
    let m := (Machine.boot .standard (.ofSeed 7)).respondAll [.load [0x1F, 0xFE], .step, .step]
    let c := (fresh .standard (.ofSeed 7)).after [.load [0x1F, 0xFE] true]
    m.step = some (0x1000, m.advance) ∧
      (Listing.indexOf 0x1000 = some 1792 ∧ Listing.placeOf (Memory.cell 0x1000) = none) ∧
      m.advance = (m.mapRegisters Registers.advance).execute (.unknown 0xF090) ∧
      ((start.tick 2).1.executed = [0, 1791] ∧
        ∀ s ∈ start.trail 2, s.registers.pc.toNat < 4096) ∧
      ¬ ObservesListed (c.signals .tick) := by
  intro start m c
  have hstep : m.step = some (0x1000, m.advance) := Machine.step_of_jump_to_end
  obtain ⟨hplace, -, hsignals⟩ := reported_places_within_memory m 0 c .tick
  obtain ⟨⟨-, hfetch⟩, -, hbeyond⟩ := hplace 0x1000 m.advance hstep
  obtain ⟨-, hticked, -⟩ := reported_places_within_memory start 2 c .tick
  have hindex := hbeyond (by decide)
  have hunknown : Instruction.decode 0xF090 = .unknown 0xF090 := by decide
  obtain ⟨hword, htwo, hout⟩ : Word.ofBytes (m.memory.bytes.get (Memory.cell 0x1000))
      (m.memory.bytes.get (Memory.cell (0x1000 + 1))) = 0xF090 ∧
      (start.tick 2).1.executed = [0, 1791] ∧
      ¬ ∀ s ∈ c.trail .tick, s.registers.pc.toNat < 4096 := by decide +kernel
  refine ⟨hstep, ⟨hindex, rfl⟩, ?_, ⟨htwo, hticked.mp ?_⟩, mt hsignals.mp hout⟩
  · rw [hfetch, hword, hunknown]
  · rw [htwo]
    decide

/-- The place of a step is not always that of the cell it fetches from, nor the place of any
listing: a program of one jump runs off the end of memory. -/
theorem reported_place_off_the_end :
    ¬ ∀ (config : Config) (random : RandomBytes) (events : List Machine.Event) address next,
      ((Machine.boot config random).respondAll events).step = some (address, next) →
        Listing.indexOf address = Listing.placeOf (Memory.cell address) := by
  intro h
  have hsame := h _ _ _ _ _ Machine.step_of_jump_to_end
  have hindex : Listing.indexOf 0x1000 = some 1792 := Listing.indexOf_of_le (by decide)
  rw [hindex] at hsame
  cases hsame

end Console
end ChipEight
