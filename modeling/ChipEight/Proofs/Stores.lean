import ChipEight.Proofs.Event

/-!
Stores. Two instructions write to memory, from the address in the index register on and around
the end of memory. Every other byte stays as it is, so after a run a byte holds what was
stored there last.
-/
namespace ChipEight

namespace Memory

/-- A transfer reaches a cell if the cell lies less than the length of the transfer
behind its start. -/
theorem cell_mem_span_iff (start address : UInt16) {length : Nat}
    (h : length ≤ Layout.memorySize) :
    cell address ∈ (span start length).map cell ↔ (cell (address - start)).val < length := by
  have hsize : Layout.memorySize = 4096 := rfl
  have hs := start.toNat_lt
  have ha := address.toNat_lt
  rw [span, List.map_map, List.mem_map]
  constructor
  · rintro ⟨k, hk, hcell⟩
    have hlt : k < length := List.mem_range.mp hk
    have hval := congrArg Fin.val hcell
    simp only [Function.comp_apply, cell_val, UInt16.toNat_add, UInt16.toNat_ofNat'] at hval
    rw [cell_val, UInt16.toNat_sub]
    omega
  · intro hlt
    refine ⟨(cell (address - start)).val, List.mem_range.mpr hlt, ?_⟩
    rw [cell_val, UInt16.toNat_sub] at hlt
    apply Fin.ext
    simp only [Function.comp_apply, cell_val, UInt16.toNat_add, UInt16.toNat_ofNat',
      UInt16.toNat_sub]
    omega

end Memory

namespace Machine

def storedBytes (m : Machine) : Instruction → List UInt8
  | .storeDecimal x => Arithmetic.decimal (m.reg x)
  | .storeRegisters x => m.registers.v.toList.take (x.val + 1)
  | _ => []

def cellsWritten (m : Machine) : Instruction → List (Fin Layout.memorySize)
  | .storeDecimal _ => (Memory.span m.registers.i 3).map Memory.cell
  | .storeRegisters x => (Memory.span m.registers.i (x.val + 1)).map Memory.cell
  | _ => []

def written (m : Machine) : List (Fin Layout.memorySize) := m.cellsWritten m.nextInstruction

def storedAt (m : Machine) (address : UInt16) : Option UInt8 :=
  (m.storedBytes m.nextInstruction)[(Memory.cell (address - m.registers.i)).val]?

/-- The byte at an address after some instructions that were executed in these states. -/
def lastStored (address : UInt16) (byte : UInt8) (states : List Machine) : UInt8 :=
  states.foldl (fun byte s => (s.storedAt address).getD byte) byte

theorem memory_execute (m : Machine) (i : Instruction) :
    (m.execute i).memory = m.memory.store m.registers.i (m.storedBytes i) := by
  cases i <;> rfl

theorem length_storedBytes_le (m : Machine) (i : Instruction) :
    (m.storedBytes i).length ≤ Layout.memorySize := by
  have hsize : Layout.memorySize = 4096 := rfl
  cases i with
  | storeDecimal x => exact (by decide : 3 ≤ Layout.memorySize)
  | storeRegisters x =>
    have hlength : (m.storedBytes (.storeRegisters x)).length ≤ 16 := by
      simp only [storedBytes, List.length_take, Vector.length_toList]
      omega
    omega
  | _ => exact Nat.zero_le _

/-- There is a cell for each byte. -/
theorem cellsWritten_eq (m : Machine) (i : Instruction) :
    m.cellsWritten i = (Memory.span m.registers.i (m.storedBytes i).length).map Memory.cell := by
  cases i with
  | storeRegisters x =>
    have hx := x.isLt
    have hlength : (m.storedBytes (.storeRegisters x)).length = x.val + 1 := by
      simp only [storedBytes, List.length_take, Vector.length_toList]
      omega
    rw [hlength, cellsWritten]
  | _ => rfl

/-- Nothing is stored at an address whose cell is not written. -/
theorem storedAt_eq_none_iff (m : Machine) (address : UInt16) :
    m.storedAt address = none ↔ Memory.cell address ∉ m.written := by
  rw [storedAt, List.getElem?_eq_none_iff, written, cellsWritten_eq,
    Memory.cell_mem_span_iff _ _ (m.length_storedBytes_le _), Nat.not_lt]

/-- A step stores what its instruction stores and leaves the other bytes alone. -/
theorem read_memory_advance (m : Machine) (address : UInt16) :
    m.advance.memory.read address = (m.storedAt address).getD (m.memory.read address) := by
  rw [advance, memory_execute]
  exact Memory.read_store _ _ _ _ (m.length_storedBytes_le _)

theorem read_memory_advance_of_not_written {m : Machine} {address : UInt16}
    (h : Memory.cell address ∉ m.written) :
    m.advance.memory.read address = m.memory.read address := by
  rw [read_memory_advance, (m.storedAt_eq_none_iff address).mpr h]
  rfl

/-- A byte to which nothing is written stays. -/
theorem lastStored_of_not_written {address : UInt16} {states : List Machine}
    (h : ∀ s ∈ states, Memory.cell address ∉ s.written) (byte : UInt8) :
    lastStored address byte states = byte :=
  foldl_getD_of_none (fun s hs => (s.storedAt_eq_none_iff address).mpr (h s hs)) byte

theorem read_memory_cycle (n : Nat) (m : Machine) (address : UInt16) :
    (m.cycle n).2.memory.read address =
      lastStored address (m.memory.read address) (m.trail n) := by
  induction n generalizing m with
  | zero => rfl
  | succ n ih =>
    cases hrun : m.isAwaiting with
    | true =>
      rw [cycle_of_awaiting hrun, trail_of_awaiting hrun]
      rfl
    | false =>
      rw [cycle_succ_of_running hrun, trail_succ_of_running hrun, ih, read_memory_advance]
      rfl

/-- Memory changes only by the instructions that an event executes, unless it brings a
new program. -/
theorem read_memory_respond (m : Machine) {event : Event} (hkeeps : event.KeepsProgram)
    (address : UInt16) :
    (m.respond event).memory.read address =
      lastStored address (m.memory.read address) (m.eventTrail event) := by
  cases event with
  | step =>
    rw [respond_step]
    exact read_memory_cycle 1 m address
  | tick budget => exact read_memory_cycle budget m address
  | advanceTimers => rfl
  | takeFrame =>
    rw [respond_takeFrame]
    rfl
  | setKey key pressed =>
    rw [respond_setKey_eq]
    rfl
  | load program => exact hkeeps.elim
  | reset => exact hkeeps.elim

end Machine
end ChipEight
