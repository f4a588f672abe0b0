import ChipEight.Proofs.Assembly
import ChipEight.Proofs.Countdown
import ChipEight.Proofs.Stores

/-!
Straight-line programs. Without jumps, skips and waits for a key, and as long as no store reaches
an instruction that is still to come, a loaded program runs as the sequence of its instructions:
each step fetches the next one of the list and does to the machine what that instruction does.
-/
namespace ChipEight

/-- Neither a jump, a call, a return or a skip, nor a wait for a key. -/
def Instruction.isStraight : Instruction → Bool
  | ret | jump _ | call _ | jumpOffset _ | awaitKey _ => false
  | skipEqual .. | skipNotEqual .. | skipRegistersEqual .. | skipRegistersNotEqual .. => false
  | skipPressed _ | skipNotPressed _ => false
  | _ => true

namespace Listing

def addressOf (k : Nat) : UInt16 := UInt16.ofNat (0x200 + 2 * k)

theorem toNat_addressOf {k : Nat} (hk : k ≤ 1792) : (addressOf k).toNat = 0x200 + 2 * k := by
  rw [addressOf, UInt16.toNat_ofNat']
  omega

theorem toNat_addressOf_add_one {k : Nat} (hk : k ≤ 1792) :
    (addressOf k + 1).toNat = 0x200 + (2 * k + 1) := by
  rw [UInt16.toNat_add, toNat_addressOf hk, UInt16.toNat_one]
  omega

theorem addressOf_succ {k : Nat} (hk : k < 1792) : addressOf (k + 1) = addressOf k + 2 := by
  have htwo : (2 : UInt16).toNat = 2 := rfl
  apply UInt16.toNat_inj.mp
  rw [UInt16.toNat_add, toNat_addressOf hk, toNat_addressOf (Nat.le_of_lt hk), htwo]
  omega

theorem indexOf_addressOf {k : Nat} (hk : k ≤ 1792) : indexOf (addressOf k) = some k := by
  rw [indexOf_eq, toNat_addressOf hk, if_pos (Nat.le_add_right ..), Nat.add_sub_cancel_left,
    Nat.mul_div_cancel_left k Nat.two_pos]

end Listing

namespace Memory

open Listing

/-- A loaded program is fetched word by word. -/
theorem readWord_image_assemble {program : List Instruction} (hroom : program.length ≤ 1792)
    {k : Nat} (hk : k < program.length) :
    (image (Instruction.assemble program)).readWord (addressOf k) = program[k].encode := by
  have haccept := acceptable_assemble (Nat.one_le_of_lt hk) hroom
  have hplace : k ≤ 1792 := Nat.le_trans (Nat.le_of_lt hk) hroom
  have hfirst := toNat_addressOf hplace
  have hsecond := toNat_addressOf_add_one hplace
  obtain ⟨hhigh, hlow⟩ := getElem?_assemble hk
  rw [readWord, read_image haccept (by omega), read_image haccept (by omega), hfirst, hsecond,
    if_neg (by omega), if_neg (by omega), Nat.add_sub_cancel_left, Nat.add_sub_cancel_left,
    hhigh, hlow]
  exact Word.ofBytes_high_low _

end Memory

namespace Machine

def obey (m : Machine) (i : Instruction) : Machine := (m.mapRegisters Registers.advance).execute i

def follow (m : Machine) (program : List Instruction) : Machine := program.foldl obey m

section Obey

variable {i : Instruction} (m : Machine)

theorem pc_obey_of_isStraight (h : i.isStraight = true) :
    (m.obey i).registers.pc = m.registers.pc + 2 := by
  cases i with
  | ret | jump | call | jumpOffset | awaitKey | skipEqual | skipNotEqual | skipRegistersEqual
  | skipRegistersNotEqual | skipPressed | skipNotPressed => cases h
  | _ => rfl

theorem isAwaiting_obey_of_isStraight (h : i.isStraight = true) :
    (m.obey i).isAwaiting = m.isAwaiting := by
  have hkeypad : (m.obey i).keypad = (m.mapRegisters Registers.advance).keypadAfter i :=
    keypad_execute ..
  rw [isAwaiting, hkeypad]
  cases i with
  | awaitKey => cases h
  | _ => rfl

end Obey

theorem follow_take_succ (m : Machine) {program : List Instruction} {k : Nat}
    (hk : k < program.length) :
    m.follow (program.take (k + 1)) = (m.follow (program.take k)).obey program[k] := by
  rw [List.take_succ_eq_append_getElem hk, follow, List.foldl_append]
  rfl

/-- The machine has come to an instruction of a program. This one and the later ones
are in memory. -/
structure Reaches (m : Machine) (program : List Instruction) (k : Nat) : Prop where
  running : m.isAwaiting = false
  pc_eq : m.registers.pc = Listing.addressOf k
  code : ∀ j (hj : j < program.length), k ≤ j →
    m.memory.readWord (Listing.addressOf j) = program[j].encode

/-- The instruction at this place of a program writes to none of the later ones. -/
def SparesRest (m : Machine) (program : List Instruction) (k : Nat) : Prop :=
  ∀ i ∈ program[k]?, ∀ cell ∈ m.cellsWritten i,
    cell.val < 0x200 + 2 * (k + 1) ∨ 0x200 + 2 * program.length ≤ cell.val

namespace Reaches

variable {m : Machine} {program : List Instruction} {k : Nat}

theorem nextInstruction_eq (h : m.Reaches program k) (hk : k < program.length)
    (hformed : program[k].WellFormed) : m.nextInstruction = program[k] := by
  have hword : m.nextWord = program[k].encode := by
    rw [nextWord, h.pc_eq, h.code k hk (Nat.le_refl k)]
  exact Instruction.decode_of_eq_encode hformed hword

theorem advance_eq (h : m.Reaches program k) (hk : k < program.length)
    (hformed : program[k].WellFormed) : m.advance = m.obey program[k] := by
  rw [advance, h.nextInstruction_eq hk hformed]
  rfl

theorem step_eq (h : m.Reaches program k) (hk : k < program.length)
    (hformed : program[k].WellFormed) :
    m.step = some (Listing.addressOf k, m.obey program[k]) := by
  rw [step_of_running h.running, h.pc_eq, h.advance_eq hk hformed]

/-- A byte of a later instruction stays. -/
theorem read_obey (h : m.Reaches program k) (hk : k < program.length)
    (hroom : program.length ≤ 1792) (hformed : program[k].WellFormed)
    (hspares : m.SparesRest program k) {address : UInt16}
    (hafter : 0x200 + 2 * (k + 1) ≤ address.toNat)
    (hbefore : address.toNat < 0x200 + 2 * program.length) :
    (m.obey program[k]).memory.read address = m.memory.read address := by
  rw [← h.advance_eq hk hformed]
  apply read_memory_advance_of_not_written
  rw [written, h.nextInstruction_eq hk hformed]
  intro hcell
  have hside := hspares program[k] (List.getElem?_eq_getElem hk) _ hcell
  rw [Memory.cell_val] at hside
  omega

theorem obey (h : m.Reaches program k) (hk : k < program.length) (hroom : program.length ≤ 1792)
    (hformed : program[k].WellFormed) (hstraight : program[k].isStraight = true)
    (hspares : m.SparesRest program k) : (m.obey program[k]).Reaches program (k + 1) where
  running := by rw [m.isAwaiting_obey_of_isStraight hstraight, h.running]
  pc_eq := by
    rw [m.pc_obey_of_isStraight hstraight, h.pc_eq,
      Listing.addressOf_succ (Nat.lt_of_lt_of_le hk hroom)]
  code j hj hkj := by
    have hplace : j ≤ 1792 := Nat.le_trans (Nat.le_of_lt hj) hroom
    have hfirst := Listing.toNat_addressOf hplace
    have hsecond := Listing.toNat_addressOf_add_one hplace
    -- Both bytes lie behind this instruction and before the end of the program.
    rw [← h.code j hj (Nat.le_of_succ_le hkj), Memory.readWord, Memory.readWord,
      h.read_obey hk hroom hformed hspares (by omega) (by omega),
      h.read_obey hk hroom hformed hspares (by omega) (by omega)]

end Reaches

/-- A loaded program begins with its first instruction. -/
theorem reaches_loaded (m : Machine) {program : List Instruction}
    (hroom : program.length ≤ 1792) :
    (m.loaded (Instruction.assemble program)).Reaches program 0 where
  running := rfl
  pc_eq := rfl
  code _ hj _ := Memory.readWord_image_assemble hroom hj

section Run

variable {m : Machine} {program : List Instruction} {k : Nat}

/-- Following a straight-line program comes to one instruction after the other. -/
theorem reaches_follow (hroom : program.length ≤ 1792) (hformed : ∀ i ∈ program, i.WellFormed)
    (hstraight : ∀ i ∈ program, i.isStraight = true) (hstart : m.Reaches program 0)
    (hspares : ∀ k < program.length, (m.follow (program.take k)).SparesRest program k)
    (hk : k ≤ program.length) : (m.follow (program.take k)).Reaches program k := by
  induction k with
  | zero => exact hstart
  | succ k ih =>
    have hmem : program[k] ∈ program := List.getElem_mem hk
    rw [m.follow_take_succ hk]
    exact (ih (Nat.le_of_succ_le hk)).obey hk hroom (hformed _ hmem) (hstraight _ hmem)
      (hspares k hk)

/-- As many steps follow as many instructions. -/
theorem respondAll_step_eq_follow (hformed : ∀ i ∈ program, i.WellFormed)
    (hreaches : ∀ k ≤ program.length, (m.follow (program.take k)).Reaches program k)
    (hk : k ≤ program.length) :
    m.respondAll (List.replicate k .step) = m.follow (program.take k) := by
  induction k with
  | zero => rfl
  | succ k ih =>
    have hbefore := hreaches k (Nat.le_of_succ_le hk)
    rw [List.replicate_succ', respondAll_append, ih (Nat.le_of_succ_le hk), m.follow_take_succ hk,
      ← hbefore.advance_eq hk (hformed _ (List.getElem_mem hk))]
    exact respond_step_of_running hbefore.running

end Run

open Instruction in
/-- A straight-line program in a fresh machine. If no instruction writes to a later one, then
each step executes the next instruction of the list and tells its address and its place, so
the run ends in the state that obeying the instructions in order leads to, behind the last of
them and without a wait for a key. An unknown instruction moves the program counter and does
nothing else. -/
theorem straight_line_runs (config : Config) (random : RandomBytes) (program : List Instruction)
    (hpos : 1 ≤ program.length) (hroom : program.length ≤ 1792)
    (hformed : ∀ i ∈ program, i.WellFormed) (hstraight : ∀ i ∈ program, i.isStraight = true) :
    ∃ start, (boot config random).load (assemble program) = .ok start ∧
      ((∀ k < program.length, (start.follow (program.take k)).SparesRest program k) →
        (∀ k (hk : k < program.length),
          let m := start.respondAll (List.replicate k .step)
          m = start.follow (program.take k) ∧ m.isAwaiting = false ∧
            m.nextInstruction = program[k] ∧
            (∃ address, m.step = some (address, m.obey program[k]) ∧
              address.toNat = 0x200 + 2 * k ∧ Listing.indexOf address = some k) ∧
            ∀ word, program[k] = .unknown word → m.obey program[k] =
              { m with registers := { m.registers with pc := m.registers.pc + 2 } }) ∧
        let last := start.respondAll (List.replicate program.length .step)
        last = program.foldl (fun m i => (m.mapRegisters Registers.advance).execute i) start ∧
          last.registers.pc.toNat = 0x200 + 2 * program.length ∧ last.isAwaiting = false) := by
  refine ⟨_, (boot config random).load_of_acceptable (Listing.acceptable_assemble hpos hroom),
    fun hspares => ?_⟩
  have hreaches : ∀ k ≤ program.length, _ := fun k hk =>
    reaches_follow hroom hformed hstraight (reaches_loaded _ hroom) hspares hk
  refine ⟨fun k hk => ?_, ?_⟩
  · have hplace : k ≤ 1792 := Nat.le_trans (Nat.le_of_lt hk) hroom
    have hthere := hreaches k (Nat.le_of_lt hk)
    have hknown := hformed _ (List.getElem_mem hk)
    rw [respondAll_step_eq_follow hformed hreaches (Nat.le_of_lt hk)]
    refine ⟨rfl, hthere.running, hthere.nextInstruction_eq hk hknown,
      ⟨_, hthere.step_eq hk hknown, Listing.toNat_addressOf hplace,
        Listing.indexOf_addressOf hplace⟩, fun word hword => ?_⟩
    rw [hword]
    rfl
  · have hend := hreaches program.length (Nat.le_refl _)
    rw [respondAll_step_eq_follow hformed hreaches (Nat.le_refl _), List.take_length]
    rw [List.take_length] at hend
    refine ⟨rfl, ?_, hend.running⟩
    rw [hend.pc_eq, Listing.toNat_addressOf hroom]

/-- A program overwrites its own first instruction, meets an unknown word and stores around the
end of memory. -/
theorem straight_line_runs_of_stores :
    let program : List Instruction := [.load 0 0x7B, .loadIndex 0x200, .storeRegisters 0,
      .unknown 0x8128, .random 1 0x0F, .loadIndex 0xFFF, .storeDecimal 0]
    ∃ start, (boot .standard (.ofSeed 7)).load (Instruction.assemble program) = .ok start ∧
      (∀ k < 7, (start.follow (program.take k)).SparesRest program k) ∧
      (start.respondAll (List.replicate 3 .step)).nextInstruction = .unknown 0x8128 ∧
      start.respondAll (List.replicate 7 .step) = start.follow program ∧
      (start.follow program).registers.pc.toNat = 0x20E ∧
      (start.follow program).memory.read 0x200 = 0x7B ∧
      (start.follow program).memory.read 1 = 3 := by
  intro program
  obtain ⟨start, hload, hrun⟩ := straight_line_runs .standard (.ofSeed 7) program
    (by decide) (by decide) (by decide) (by decide)
  have hspares : ∀ k < 7, (start.follow (program.take k)).SparesRest program k := by
    cases hload
    let start := (boot .standard (.ofSeed 7)).loaded (Instruction.assemble program)
    let written := [[], [], [0x200], [], [], [], [0xFFF, 0, 1]]
    have hcells : (List.range 7).map (fun k => (program[k]?.toList.flatMap
        (start.follow (program.take k)).cellsWritten).map Fin.val) = written := by decide +kernel
    have hbounds : ∀ k < 7, ∀ cells ∈ written[k]?, ∀ n ∈ cells,
        n < 0x200 + 2 * (k + 1) ∨ 0x200 + 2 * program.length ≤ n := by decide
    intro k hk i hi cell hcell
    refine hbounds k hk _ ?_ cell.val (List.mem_map_of_mem (List.mem_flatMap_of_mem
      (Option.mem_toList.mpr hi) hcell))
    rw [← hcells, List.getElem?_map, List.getElem?_range hk]
    rfl
  obtain ⟨hsteps, hlast, hpc, -⟩ := hrun hspares
  refine ⟨start, hload, hspares, (hsteps 3 (by decide)).2.2.1, hlast, ?_, ?_, ?_⟩
  · rwa [hlast] at hpc
  · cases hload
    decide +kernel
  · cases hload
    decide +kernel

end Machine
end ChipEight
