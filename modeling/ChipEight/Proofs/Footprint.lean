import ChipEight.Proofs.Bare.Execute
import ChipEight.Proofs.OpcodeTable
import ChipEight.Proofs.Stores

/-!
What a step may change, in terms of the fetched word. For each part of the machine there are the
rows of the opcode table whose words may change it, for the registers together with the numbers of
the registers, and for the program counter the rows that lead elsewhere than to the next word. A
word without a row only moves on.
-/
namespace ChipEight

namespace Opcode

open Instruction

def Among (rows : List Row) (word : UInt16) : Prop := ∃ row ∈ rows, row.pattern.Matches word

instance (rows : List Row) (word : UInt16) : Decidable (Among rows word) :=
  inferInstanceAs (Decidable (∃ row ∈ rows, row.pattern.Matches word))

/-- The rows whose words write the register that their `x` names. -/
def targetRows : List Row := [
  .xnn 0x6 load,
  .xnn 0x7 add,
  .xy 0x8 0x0 move,
  .xy 0x8 0x1 or,
  .xy 0x8 0x2 and,
  .xy 0x8 0x3 xor,
  .xnn 0xC random,
  .x 0xF 0x0 0x7 loadDelay]

/-- The rows whose words write the register that their `x` names and the flag. -/
def flaggedRows : List Row := [
  .xy 0x8 0x4 addRegisters,
  .xy 0x8 0x5 sub,
  .shift 0x6 shiftRight,
  .xy 0x8 0x7 subFrom,
  .shift 0xE shiftLeft]

def flagRows : List Row := [.xyn 0xD draw]

/-- The rows whose words write the registers up to the one that their `x` names. -/
def blockRows : List Row := [.x 0xF 0x6 0x5 loadRegisters]

def MayWrite (word : UInt16) (z : Fin 16) : Prop :=
  (Among (targetRows ++ flaggedRows) word ∧ z = operandX word) ∨
    (Among (flaggedRows ++ flagRows) word ∧ z = Layout.flagRegister) ∨
    (Among blockRows word ∧ z ≤ operandX word)

instance (word : UInt16) (z : Fin 16) : Decidable (MayWrite word z) :=
  inferInstanceAs (Decidable (_ ∨ _))

end Opcode

/-- The parts of a machine besides its registers and its program counter. -/
inductive Part
  | memory
  | frame
  | delay
  | sound
  | stack
  | index
  | execution
  | pressed
  | random
  | config
deriving DecidableEq, Repr

namespace Part

open Instruction Opcode

def Same : Part → Machine → Machine → Prop
  | memory, m, n => n.memory = m.memory
  | frame, m, n => n.frame = m.frame
  | delay, m, n => n.timers.delay = m.timers.delay
  | sound, m, n => n.timers.sound = m.timers.sound
  | stack, m, n => n.registers.stack = m.registers.stack
  | index, m, n => n.registers.i = m.registers.i
  | execution, m, n => n.keypad.execution = m.keypad.execution
  | pressed, m, n => n.keypad.pressed = m.keypad.pressed
  | random, m, n => n.random = m.random
  | config, m, n => n.config = m.config

def changers : Part → List Row
  | memory => [.x 0xF 0x3 0x3 storeDecimal, .x 0xF 0x5 0x5 storeRegisters]
  | frame => [.plain 0xE 0x0 clear, .xyn 0xD draw]
  | delay => [.x 0xF 0x1 0x5 setDelay]
  | sound => [.x 0xF 0x1 0x8 setSound]
  | stack => [.nnn 0x2 call, .plain 0xE 0xE ret]
  | index => [.nnn 0xA loadIndex, .x 0xF 0x1 0xE addIndex, .x 0xF 0x2 0x9 loadGlyph]
  | execution => [.x 0xF 0x0 0xA awaitKey]
  | random => [.xnn 0xC Instruction.random]
  | pressed => []
  | config => []

end Part

namespace Instruction

open Opcode

def row? : Instruction → Option Row
  | clear => some (.plain 0xE 0x0 clear)
  | ret => some (.plain 0xE 0xE ret)
  | jump _ => some (.nnn 0x1 jump)
  | call _ => some (.nnn 0x2 call)
  | skipEqual .. => some (.xnn 0x3 skipEqual)
  | skipNotEqual .. => some (.xnn 0x4 skipNotEqual)
  | skipRegistersEqual .. => some (.xy 0x5 0x0 skipRegistersEqual)
  | load .. => some (.xnn 0x6 load)
  | add .. => some (.xnn 0x7 add)
  | move .. => some (.xy 0x8 0x0 move)
  | or .. => some (.xy 0x8 0x1 or)
  | and .. => some (.xy 0x8 0x2 and)
  | xor .. => some (.xy 0x8 0x3 xor)
  | addRegisters .. => some (.xy 0x8 0x4 addRegisters)
  | sub .. => some (.xy 0x8 0x5 sub)
  | shiftRight _ => some (.shift 0x6 shiftRight)
  | subFrom .. => some (.xy 0x8 0x7 subFrom)
  | shiftLeft _ => some (.shift 0xE shiftLeft)
  | skipRegistersNotEqual .. => some (.xy 0x9 0x0 skipRegistersNotEqual)
  | loadIndex _ => some (.nnn 0xA loadIndex)
  | jumpOffset _ => some (.nnn 0xB jumpOffset)
  | random .. => some (.xnn 0xC random)
  | draw .. => some (.xyn 0xD draw)
  | skipPressed _ => some (.x 0xE 0x9 0xE skipPressed)
  | skipNotPressed _ => some (.x 0xE 0xA 0x1 skipNotPressed)
  | loadDelay _ => some (.x 0xF 0x0 0x7 loadDelay)
  | awaitKey _ => some (.x 0xF 0x0 0xA awaitKey)
  | setDelay _ => some (.x 0xF 0x1 0x5 setDelay)
  | setSound _ => some (.x 0xF 0x1 0x8 setSound)
  | addIndex _ => some (.x 0xF 0x1 0xE addIndex)
  | loadGlyph _ => some (.x 0xF 0x2 0x9 loadGlyph)
  | storeDecimal _ => some (.x 0xF 0x3 0x3 storeDecimal)
  | storeRegisters _ => some (.x 0xF 0x5 0x5 storeRegisters)
  | loadRegisters _ => some (.x 0xF 0x6 0x5 loadRegisters)
  | unknown _ => none

theorem row?_instruction {row : Row} (hrow : row ∈ table) (word : UInt16) :
    (row.instruction word).row? = some row := by
  revert row
  simp only [table, List.forall_mem_cons, List.not_mem_nil, false_implies, implies_true, and_true]
  and_intros
  all_goals rfl

variable {word : UInt16}

/-- The word of an instruction with a row matches that row. -/
theorem matches_of_row? {row : Row} (h : (decode word).row? = some row) :
    row.pattern.Matches word := by
  rcases exists_row word with hunknown | ⟨other, hother, hmatches⟩
  · rw [hunknown] at h
    cases h
  · rw [decode_of_matches hother hmatches, row?_instruction hother] at h
    obtain rfl := Option.some.inj h
    exact hmatches

theorem row?_decode_ne {row : Row} (h : ¬ row.pattern.Matches word) :
    (decode word).row? ≠ some row :=
  fun hrow => h (matches_of_row? hrow)

def writes : Instruction → Fin 16 → Prop
  | load x _, z | add x _, z | move x _, z | or x _, z | and x _, z | xor x _, z
  | random x _, z | loadDelay x, z => z = x
  | addRegisters x _, z | sub x _, z | shiftRight x, z | subFrom x _, z | shiftLeft x, z =>
    z = x ∨ z = Layout.flagRegister
  | draw .., z => z = Layout.flagRegister
  | loadRegisters x, z => z ≤ x
  | _, _ => False

theorem mayWrite_of_writes {z : Fin 16} (h : (decode word).writes z) : MayWrite word z := by
  have hcarries := carries_decode word
  have hamong {row : Row} {rows : List Row} (hrow : (decode word).row? = some row)
      (hmem : row ∈ rows) : Among rows word := ⟨row, hmem, matches_of_row? hrow⟩
  generalize decode word = i at hcarries hamong h
  cases i with
  | load | add | random | move | or | and | xor =>
    obtain ⟨rfl, -⟩ := hcarries
    exact .inl ⟨hamong rfl (by simp [targetRows]), h⟩
  | loadDelay =>
    obtain rfl := hcarries
    exact .inl ⟨hamong rfl (by simp [targetRows]), h⟩
  | addRegisters | sub | subFrom =>
    obtain ⟨rfl, -⟩ := hcarries
    exact h.imp (fun hx => ⟨hamong rfl (by simp [flaggedRows]), hx⟩)
      fun hflag => .inl ⟨hamong rfl (by simp [flaggedRows]), hflag⟩
  | shiftRight | shiftLeft =>
    obtain rfl := hcarries
    exact h.imp (fun hx => ⟨hamong rfl (by simp [flaggedRows]), hx⟩)
      fun hflag => .inl ⟨hamong rfl (by simp [flaggedRows]), hflag⟩
  | draw => exact .inr (.inl ⟨hamong rfl (by simp [flagRows]), h⟩)
  | loadRegisters =>
    obtain rfl := hcarries
    exact .inr (.inr ⟨hamong rfl (by simp [blockRows]), h⟩)
  | _ => exact h.elim

end Instruction

namespace Registers

theorem i_skipIf (r : Registers) (condition : Bool) : (r.skipIf condition).i = r.i := by
  cases condition <;> rfl

theorem get_skipIf (r : Registers) (condition : Bool) (z : Fin 16) :
    (r.skipIf condition).get z = r.get z := by
  cases condition <;> rfl

theorem ret_eq (r : Registers) :
    r.ret = { r with pc := r.stack.head?.getD r.pc, stack := r.stack.tail } := by
  cases h : r.stack with
  | nil => rw [ret_of_stack_nil h, List.head?_nil, Option.getD_none, List.tail_nil, ← h]
  | cons address rest =>
    rw [ret_of_stack_cons h, List.head?_cons, Option.getD_some, List.tail_cons]

theorem i_ret (r : Registers) : r.ret.i = r.i := by rw [ret_eq]

theorem get_ret (r : Registers) (z : Fin 16) : r.ret.get z = r.get z := by
  rw [ret_eq]
  rfl

end Registers

namespace Machine

open Instruction Opcode

section Execution

variable (m : Machine) {i : Instruction}

/-- An instruction changes a part only by a row of that part. -/
theorem same_execute {part : Part} (h : ∀ row ∈ part.changers, i.row? ≠ some row) :
    part.Same m (m.execute i) := by
  cases part with
  | memory =>
    rw [Part.Same, memory_execute]
    cases i with
    | storeDecimal => exact absurd rfl (h _ (.head _))
    | storeRegisters => exact absurd rfl (h _ (.tail _ (.head _)))
    | _ => rfl
  | frame =>
    rw [Part.Same, frame_execute]
    cases i with
    | clear => exact absurd rfl (h _ (.head _))
    | draw => exact absurd rfl (h _ (.tail _ (.head _)))
    | _ => rfl
  | delay =>
    rw [Part.Same, timers_execute]
    cases i with
    | setDelay => exact absurd rfl (h _ (.head _))
    | _ => rfl
  | sound =>
    rw [Part.Same, timers_execute]
    cases i with
    | setSound => exact absurd rfl (h _ (.head _))
    | _ => rfl
  | stack =>
    rw [Part.Same, stack_execute]
    cases i with
    | call => exact absurd rfl (h _ (.head _))
    | ret => exact absurd rfl (h _ (.tail _ (.head _)))
    | _ => rfl
  | index =>
    cases i with
    | loadIndex => exact absurd rfl (h _ (.head _))
    | addIndex => exact absurd rfl (h _ (.tail _ (.head _)))
    | loadGlyph => exact absurd rfl (h _ (.tail _ (.tail _ (.head _))))
    | loadRegisters => rw [Part.Same, execute, loadRegisters, mapRegisters]
    | ret => exact m.registers.i_ret
    | skipEqual | skipNotEqual | skipRegistersEqual | skipRegistersNotEqual | skipPressed
    | skipNotPressed => exact m.registers.i_skipIf _
    | _ => rfl
  | execution =>
    rw [Part.Same, keypad_execute]
    cases i with
    | awaitKey => exact absurd rfl (h _ (.head _))
    | _ => rfl
  | random =>
    rw [Part.Same, random_execute]
    cases i with
    | random => exact absurd rfl (h _ (.head _))
    | _ => rfl
  | pressed =>
    rw [Part.Same, keypad_execute]
    cases i <;> rfl
  | config => exact m.config_execute i

/-- An instruction leaves the registers alone that it does not write. -/
theorem reg_execute {z : Fin 16} (h : ¬ i.writes z) : (m.execute i).reg z = m.reg z := by
  cases i with
  | load x | add x | move x | or x | and x | xor x | random x | loadDelay x =>
    exact (Registers.get_set ..).trans (if_neg fun hx => h hx.symm)
  | addRegisters x | sub x | shiftRight x | subFrom x | shiftLeft x =>
    obtain ⟨hx, hflag⟩ := not_or.mp h
    exact (Registers.get_setFlagged ..).trans
      ((if_neg fun heq => hx heq.symm).trans (if_neg hflag))
  | draw => exact (Registers.get_set ..).trans (if_neg fun hx => h hx.symm)
  | loadRegisters x =>
    have hbeyond : ¬ z ≤ x := h
    simp only [execute, loadRegisters, mapRegisters, reg, Registers.get, Fin.getElem_fin,
      Vector.getElem_ofFn, Fin.eta, if_neg hbeyond]
  | ret => exact m.registers.get_ret z
  | skipEqual | skipNotEqual | skipRegistersEqual | skipRegistersNotEqual | skipPressed
  | skipNotPressed => exact m.registers.get_skipIf _ z
  | _ => rfl

end Execution

/-- The address behind the next instruction, or behind the one after it. -/
def skipTo (m : Machine) (condition : Bool) : UInt16 :=
  if condition then m.registers.pc + 4 else m.registers.pc + 2

/-- The rows that may lead elsewhere than to the next word, and the addresses that
they lead to. -/
def leadsTo (m : Machine) : List (Row × UInt16) :=
  let nnn := target (operandNNN m.nextWord)
  let vx := m.reg (operandX m.nextWord)
  let vy := m.reg (operandY m.nextWord)
  let nn := operandNN m.nextWord
  [(.plain 0xE 0xE ret, m.registers.stack.head?.getD (m.registers.pc + 2)),
    (.nnn 0x1 Instruction.jump, nnn),
    (.nnn 0x2 call, nnn),
    (.xnn 0x3 skipEqual, m.skipTo (vx == nn)),
    (.xnn 0x4 skipNotEqual, m.skipTo (vx != nn)),
    (.xy 0x5 0x0 skipRegistersEqual, m.skipTo (vx == vy)),
    (.xy 0x9 0x0 skipRegistersNotEqual, m.skipTo (vx != vy)),
    (.nnn 0xB jumpOffset, nnn + (m.reg Layout.offsetRegister).toUInt16),
    (.x 0xE 0x9 0xE skipPressed, m.skipTo (m.isPressed vx)),
    (.x 0xE 0xA 0x1 skipNotPressed, m.skipTo (!m.isPressed vx))]

section Advance

variable (m : Machine)

theorem same_advance {part : Part} (h : ¬ Among part.changers m.nextWord) :
    part.Same m m.advance := by
  have hsame : part.Same (m.mapRegisters Registers.advance) m.advance :=
    same_execute _ fun row hrow => row?_decode_ne fun hmatches => h ⟨row, hrow, hmatches⟩
  -- moving on is no change of a part
  cases part <;> exact hsame

theorem reg_advance {z : Fin 16} (h : ¬ MayWrite m.nextWord z) : m.advance.reg z = m.reg z :=
  reg_execute _ fun hwrites => h (mayWrite_of_writes hwrites)

/-- The program counter moves to the next word unless a row leads elsewhere. -/
theorem pc_advance (h : ∀ entry ∈ m.leadsTo, ¬ entry.1.pattern.Matches m.nextWord) :
    m.advance.registers.pc = m.registers.pc + 2 := by
  have hrow {row : Row} (hmem : row ∈ m.leadsTo.map Prod.fst) :
      m.nextInstruction.row? ≠ some row := by
    obtain ⟨entry, hentry, rfl⟩ := List.mem_map.mp hmem
    exact row?_decode_ne (h entry hentry)
  rw [advance]
  generalize m.nextInstruction = i at hrow ⊢
  cases i with
  | ret | jump | call | jumpOffset | skipEqual | skipNotEqual | skipRegistersEqual
  | skipRegistersNotEqual | skipPressed | skipNotPressed =>
    exact absurd rfl (hrow (by simp [leadsTo]))
  | _ => rfl

theorem advance_of_matches {row : Row} (hrow : row ∈ table)
    (h : row.pattern.Matches m.nextWord) :
    m.advance = (m.mapRegisters Registers.advance).execute (row.instruction m.nextWord) := by
  rw [advance, nextInstruction, decode_of_matches hrow h]

theorem pc_skipIf_advance (condition : Bool) :
    ((m.mapRegisters Registers.advance).skipIf condition).registers.pc = m.skipTo condition := by
  cases condition with
  | false => rfl
  | true => exact UInt16.add_assoc ..

theorem pc_ret_advance :
    (m.registers.advance.ret).pc = m.registers.stack.head?.getD (m.registers.pc + 2) := by
  rw [Registers.ret_eq]
  rfl

/-- The rows that lead elsewhere lead to the given addresses. -/
theorem pc_of_leadsTo : ∀ entry ∈ m.leadsTo, entry.1 ∈ table ∧
    ((m.mapRegisters Registers.advance).execute (entry.1.instruction m.nextWord)).registers.pc =
      entry.2 := by
  simp only [leadsTo, List.forall_mem_cons]
  exact ⟨⟨by simp [table], m.pc_ret_advance⟩, ⟨by simp [table], rfl⟩, ⟨by simp [table], rfl⟩,
    ⟨by simp [table], m.pc_skipIf_advance _⟩, ⟨by simp [table], m.pc_skipIf_advance _⟩,
    ⟨by simp [table], m.pc_skipIf_advance _⟩, ⟨by simp [table], m.pc_skipIf_advance _⟩,
    ⟨by simp [table], rfl⟩, ⟨by simp [table], m.pc_skipIf_advance _⟩,
    ⟨by simp [table], m.pc_skipIf_advance _⟩, nofun⟩

theorem pc_advance_of_leadsTo {entry : Row × UInt16} (hentry : entry ∈ m.leadsTo)
    (h : entry.1.pattern.Matches m.nextWord) : m.advance.registers.pc = entry.2 := by
  obtain ⟨hrow, hpc⟩ := m.pc_of_leadsTo entry hentry
  rw [advance_of_matches m hrow h, hpc]

end Advance

/-- A step leaves every part of the machine alone unless the word is one of a row of that part,
and every register that the word may not write. It leads to the address that the row of the
word has, if the row is one that leads elsewhere, and to the next word otherwise, be there a
row or none. -/
theorem step_stays_in_footprint {m : Machine} (hrun : m.isAwaiting = false) :
    ∃ next, m.step = some (m.registers.pc, next) ∧
      (∀ part : Part, ¬ Among part.changers m.nextWord → part.Same m next) ∧
      (∀ z, ¬ MayWrite m.nextWord z → next.reg z = m.reg z) ∧
      (∀ entry ∈ m.leadsTo, entry.1.pattern.Matches m.nextWord →
        next.registers.pc = entry.2) ∧
      ((∀ entry ∈ m.leadsTo, ¬ entry.1.pattern.Matches m.nextWord) →
        next.registers.pc = m.registers.pc + 2) :=
  ⟨m.advance, step_of_running hrun, fun _ => m.same_advance, fun _ => m.reg_advance,
    fun _ hentry => m.pc_advance_of_leadsTo hentry, m.pc_advance⟩

/-- A word that is fetched around the end of memory, its second byte from the first digit: all
that the step changes is a register, and the next word lies past the end of the addresses. -/
theorem step_stays_in_footprint_around_memory :
    let m : Machine := { boot .standard (.ofSeed 7) with
      memory := Memory.initial.write 0xFFF 0x65, registers := ⟨.replicate 16 0, 0, 0xFFFF, []⟩ }
    m.isAwaiting = false ∧ m.nextWord = 0x65F0 ∧
      ∃ next : Machine, m.step = some (0xFFFF, next) ∧ (∀ part : Part, part.Same m next) ∧
        (∀ z ≠ 5, next.reg z = m.reg z) ∧ next.registers.pc = 1 := by
  intro m
  have hword : m.nextWord = 0x65F0 := by decide +kernel
  obtain ⟨next, hstep, hpart, hreg, -, hpc⟩ := step_stays_in_footprint (m := m) rfl
  rw [hword] at hpart hreg hpc
  have hnone (part : Part) : ¬ Among part.changers 0x65F0 := by
    cases part <;> decide
  have honly : ∀ z ≠ (5 : Fin 16), ¬ MayWrite 0x65F0 z := by decide
  have hnext : ∀ entry ∈ m.leadsTo, ¬ entry.1.pattern.Matches 0x65F0 := by
    simp only [leadsTo, List.forall_mem_cons]
    decide
  exact ⟨rfl, hword, next, hstep, fun part => hpart part (hnone part),
    fun z hz => hreg z (honly z hz), (hpc hnext).trans (by decide)⟩

end Machine
end ChipEight
