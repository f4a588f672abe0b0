import ChipEight.Console

/-!
Loading a program. A program is acceptable if it is not empty and fits between the start of
programs and the end of memory. An acceptable one is always loaded, with a result that depends on
the machine before only through its configuration and its random bytes; any other one is refused.
-/
namespace ChipEight

def Acceptable (program : List UInt8) : Prop :=
  1 ≤ program.length ∧ program.length ≤ Layout.maxProgramSize

instance (program : List UInt8) : Decidable (Acceptable program) :=
  inferInstanceAs (Decidable (_ ∧ _))

def Rejection.ofResult {α : Type} : Except Rejection α → Option Rejection
  | .ok _ => none
  | .error rejection => some rejection

namespace Memory

/-- The memory that a program starts with. -/
def image (program : List UInt8) : Memory := initial.store Layout.programStart program

theorem load_of_acceptable {program : List UInt8} (h : Acceptable program) :
    initial.load program = .ok (image program) := by
  have hne : program ≠ [] := List.length_pos_iff.mp h.1
  rw [load, if_neg hne, if_neg (Nat.not_lt.mpr h.2)]
  rfl

theorem load_of_not_acceptable {program : List UInt8} (h : ¬ Acceptable program) :
    ∃ rejection, initial.load program = .error rejection := by
  by_cases hempty : program = []
  · exact ⟨.emptyProgram, by rw [load, if_pos hempty]⟩
  · have hpos : 1 ≤ program.length := List.length_pos_iff.mpr hempty
    have hlarge : Layout.maxProgramSize < program.length :=
      Nat.lt_of_not_le fun hfit => h ⟨hpos, hfit⟩
    exact ⟨.programTooLarge program.length, by rw [load, if_neg hempty, if_pos hlarge]⟩

/-- A fresh memory holds the digit sprites, then zeros. -/
theorem read_initial {address : UInt16} (hcell : address.toNat < 4096) :
    initial.read address = Layout.spriteSheet[address.toNat]?.getD 0 := by
  have hself : (cell (address - 0)).val = address.toNat := by
    rw [UInt16.sub_zero, cell_val, Nat.mod_eq_of_lt hcell]
  have hblank : blank.read address = 0 := by
    simp only [blank, read, Fin.getElem_fin, Vector.getElem_replicate]
  rw [initial, read_store _ _ _ _ (by decide), hself, hblank]

/-- The memory that a program starts with: the digit sprites, the program, and zeros elsewhere. -/
theorem read_image {program : List UInt8} (h : Acceptable program) {address : UInt16}
    (hcell : address.toNat < 4096) :
    (image program).read address =
      if address.toNat < 0x200 then Layout.spriteSheet[address.toNat]?.getD 0
      else program[address.toNat - 0x200]?.getD 0 := by
  have hroom : program.length ≤ 3584 := h.2
  have hoffset : (cell (address - Layout.programStart)).val =
      (address.toNat + 3584) % 4096 := by
    have hstart : Layout.programStart.toNat = 512 := rfl
    rw [cell_val, UInt16.toNat_sub, hstart]
    omega
  rw [image, read_store _ _ _ _ (Nat.le_trans hroom (by decide)), read_initial hcell, hoffset]
  by_cases hbelow : address.toNat < 0x200
  · have hbeyond : program.length ≤ (address.toNat + 3584) % 4096 := by omega
    rw [if_pos hbelow, List.getElem?_eq_none hbeyond]
    rfl
  · have hplace : (address.toNat + 3584) % 4096 = address.toNat - 0x200 := by omega
    have hsheet : Layout.spriteSheet.length = 80 := rfl
    have hzero : Layout.spriteSheet[address.toNat]? = none :=
      List.getElem?_eq_none (by omega)
    rw [if_neg hbelow, hplace, hzero]
    rfl

end Memory

namespace Machine

def loaded (m : Machine) (program : List UInt8) : Machine :=
  { m.reset with memory := .image program }

theorem load_of_acceptable (m : Machine) {program : List UInt8} (h : Acceptable program) :
    m.load program = .ok (m.loaded program) := by
  rw [load, Memory.load_of_acceptable h]
  rfl

theorem load_of_not_acceptable (m : Machine) {program : List UInt8} (h : ¬ Acceptable program) :
    ∃ rejection, m.load program = .error rejection := by
  obtain ⟨rejection, hload⟩ := Memory.load_of_not_acceptable h
  exact ⟨rejection, by rw [load, hload]⟩

end Machine

namespace Console

def loaded (c : Console) (program : List UInt8) (autoplay : Bool) : Console :=
  { c with
    machine := c.machine.loaded program
    listing := .ofProgram program
    watch := .initial
    program := some program
    status := if autoplay then .running else .stopped }

def loadSignals (program : List UInt8) (autoplay : Bool) : List Signal :=
  [.note (.replaced program.length), .clear, .forget, .loaded (.ofProgram program),
    .note (.programReady autoplay)]

theorem load_of_acceptable (c : Console) {program : List UInt8} (h : Acceptable program)
    (autoplay : Bool) :
    c.load program autoplay = .ok (c.loaded program autoplay, loadSignals program autoplay) := by
  rw [load, c.machine.load_of_acceptable h]
  rfl

theorem load_of_not_acceptable (c : Console) {program : List UInt8} (h : ¬ Acceptable program)
    (autoplay : Bool) : ∃ rejection, c.load program autoplay = .error rejection := by
  obtain ⟨rejection, hload⟩ := c.machine.load_of_not_acceptable h
  exact ⟨rejection, by rw [load, hload]⟩

/-- Reading a program file either fails or is followed by a load. -/
theorem loadRom_cases (c : Console) (chunks : List Chunk) (autoplay : Bool) :
    (∃ rejection, c.loadRom chunks autoplay = .error rejection) ∨
      ∃ program, Rom.read chunks = .ok program ∧
        c.loadRom chunks autoplay = c.load program autoplay := by
  unfold loadRom
  cases Rom.read chunks with
  | error rejection => exact .inl ⟨rejection, rfl⟩
  | ok program => exact .inr ⟨program, rfl, rfl⟩

/-- A replay does nothing or loads the stored program. -/
theorem replay_cases (c : Console) :
    (c.program = none ∧ c.replay = .ok (c, [])) ∨
      ∃ program, c.program = some program ∧
        c.replay = c.load program (c.status != .paused) := by
  unfold replay
  cases c.program with
  | none => exact .inl ⟨rfl, rfl⟩
  | some program => exact .inr ⟨program, rfl, rfl⟩

end Console
end ChipEight
