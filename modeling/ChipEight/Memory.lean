import ChipEight.Layout
import ChipEight.Rejection
import ChipEight.Word

/-!
The bytes a program can reach. Addresses have sixteen bits while memory has twelve bits of
cells, so an address is taken modulo the size of memory; longer transfers step the sixteen-bit
address first.
-/
namespace ChipEight

structure Memory where
  bytes : Vector UInt8 Layout.memorySize
deriving DecidableEq

namespace Memory

def cell (address : UInt16) : Fin Layout.memorySize :=
  ⟨address.toNat % Layout.memorySize, Nat.mod_lt _ (by decide)⟩

def blank : Memory := ⟨Vector.replicate Layout.memorySize 0⟩

def read (m : Memory) (address : UInt16) : UInt8 := m.bytes[cell address]

def write (m : Memory) (address : UInt16) (byte : UInt8) : Memory :=
  ⟨m.bytes.set (cell address) byte⟩

/-- Two bytes, the first one more significant. -/
def readWord (m : Memory) (address : UInt16) : UInt16 :=
  Word.ofBytes (m.read address) (m.read (address + 1))

def span (address : UInt16) (length : Nat) : List UInt16 :=
  (List.range length).map fun k => address + UInt16.ofNat k

def readSpan (m : Memory) (address : UInt16) (length : Nat) : List UInt8 :=
  (span address length).map m.read

def store (m : Memory) (address : UInt16) : List UInt8 → Memory
  | [] => m
  | byte :: rest => (m.write address byte).store (address + 1) rest

def initial : Memory := blank.store 0 Layout.spriteSheet

def load (m : Memory) (program : List UInt8) : Except Rejection Memory :=
  if program = [] then .error .emptyProgram
  else if Layout.maxProgramSize < program.length then .error (.programTooLarge program.length)
  else .ok (m.store Layout.programStart program)

theorem cell_val (address : UInt16) : (cell address).val = address.toNat % 4096 := rfl

theorem read_write (m : Memory) (a b : UInt16) (byte : UInt8) :
    (m.write a byte).read b = if cell a = cell b then byte else m.read b := by
  simp only [read, write, Fin.getElem_fin, Vector.getElem_set, Fin.ext_iff]

theorem read_congr (m : Memory) {a b : UInt16} (h : cell a = cell b) : m.read a = m.read b := by
  simp only [read, h]

theorem write_congr (m : Memory) {a b : UInt16} (byte : UInt8) (h : cell a = cell b) :
    m.write a byte = m.write b byte := by
  simp only [write, h]

theorem length_readSpan (m : Memory) (address : UInt16) (length : Nat) :
    (m.readSpan address length).length = length := by
  simp [readSpan, span]

theorem cell_sub_eq_zero {a b : UInt16} : (cell (b - a)).val = 0 ↔ cell a = cell b := by
  have ha := a.toNat_lt
  have hb := b.toNat_lt
  simp only [Fin.ext_iff, cell_val, UInt16.toNat_sub]
  omega

theorem cell_sub_succ {a b : UInt16} (h : cell a ≠ cell b) :
    (cell (b - a)).val = (cell (b - (a + 1))).val + 1 := by
  have ha := a.toNat_lt
  have hb := b.toNat_lt
  simp only [ne_eq, Fin.ext_iff, cell_val, UInt16.toNat_sub, UInt16.toNat_add,
    UInt16.toNat_one] at h ⊢
  omega

theorem cell_sub_last {a b : UInt16} (h : cell a = cell b) :
    (cell (b - (a + 1))).val = 4095 := by
  have ha := a.toNat_lt
  have hb := b.toNat_lt
  simp only [Fin.ext_iff, cell_val, UInt16.toNat_sub, UInt16.toNat_add,
    UInt16.toNat_one] at h ⊢
  omega

/-- Stored bytes are read back from their places, which are distinct as long as the bytes fit into
memory, and every other byte stays. -/
theorem read_store (m : Memory) (a b : UInt16) (bytes : List UInt8)
    (hfit : bytes.length ≤ Layout.memorySize) :
    (m.store a bytes).read b = bytes[(cell (b - a)).val]?.getD (m.read b) := by
  induction bytes generalizing m a with
  | nil => rfl
  | cons byte rest ih =>
    have hrest : rest.length < Layout.memorySize := hfit
    simp only [store]
    rw [ih _ _ (Nat.le_of_lt hrest), read_write]
    by_cases h : cell a = cell b
    · have hlast : rest[(cell (b - (a + 1))).val]? = none := by
        rw [cell_sub_last h]
        exact List.getElem?_eq_none (Nat.le_of_lt_succ hrest)
      rw [hlast, cell_sub_eq_zero.mpr h, if_pos h]
      rfl
    · rw [cell_sub_succ h, if_neg h, List.getElem?_cons_succ]

end Memory
end ChipEight
