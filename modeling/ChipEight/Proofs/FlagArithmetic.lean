import ChipEight.Machine.Run
import ChipEight.Proofs.OpcodeTable

/-!
Arithmetic with the flag, over the integers. Five operations give a result modulo 256 and a bit.
Both come from the old values of the two registers that a word names, also where one is named
twice or is the flag register itself. The flag is written before the result, so the result stays
where the two meet.
-/
namespace ChipEight

namespace Arithmetic

def Agrees (outcome : UInt8 × Bool) (exact : Int × Bool) : Prop :=
  outcome.1.toNat = exact.1 ∧ outcome.2 = exact.2

/-- The last digits of the words for arithmetic with the flag, each with the result and the flag
that two operands give. A shift has no use for the second one. -/
def exactTable : List (Nat × (Int → Int → Int × Bool)) := [
  (0x4, fun a b => ((a + b) % 256, 255 < a + b)),
  (0x5, fun a b => ((a - b) % 256, b ≤ a)),
  (0x6, fun a _ => (a / 2, a % 2 = 1)),
  (0x7, fun a b => ((b - a) % 256, a ≤ b)),
  (0xE, fun a _ => (2 * a % 256, 128 ≤ a))]

section Agreement

variable (a b : UInt8)

theorem add_agrees :
    Agrees (add a b) (((a.toNat : Int) + b.toNat) % 256, 255 < (a.toNat : Int) + b.toNat) := by
  constructor
  · rw [add, UInt8.toNat_add]
    omega
  · exact decide_eq_decide.mpr (by omega)

theorem sub_agrees :
    Agrees (sub a b) (((a.toNat : Int) - b.toNat) % 256, (b.toNat : Int) ≤ a.toNat) := by
  have ha := a.toNat_lt
  have hb := b.toNat_lt
  constructor
  · rw [sub, UInt8.toNat_sub]
    omega
  · exact decide_eq_decide.mpr (by rw [UInt8.le_iff_toNat_le]; omega)

theorem shiftRight_agrees :
    Agrees (shiftRight a) ((a.toNat : Int) / 2, (a.toNat : Int) % 2 = 1) := by
  constructor
  · have hhalf : (a >>> 1).toNat = a.toNat / 2 := by
      rw [UInt8.toNat_shiftRight]
      exact Nat.shiftRight_eq_div_pow ..
    rw [shiftRight, hhalf]
    omega
  · rw [shiftRight, Nat.testBit_zero]
    exact decide_eq_decide.mpr (by omega)

theorem shiftLeft_agrees :
    Agrees (shiftLeft a) (2 * (a.toNat : Int) % 256, 128 ≤ (a.toNat : Int)) := by
  have ha := a.toNat_lt
  constructor
  · have hdouble : (a <<< 1).toNat = a.toNat * 2 % 256 := by
      rw [UInt8.toNat_shiftLeft]
      exact congrArg (· % 256) (Nat.shiftLeft_eq ..)
    rw [shiftLeft, hdouble]
    omega
  · rw [shiftLeft, Nat.testBit_eq_decide_div_mod_eq]
    exact decide_eq_decide.mpr (by omega)

/-- Subtraction takes an addition back, and there is a borrow if there was a carry. -/
theorem sub_add : sub (add a b).1 b = (a, !(add a b).2) := by
  have ha := a.toNat_lt
  have hb := b.toNat_lt
  refine Prod.ext (UInt8.add_sub_cancel ..) ?_
  rw [sub, add, ← decide_not]
  refine decide_eq_decide.mpr ?_
  rw [UInt8.le_iff_toNat_le, UInt8.toNat_add]
  omega

end Agreement

end Arithmetic

namespace Machine

open Instruction Arithmetic

variable (m : Machine) (x y : Fin 16)

theorem reg_setFlagged (z : Fin 16) (outcome : UInt8 × Bool) :
    (m.setFlagged x outcome).reg z =
      if x = z then outcome.1
      else if z = Layout.flagRegister then outcome.2.toUInt8 else m.reg z :=
  Registers.get_setFlagged ..

/-- A shift is the same whichever second register its word names. -/
theorem decode_shift :
    decode (wordXYN 0x8 x.val y.val 0x6) = .shiftRight x ∧
      decode (wordXYN 0x8 x.val y.val 0xE) = .shiftLeft x := by
  simp only [decode, ofArithmetic, family_wordXYN, operandX_wordXYN, mod_wordXYN, Nat.reduceLT,
    Nat.reduceMod, Fin.is_lt, and_self]

theorem execute_addRegisters :
    m.execute (decode (wordXYN 0x8 x.val y.val 0x4)) = m.setFlagged x (add (m.reg x) (m.reg y)) :=
  congrArg m.execute (decode_of_eq_encode (i := .addRegisters x y) trivial rfl)

theorem execute_sub :
    m.execute (decode (wordXYN 0x8 x.val y.val 0x5)) = m.setFlagged x (sub (m.reg x) (m.reg y)) :=
  congrArg m.execute (decode_of_eq_encode (i := .sub x y) trivial rfl)

theorem execute_subFrom :
    m.execute (decode (wordXYN 0x8 x.val y.val 0x7)) = m.setFlagged x (sub (m.reg y) (m.reg x)) :=
  congrArg m.execute (decode_of_eq_encode (i := .subFrom x y) trivial rfl)

/-- Each word of the table writes an outcome that agrees with the integers. -/
theorem exists_setFlagged : ∀ entry ∈ exactTable, ∃ outcome,
    m.execute (decode (wordXYN 0x8 x.val y.val entry.1)) = m.setFlagged x outcome ∧
      Agrees outcome (entry.2 (m.reg x).toNat (m.reg y).toNat) := by
  obtain ⟨hright, hleft⟩ := decode_shift x y
  simp only [exactTable, List.forall_mem_cons]
  exact ⟨⟨_, m.execute_addRegisters x y, add_agrees ..⟩, ⟨_, m.execute_sub x y, sub_agrees ..⟩,
    ⟨_, congrArg m.execute hright, shiftRight_agrees _⟩,
    ⟨_, m.execute_subFrom x y, sub_agrees ..⟩,
    ⟨_, congrArg m.execute hleft, shiftLeft_agrees _⟩, nofun⟩

/-- Every word of the table writes the result over the flag, and nothing else. -/
theorem reg_execute_of_mem {entry : Nat × (Int → Int → Int × Bool)}
    (hentry : entry ∈ exactTable) :
    ∃ outcome, Agrees outcome (entry.2 (m.reg x).toNat (m.reg y).toNat) ∧
      ∀ z, (m.execute (decode (wordXYN 0x8 x.val y.val entry.1))).reg z =
        if x = z then outcome.1
        else if z = Layout.flagRegister then outcome.2.toUInt8 else m.reg z := by
  obtain ⟨outcome, hnext, hagrees⟩ := m.exists_setFlagged x y entry hentry
  refine ⟨outcome, hagrees, fun z => ?_⟩
  rw [hnext, reg_setFlagged]

theorem execute_shift (other : Fin 16) : ∀ digit ∈ [0x6, 0xE],
    m.execute (decode (wordXYN 0x8 x.val other.val digit)) =
      m.execute (decode (wordXYN 0x8 x.val y.val digit)) := by
  obtain ⟨hright, hleft⟩ := decode_shift x y
  obtain ⟨hright', hleft'⟩ := decode_shift x other
  intro digit hdigit
  simp only [List.mem_cons, List.not_mem_nil, or_false] at hdigit
  rcases hdigit with rfl | rfl
  · rw [hright, hright']
  · rw [hleft, hleft']

variable {x y}

/-- What an addition and a subtraction leave behind is the absence of the carry. -/
theorem reg_add_sub (hxy : x ≠ y) (hx : x ≠ Layout.flagRegister) (hy : y ≠ Layout.flagRegister)
    (z : Fin 16) :
    ((m.execute (decode (wordXYN 0x8 x.val y.val 0x4))).execute
        (decode (wordXYN 0x8 x.val y.val 0x5))).reg z =
      if z = Layout.flagRegister then (!(add (m.reg x) (m.reg y)).2).toUInt8 else m.reg z := by
  have hminuend :
      (m.setFlagged x (add (m.reg x) (m.reg y))).reg x = (add (m.reg x) (m.reg y)).1 := by
    rw [reg_setFlagged, if_pos rfl]
  have hsubtrahend : (m.setFlagged x (add (m.reg x) (m.reg y))).reg y = m.reg y := by
    rw [reg_setFlagged, if_neg hxy, if_neg hy]
  rw [execute_addRegisters, execute_sub, hminuend, hsubtrahend, sub_add, reg_setFlagged]
  by_cases hz : x = z
  · rw [if_pos hz, ← hz, if_neg hx]
  · rw [if_neg hz, reg_setFlagged, if_neg hz]
    split
    · rfl
    · rfl

variable (x y)

/-- Arithmetic with the flag gives the exact result modulo 256 and the exact flag of the old
operands, whichever registers these are, and writes nothing else. What second register the word of
a shift names is all the same. A subtraction after an addition of the same register restores what
was there, with the opposite flag. -/
theorem arithmetic_is_exact :
    (∀ entry ∈ exactTable,
        let exact := entry.2 (m.reg x).toNat (m.reg y).toNat
        let next := m.execute (decode (wordXYN 0x8 x.val y.val entry.1))
        (next.reg x).toNat = exact.1 ∧
          (x ≠ Layout.flagRegister → next.reg Layout.flagRegister = exact.2.toUInt8) ∧
          ∀ z, z ≠ x → z ≠ Layout.flagRegister → next.reg z = m.reg z) ∧
      (∀ other : Fin 16, ∀ digit ∈ [0x6, 0xE],
        m.execute (decode (wordXYN 0x8 x.val other.val digit)) =
          m.execute (decode (wordXYN 0x8 x.val y.val digit))) ∧
      (x ≠ y → x ≠ Layout.flagRegister → y ≠ Layout.flagRegister →
        let added := m.execute (decode (wordXYN 0x8 x.val y.val 0x4))
        let restored := added.execute (decode (wordXYN 0x8 x.val y.val 0x5))
        (∀ z ≠ Layout.flagRegister, restored.reg z = m.reg z) ∧
          ∃ flag : Bool, added.reg Layout.flagRegister = flag.toUInt8 ∧
            restored.reg Layout.flagRegister = (!flag).toUInt8) := by
  refine ⟨?_, m.execute_shift x y, ?_⟩
  · intro entry hentry exact next
    obtain ⟨outcome, ⟨hresult, hflag⟩, hreg⟩ := m.reg_execute_of_mem x y hentry
    refine ⟨?_, fun hx => ?_, fun z hzx hzf => ?_⟩
    · rw [hreg, if_pos rfl]
      exact hresult
    · rw [hreg, if_neg hx, if_pos rfl, hflag]
    · rw [hreg, if_neg hzx.symm, if_neg hzf]
  · intro hxy hx hy added restored
    have hadded : added = m.setFlagged x (add (m.reg x) (m.reg y)) := m.execute_addRegisters x y
    have hrestored (z : Fin 16) : restored.reg z = _ := m.reg_add_sub hxy hx hy z
    refine ⟨fun z hz => ?_, (add (m.reg x) (m.reg y)).2, ?_, ?_⟩
    · rw [hrestored, if_neg hz]
    · rw [hadded, reg_setFlagged, if_neg hx, if_pos rfl]
    · rw [hrestored, if_pos rfl]

/-- An overflowing addition of the flag register to itself, and a subtraction of the flag
register, which still takes its old value away. Between two other registers an overflow and a
borrow cancel. -/
theorem arithmetic_is_exact_on_aliases :
    let m : Machine := { boot .standard (.ofSeed 7) with
      registers := ⟨.replicate 16 0x90, 0, Layout.programStart, []⟩ }
    let doubled := m.execute (decode (wordXYN 0x8 0xF 0xF 0x4))
    let emptied := m.execute (decode (wordXYN 0x8 1 0xF 0x5))
    let added := m.execute (decode (wordXYN 0x8 1 2 0x4))
    let restored := added.execute (decode (wordXYN 0x8 1 2 0x5))
    doubled.reg 0xF = 0x20 ∧ emptied.reg 1 = 0 ∧ emptied.reg 0xF = 1 ∧ added.reg 0xF = 1 ∧
      restored.reg 1 = 0x90 ∧ restored.reg 0xF = 0 := by
  intro m doubled emptied added restored
  have hreg (x : Fin 16) : m.reg x = 0x90 := by
    simp only [m, reg, Registers.get, Fin.getElem_fin, Vector.getElem_replicate]
  obtain ⟨hdoubled, -, -⟩ := (m.arithmetic_is_exact 0xF 0xF).1 _ (.head _)
  obtain ⟨hemptied, hnoborrow, -⟩ := (m.arithmetic_is_exact 1 0xF).1 _ (.tail _ (.head _))
  obtain ⟨-, hcarry, -⟩ := (m.arithmetic_is_exact 1 2).1 _ (.head _)
  obtain ⟨hrestored, flag, hadded, hopposite⟩ :=
    (m.arithmetic_is_exact 1 2).2.2 (by decide) (by decide) (by decide)
  simp only [hreg] at hdoubled hemptied hnoborrow hcarry
  have hone : added.reg 0xF = 1 := hcarry (by decide)
  have hflag : flag = true := by
    cases flag with
    | true => rfl
    | false => exact absurd (hadded.symm.trans hone) (by decide)
  rw [hflag] at hopposite
  exact ⟨UInt8.toNat_inj.mp (Int.ofNat_inj.mp hdoubled),
    UInt8.toNat_inj.mp (Int.ofNat_inj.mp hemptied), hnoborrow (by decide), hone,
    (hrestored 1 (by decide)).trans (hreg 1), hopposite⟩

end Machine
end ChipEight
