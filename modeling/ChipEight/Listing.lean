import ChipEight.Layout
import ChipEight.Text.Hex
import ChipEight.Word

/-!
The words of a program in order, each with the address it is loaded to, and the way back from an
address to the place in that list.
-/
namespace ChipEight

structure ListedWord where
  index : Nat
  address : UInt16
  word : UInt16
deriving DecidableEq, Repr

abbrev Listing := List ListedWord

namespace Listing

/-- The pairs of successive bytes; an odd last byte is left out. -/
def pairs : List UInt8 → List (UInt8 × UInt8)
  | high :: low :: rest => (high, low) :: pairs rest
  | _ => []

def ofProgram (program : List UInt8) : Listing :=
  (pairs program).mapIdx fun index (high, low) =>
    { index
      address := Layout.programStart + 2 * UInt16.ofNat index
      word := Word.ofBytes high low }

/-- The place in the list of the word at an address; below the start of programs there is none. -/
def indexOf (address : UInt16) : Option Nat :=
  if Layout.programStart ≤ address then
    some ((address.toNat - Layout.programStart.toNat) / 2)
  else none

theorem indexOf_eq (address : UInt16) :
    indexOf address =
      if 0x200 ≤ address.toNat then some ((address.toNat - 0x200) / 2) else none := by
  have hstart : Layout.programStart.toNat = 0x200 := rfl
  have hle : Layout.programStart ≤ address ↔ 0x200 ≤ address.toNat := by
    rw [UInt16.le_iff_toNat_le, hstart]
  rw [indexOf, hstart]
  by_cases h : 0x200 ≤ address.toNat
  · rw [if_pos (hle.mpr h), if_pos h]
  · rw [if_neg (mt hle.mp h), if_neg h]

theorem length_pairs (bytes : List UInt8) : (pairs bytes).length = bytes.length / 2 := by
  fun_induction pairs bytes with
  | case1 high low rest ih => simp [ih]; omega
  | case2 bytes h =>
    match bytes, h with
    | [], _ => rfl
    | [_], _ => simp
    | a :: b :: rest, h => exact absurd rfl (h a b rest)

theorem length_ofProgram (program : List UInt8) :
    (ofProgram program).length = program.length / 2 := by
  simp [ofProgram, length_pairs]

end Listing

namespace ListedWord

def text (w : ListedWord) : String := Text.Hex.lower 4 w.word.toNat

end ListedWord
end ChipEight
