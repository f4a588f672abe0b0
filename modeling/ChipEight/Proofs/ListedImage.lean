import ChipEight.Proofs.AddressWrap
import ChipEight.Proofs.Bare.Console
import ChipEight.Proofs.StraightLine

/-!
The listing of a program and the memory that the program is loaded into. The memory consists of
the digit sprites, zeros, the program and zeros again. A listed word is the one that is fetched at
its address, which belongs to its place in the listing, and its text spells the two bytes of the
program that it is made of.
-/
namespace ChipEight

namespace Text.Hex

def lowerDigits : List Char :=
  ['0', '1', '2', '3', '4', '5', '6', '7', '8', '9', 'a', 'b', 'c', 'd', 'e', 'f']

def ofByte (byte : UInt8) : List Char :=
  [lowerDigits.getD (byte.toNat / 16) '0', lowerDigits.getD (byte.toNat % 16) '0']

theorem digitChar_of_lt {n : Nat} (h : n < 16) : Nat.digitChar n = lowerDigits.getD n '0' := by
  have hdigit : ∀ d : Fin 16, Nat.digitChar d.val = lowerDigits.getD d.val '0' := by decide
  exact hdigit ⟨n, h⟩

/-- Four digits are enough for a word, two for each of its bytes. -/
theorem lower_ofBytes (high low : UInt8) :
    lower 4 (Word.ofBytes high low).toNat = String.ofList (ofByte high ++ ofByte low) := by
  have hhigh := high.toNat_lt
  have hlow := low.toNat_lt
  have hword := Word.toNat_ofBytes high low
  have hnone : (Word.ofBytes high low).toNat / 16 / 16 / 16 / 16 = 0 := by omega
  have hfirst : (Word.ofBytes high low).toNat / 16 / 16 / 16 % 16 = high.toNat / 16 := by omega
  have hsecond : (Word.ofBytes high low).toNat / 16 / 16 % 16 = high.toNat % 16 := by omega
  have hthird : (Word.ofBytes high low).toNat / 16 % 16 = low.toNat / 16 := by omega
  have hfourth : (Word.ofBytes high low).toNat % 16 = low.toNat % 16 := by omega
  simp only [lower, digits, hnone, hfirst, hsecond, hthird, hfourth]
  rw [digitChar_of_lt (by omega), digitChar_of_lt (by omega), digitChar_of_lt (by omega),
    digitChar_of_lt (by omega)]
  rfl

end Text.Hex

namespace Listing

theorem getElem?_pairs {bytes : List UInt8} {k : Nat} (h : 2 * k + 1 < bytes.length) :
    (pairs bytes)[k]? = some (bytes[2 * k], bytes[2 * k + 1]) := by
  fun_induction pairs bytes generalizing k with
  | case1 high low rest ih =>
    cases k with
    | zero => rfl
    | succ k =>
      have hrest : 2 * k + 1 < rest.length := by
        simp only [List.length_cons] at h
        omega
      exact ih hrest
  | case2 bytes hshort =>
    cases bytes with
    | nil => cases h
    | cons high rest =>
      cases rest with
      | nil => simp at h
      | cons low rest => exact absurd rfl (hshort high low rest)

/-- The word at a place of the listing. -/
theorem getElem?_ofProgram {program : List UInt8} {k : Nat} (h : 2 * k + 1 < program.length) :
    (ofProgram program)[k]? =
      some ⟨k, addressOf k, Word.ofBytes program[2 * k] program[2 * k + 1]⟩ := by
  have haddress : addressOf k = Layout.programStart + 2 * UInt16.ofNat k := by
    rw [addressOf, UInt16.ofNat_add, UInt16.ofNat_mul]
    rfl
  rw [ofProgram, List.getElem?_mapIdx, getElem?_pairs h, haddress]
  rfl

/-- The address between two listed words belongs to the first of them. -/
theorem indexOf_addressOf_add_one {k : Nat} (hk : k ≤ 1792) :
    indexOf (addressOf k + 1) = some k := by
  have hhalf : (2 * k + 1) / 2 = k := by omega
  rw [indexOf_eq, toNat_addressOf_add_one hk, if_pos (Nat.le_add_right ..),
    Nat.add_sub_cancel_left, hhalf]

end Listing

namespace Memory

open Listing (addressOf toNat_addressOf toNat_addressOf_add_one)

variable {program : List UInt8}

/-- The whole memory that a program starts with. -/
theorem toList_image (h : Acceptable program) :
    (image program).bytes.toList = Layout.spriteSheet ++ List.replicate (0x200 - 0x50) 0 ++
      program ++ List.replicate (0x1000 - 0x200 - program.length) 0 := by
  have hroom : program.length ≤ 3584 := h.2
  have hsheet : Layout.spriteSheet.length = 80 := rfl
  have hsize : Layout.memorySize = 4096 := rfl
  apply List.ext_getElem
  · simp only [Vector.length_toList, List.length_append, List.length_replicate, hsheet, hsize]
    omega
  · intro n hn hn'
    rw [Vector.length_toList] at hn
    have hlt : n < 4096 := hn
    have haddress : (UInt16.ofNat n).toNat = n := by
      rw [UInt16.toNat_ofNat']
      omega
    have hread := read_image h (show (UInt16.ofNat n).toNat < 4096 by rwa [haddress])
    rw [read_ofNat _ hn, haddress] at hread
    rw [Vector.getElem_toList, hread]
    simp only [List.getElem_append, List.length_append, List.length_replicate, hsheet,
      List.getElem_replicate]
    -- The parts begin at 0x50, at 0x200 and behind the program.
    by_cases hsprites : n < 80
    · rw [dif_pos (by omega), dif_pos (by omega), dif_pos hsprites, if_pos (by omega),
        List.getElem?_eq_getElem (by omega)]
      rfl
    · by_cases hbelow : n < 0x200
      · rw [dif_pos (by omega), dif_pos (by omega), dif_neg hsprites, if_pos hbelow,
          List.getElem?_eq_none (by omega)]
        rfl
      · rw [if_neg hbelow]
        by_cases hprogram : n < 0x200 + program.length
        · rw [dif_pos (by omega), dif_neg (by omega), List.getElem?_eq_getElem (by omega)]
          rfl
        · rw [dif_neg (by omega), List.getElem?_eq_none (by omega)]
          rfl

/-- A loaded program is fetched in pairs of bytes. -/
theorem readWord_image (h : Acceptable program) {k : Nat} (hk : 2 * k + 1 < program.length) :
    (image program).readWord (addressOf k) =
      Word.ofBytes program[2 * k] program[2 * k + 1] := by
  have hroom : program.length ≤ 3584 := h.2
  have hplace : k ≤ 1792 := by omega
  have hfirst := toNat_addressOf hplace
  have hsecond := toNat_addressOf_add_one hplace
  rw [readWord, read_image h (by omega), read_image h (by omega), hfirst, hsecond,
    if_neg (by omega), if_neg (by omega), Nat.add_sub_cancel_left, Nat.add_sub_cancel_left,
    List.getElem?_eq_getElem hk, List.getElem?_eq_getElem (Nat.lt_of_succ_lt hk)]
  rfl

end Memory

namespace Machine

/-- An acceptable program, whatever the machine was before. It is loaded, and then memory is the
digit sprites, zeros, the program, and zeros. Its listing has a word for every two bytes, and its
addresses are computed without overflow. The word at a place of the listing is the one in memory
at its address, it is fetched wherever the program counter means that cell, both addresses of the
word lead back to its place, and its text is the digits of its two bytes. -/
theorem listing_matches_image (m : Machine) {program : List UInt8} (hpos : 1 ≤ program.length)
    (hroom : program.length ≤ 3584) :
    ∃ n, m.load program = .ok n ∧
      n.memory.bytes.toList = Layout.spriteSheet ++ List.replicate (0x200 - 0x50) 0 ++ program ++
        List.replicate (0x1000 - 0x200 - program.length) 0 ∧
      Bare.listing program = .ok (.ofProgram program) ∧
      (Listing.ofProgram program).length = program.length / 2 ∧
      ∀ k (_ : k < program.length / 2), ∃ entry, (Listing.ofProgram program)[k]? = some entry ∧
        entry.index = k ∧ entry.address.toNat = 0x200 + 2 * k ∧
        entry.word = n.memory.readWord entry.address ∧
        (∀ s : Machine, s.memory = n.memory → s.registers.pc.toNat % 4096 = 0x200 + 2 * k →
          s.nextWord = entry.word) ∧
        Listing.indexOf entry.address = some k ∧ Listing.indexOf (entry.address + 1) = some k ∧
        entry.text = String.ofList
          (Text.Hex.ofByte program[2 * k] ++ Text.Hex.ofByte program[2 * k + 1]) := by
  have haccept : Acceptable program := ⟨hpos, hroom⟩
  refine ⟨_, m.load_of_acceptable haccept, Memory.toList_image haccept, Listing.listing_eq hroom,
    Listing.length_ofProgram program, fun k hk => ?_⟩
  have hpair : 2 * k + 1 < program.length := by omega
  have hplace : k ≤ 1792 := by omega
  have haddress := Listing.toNat_addressOf hplace
  have hword := Memory.readWord_image haccept hpair
  refine ⟨_, Listing.getElem?_ofProgram hpair, rfl, haddress, hword.symm, ?_,
    Listing.indexOf_addressOf hplace, Listing.indexOf_addressOf_add_one hplace,
    Text.Hex.lower_ofBytes _ _⟩
  intro s hmemory hpc
  have hcell : Memory.SameCell s.registers.pc (Listing.addressOf k) := by
    rw [Memory.sameCell_iff, haddress, hpc]
    omega
  rw [nextWord, hmemory, Memory.readWord_congr _ hcell]
  exact hword

/-- A program that fills memory: its last word, fetched from sixteen times the size of
memory less two. -/
theorem listing_matches_image_of_full_memory :
    let program := List.replicate 1791 0x00 ++ List.replicate 1793 0xC5
    let m := (boot .standard (.ofSeed 7)).respondAll [.load [0xA2, 0x00, 0xF0, 0x55], .tick 2]
    1 ≤ program.length ∧ program.length ≤ 3584 ∧
      ∃ n entry, m.load program = .ok n ∧ (Listing.ofProgram program)[1791]? = some entry ∧
        entry.address.toNat = 0xFFE ∧ (n.jump 0xFFFE).nextWord = entry.word ∧
        Listing.indexOf 0xFFF = some 1791 ∧ entry.text = "c5c5" := by
  intro program m
  have hlength : program.length = 3584 := by
    rw [List.length_append, List.length_replicate, List.length_replicate]
  have hpos : 1 ≤ program.length := by omega
  have hroom : program.length ≤ 3584 := by omega
  obtain ⟨n, hload, -, -, -, hlisted⟩ := m.listing_matches_image hpos hroom
  obtain ⟨entry, hentry, -, haddress, -, hfetch, -, hindex, htext⟩ := hlisted 1791 (by omega)
  have hlast : entry.address + 1 = 0xFFF := by
    apply UInt16.toNat_inj.mp
    rw [UInt16.toNat_add, haddress]
    rfl
  rw [hlast] at hindex
  have hpc : (n.jump 0xFFFE).registers.pc.toNat % 4096 = 0x200 + 2 * 1791 := by
    have hjump : (n.jump 0xFFFE).registers.pc = 0xFFFE := rfl
    rw [hjump]
    decide
  refine ⟨hpos, hroom, n, entry, hload, hentry, haddress, hfetch _ rfl hpc, hindex, ?_⟩
  have hbyte : ∀ k (_ : k < program.length), 1791 ≤ k → program[k] = 0xC5 := by
    intro k hk hle
    rw [List.getElem_append_right (by rwa [List.length_replicate]), List.getElem_replicate]
  rw [htext, hbyte _ _ (by decide), hbyte _ _ (by decide)]
  decide

end Machine
end ChipEight
