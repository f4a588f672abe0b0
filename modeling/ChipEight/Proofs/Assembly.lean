import ChipEight.Proofs.FreshLoad
import ChipEight.Proofs.OpcodeTable

/-!
Programs as lists of instructions. The listing of an assembled program reads as the instructions
it was assembled from. Assembling the instructions of a listing gives the bytes of the program
back, except that a shift has lost the register it did not read.
-/
namespace ChipEight

namespace Opcode

open Instruction

/-- A word without its third digit. -/
theorem ofBytes_high_low_mod (word : UInt16) :
    Word.ofBytes (Word.high word) (Word.low word % 16) =
      wordXYN (family word) (operandX word).val 0 (operandN word).val := by
  have hword := word.toNat_lt
  have hsixteen : (16 : UInt8).toNat = 16 := rfl
  apply UInt16.toNat_inj.mp
  simp only [wordXYN, family, operandX, operandN, Fin.ofNat, UInt16.toNat_ofNat',
    Word.toNat_ofBytes, Word.high, Word.low, UInt8.toNat_mod, UInt8.toNat_ofNat', hsixteen]
  omega

def IsShift (word : UInt16) : Prop :=
  (Row.shift 0x6 shiftRight).pattern.Matches word ∨ (Row.shift 0xE shiftLeft).pattern.Matches word

instance (word : UInt16) : Decidable (IsShift word) := inferInstanceAs (Decidable (_ ∨ _))

theorem encode_decode_of_isShift {word : UInt16} (h : IsShift word) :
    encode (decode word) = Word.ofBytes (Word.high word) (Word.low word % 16) := by
  rw [ofBytes_high_low_mod]
  rcases h with h | h
  · have hfamily : family word = 0x8 := h.1
    have hlast : (operandN word).val = 0x6 := h.2.2.2
    rw [encode_decode_of_matches (by simp [table]) h, hfamily, hlast]
    rfl
  · have hfamily : family word = 0x8 := h.1
    have hlast : (operandN word).val = 0xE := h.2.2.2
    rw [encode_decode_of_matches (by simp [table]) h, hfamily, hlast]
    rfl

example : encode (decode 0x812E) = 0x810E := by decide

theorem encode_decode_of_not_isShift {word : UInt16} (h : ¬ IsShift word) :
    encode (decode word) = word := by
  rcases exists_row word with hunknown | ⟨row, hrow, hmatches⟩
  · rw [hunknown]
    rfl
  · rw [encode_decode_of_matches hrow hmatches]
    rcases shift_or_usesAll hrow with rfl | rfl | hused
    · exact absurd (.inl hmatches) h
    · exact absurd (.inr hmatches) h
    · exact Pattern.fill_of_matches hmatches hused

end Opcode

namespace Listing

def disassemble (listing : Listing) : List Instruction :=
  listing.map fun entry => .decode entry.word

/-- The bytes of a program, without the registers that its shifts do not read. -/
def clearShiftSources : List UInt8 → List UInt8
  | high :: low :: rest =>
    high :: (if Opcode.IsShift (Word.ofBytes high low) then low % 16 else low) ::
      clearShiftSources rest
  | rest => rest

theorem disassemble_ofProgram (bytes : List UInt8) :
    disassemble (ofProgram bytes) =
      (pairs bytes).map fun p => .decode (Word.ofBytes p.1 p.2) := by
  refine List.ext_getElem (by simp [disassemble, ofProgram]) fun k _ _ => ?_
  simp [disassemble, ofProgram]

theorem length_assemble (program : List Instruction) :
    (Instruction.assemble program).length = 2 * program.length := by
  induction program with
  | nil => rfl
  | cons i rest ih =>
    rw [Instruction.assemble, List.flatMap_cons, List.length_append, ← Instruction.assemble, ih]
    exact Nat.add_comm 2 _

/-- The bytes of an instruction lie at twice its place. -/
theorem getElem?_assemble {program : List Instruction} {k : Nat} (hk : k < program.length) :
    (Instruction.assemble program)[2 * k]? = some (Word.high program[k].encode) ∧
      (Instruction.assemble program)[2 * k + 1]? = some (Word.low program[k].encode) := by
  induction program generalizing k with
  | nil => cases hk
  | cons i rest ih =>
    cases k with
    | zero => exact ⟨rfl, rfl⟩
    | succ k => exact ih (Nat.lt_of_succ_lt_succ hk)

theorem acceptable_assemble {program : List Instruction} (hpos : 1 ≤ program.length)
    (hroom : program.length ≤ 1792) : Acceptable (Instruction.assemble program) := by
  have hmax : Layout.maxProgramSize = 3584 := rfl
  unfold Acceptable
  rw [length_assemble]
  omega

theorem pairs_assemble (program : List Instruction) :
    pairs (Instruction.assemble program) =
      program.map fun i => (Word.high i.encode, Word.low i.encode) := by
  induction program with
  | nil => rfl
  | cons i rest ih => exact congrArg (List.cons _) ih

theorem disassemble_assemble {program : List Instruction} (h : ∀ i ∈ program, i.WellFormed) :
    disassemble (ofProgram (Instruction.assemble program)) = program := by
  rw [disassemble_ofProgram, pairs_assemble, List.map_map]
  refine (List.map_congr_left fun i hi => ?_).trans program.map_id
  simp only [Function.comp_apply, Word.ofBytes_high_low, Instruction.wellFormed_iff.mp (h i hi),
    id]

/-- Encoding a decoded pair of bytes changes at most the digit that a shift does not read. -/
theorem bytes_encode_decode (high low : UInt8) :
    [Word.high (Instruction.decode (Word.ofBytes high low)).encode,
        Word.low (Instruction.decode (Word.ofBytes high low)).encode] =
      [high, if Opcode.IsShift (Word.ofBytes high low) then low % 16 else low] := by
  by_cases hshift : Opcode.IsShift (Word.ofBytes high low)
  · rw [Opcode.encode_decode_of_isShift hshift, Word.high_ofBytes, Word.low_ofBytes,
      Word.high_ofBytes, Word.low_ofBytes, if_pos hshift]
  · rw [Opcode.encode_decode_of_not_isShift hshift, Word.high_ofBytes, Word.low_ofBytes,
      if_neg hshift]

theorem assemble_disassemble {bytes : List UInt8} (h : bytes.length % 2 = 0) :
    Instruction.assemble (disassemble (ofProgram bytes)) = clearShiftSources bytes := by
  rw [disassemble_ofProgram]
  fun_induction clearShiftSources bytes with
  | case1 high low rest ih =>
    have hrest : rest.length % 2 = 0 := by
      simp only [List.length_cons] at h
      omega
    rw [pairs, List.map_cons, Instruction.assemble, List.flatMap_cons, bytes_encode_decode]
    exact congrArg ([high, _] ++ ·) (ih hrest)
  | case2 bytes hshort =>
    match bytes, hshort with
    | [], _ => rfl
    | [_], _ => cases h
    | high :: low :: rest, hshort => exact absurd rfl (hshort high low rest)

end Listing

namespace Console

open Instruction Opcode

/-- The opcode table over whole programs. Loading assembled instructions and decoding the
listing gives them back. For an accepted program of even length, assembling the decoded listing
gives its bytes back but for the unread digits of shifts. A word matches one row of the table at
most, decoding picks that row with the operands of the word, and unknown are exactly the words
without a row. -/
theorem assembly_round_trip :
    (∀ (c : Console) (program : List Instruction) (autoplay : Bool),
      1 ≤ program.length → program.length ≤ 1792 → (∀ i ∈ program, i.WellFormed) →
        ∃ d signals, c.load (assemble program) autoplay = .ok (d, signals) ∧
          d.listing.disassemble = program) ∧
    (∀ (c d : Console) (bytes : List UInt8) (autoplay : Bool) (signals : List Signal),
      c.load bytes autoplay = .ok (d, signals) → bytes.length % 2 = 0 →
        assemble d.listing.disassemble = Listing.clearShiftSources bytes) ∧
    (table.Pairwise fun r s => ∀ word, ¬ (r.pattern.Matches word ∧ s.pattern.Matches word)) ∧
    (∀ row ∈ table, ∀ word, row.pattern.Matches word →
      decode word = row.instruction word ∧ encode (decode word) = row.pattern.fill word) ∧
    (∀ i : Instruction, i.WellFormed → i = .unknown i.encode ∨
      ∃ row ∈ table, row.pattern.Matches i.encode ∧ row.instruction i.encode = i) ∧
    (∀ word, decode word = .unknown word ↔ ∀ row ∈ table, ¬ row.pattern.Matches word) ∧
    ∀ word other, decode word = .unknown other → other = word := by
  refine ⟨?_, ?_, table_disjoint, ?_, fun _ => exists_row_of_wellFormed,
    fun _ => decode_eq_unknown_iff, fun _ _ => eq_of_decode_eq_unknown⟩
  · intro c program autoplay hpos hroom hformed
    have haccept : Acceptable (assemble program) := Listing.acceptable_assemble hpos hroom
    exact ⟨_, _, c.load_of_acceptable haccept autoplay, Listing.disassemble_assemble hformed⟩
  · intro c d bytes autoplay signals hload heven
    by_cases haccept : Acceptable bytes
    · rw [c.load_of_acceptable haccept] at hload
      cases hload
      exact Listing.assemble_disassemble heven
    · obtain ⟨rejection, hrefused⟩ := c.load_of_not_acceptable haccept autoplay
      rw [hrefused] at hload
      cases hload
  · intro row hrow word hmatches
    exact ⟨decode_of_matches hrow hmatches, encode_decode_of_matches hrow hmatches⟩

theorem assembly_round_trip_of_reload :
    let c := (fresh (.chosen []) (.ofSeed 7)).after [.load [0x12, 0x00] true, .tick]
    let program : List Instruction :=
      [.load 0xA 0x42, .draw 1 2 5, .shiftLeft 3, .unknown 0x8128, .jump 0xABC]
    (∃ d signals, c.load (assemble program) false = .ok (d, signals) ∧
      d.listing.disassemble = program) ∧
    (∃ d signals, c.load [0x81, 0x2E, 0x51, 0x21] true = .ok (d, signals) ∧
      assemble d.listing.disassemble = [0x81, 0x0E, 0x51, 0x21]) ∧
    decode 0x812E = .shiftLeft 1 ∧ decode 0x5121 = .unknown 0x5121 := by
  intro c program
  obtain ⟨hassembled, hbytes, -, hrow, -, hunknown, -⟩ := assembly_round_trip
  have haccept : Acceptable [0x81, 0x2E, 0x51, 0x21] := by decide
  have hload := c.load_of_acceptable haccept true
  refine ⟨hassembled c program false (by decide) (by decide) (by decide),
    ⟨_, _, hload, ?_⟩, ?_, ?_⟩
  · rw [hbytes c _ _ true _ hload (by decide)]
    decide
  · exact (hrow (.shift 0xE shiftLeft) (by simp [table]) 0x812E (by decide)).1
  · exact (hunknown 0x5121).mpr (by decide)

end Console
end ChipEight
