import ChipEight.Instruction.Encode

/-!
The opcode table. A row consists of a pattern of four hexadecimal digits and of the instruction it
stands for. No word matches two rows. Decoding a word picks the row that it matches, with the
operands of that word, and encoding fills the pattern of the row with the operands; what matches
no row is unknown.
-/
namespace ChipEight

namespace Opcode

open Instruction

/-- A fixed digit, a digit of an operand, or one without a meaning. -/
inductive Digit
  | fixed (value : Nat)
  | operand
  | unused
deriving DecidableEq, Repr

namespace Digit

def Accepts : Digit → Nat → Prop
  | fixed value, digit => digit = value
  | operand, _ | unused, _ => True

instance (d : Digit) (digit : Nat) : Decidable (d.Accepts digit) :=
  match d with
  | fixed value => inferInstanceAs (Decidable (digit = value))
  | operand => isTrue trivial
  | unused => isTrue trivial

/-- The digit to write, given the one of the operand at its place. -/
def fill : Digit → Nat → Nat
  | fixed value, _ => value
  | operand, digit => digit
  | unused, _ => 0

def clashes : Digit → Digit → Bool
  | fixed a, fixed b => a != b
  | _, _ => false

theorem not_accepts_of_clashes {d e : Digit} (h : d.clashes e = true) (digit : Nat) :
    ¬ (d.Accepts digit ∧ e.Accepts digit) := by
  rintro ⟨hd, he⟩
  cases d with
  | fixed a =>
    cases e with
    | fixed b => exact bne_iff_ne.mp h (hd.symm.trans he)
    | operand => cases h
    | unused => cases h
  | operand => cases h
  | unused => cases h

theorem fill_of_accepts {d : Digit} {digit : Nat} (h : d.Accepts digit) (hused : d ≠ unused) :
    d.fill digit = digit := by
  cases d with
  | fixed value => exact h.symm
  | operand => rfl
  | unused => exact absurd rfl hused

end Digit

structure Pattern where
  first : Digit
  second : Digit
  third : Digit
  fourth : Digit
deriving DecidableEq, Repr

namespace Pattern

def Matches (p : Pattern) (word : UInt16) : Prop :=
  p.first.Accepts (family word) ∧ p.second.Accepts (operandX word).val ∧
    p.third.Accepts (operandY word).val ∧ p.fourth.Accepts (operandN word).val

instance (p : Pattern) (word : UInt16) : Decidable (p.Matches word) :=
  inferInstanceAs (Decidable (_ ∧ _))

def fill (p : Pattern) (word : UInt16) : UInt16 :=
  wordXYN (p.first.fill (family word)) (p.second.fill (operandX word).val)
    (p.third.fill (operandY word).val) (p.fourth.fill (operandN word).val)

def clashes (p q : Pattern) : Bool :=
  p.first.clashes q.first || p.second.clashes q.second || p.third.clashes q.third ||
    p.fourth.clashes q.fourth

/-- Patterns that differ in a fixed digit have no word in common. -/
theorem not_matches_of_clashes {p q : Pattern} (h : p.clashes q = true) (word : UInt16) :
    ¬ (p.Matches word ∧ q.Matches word) := by
  rintro ⟨⟨hp1, hp2, hp3, hp4⟩, hq1, hq2, hq3, hq4⟩
  simp only [clashes, Bool.or_eq_true] at h
  rcases h with ((h | h) | h) | h
  · exact Digit.not_accepts_of_clashes h _ ⟨hp1, hq1⟩
  · exact Digit.not_accepts_of_clashes h _ ⟨hp2, hq2⟩
  · exact Digit.not_accepts_of_clashes h _ ⟨hp3, hq3⟩
  · exact Digit.not_accepts_of_clashes h _ ⟨hp4, hq4⟩

def UsesAll (p : Pattern) : Prop :=
  p.first ≠ .unused ∧ p.second ≠ .unused ∧ p.third ≠ .unused ∧ p.fourth ≠ .unused

theorem fill_of_matches {p : Pattern} {word : UInt16} (h : p.Matches word) (hused : p.UsesAll) :
    p.fill word = word := by
  obtain ⟨h1, h2, h3, h4⟩ := h
  obtain ⟨u1, u2, u3, u4⟩ := hused
  rw [fill, Digit.fill_of_accepts h1 u1, Digit.fill_of_accepts h2 u2,
    Digit.fill_of_accepts h3 u3, Digit.fill_of_accepts h4 u4, wordXYN_digits]

end Pattern

structure Row where
  pattern : Pattern
  instruction : UInt16 → Instruction

namespace Row

def plain (third fourth : Nat) (instruction : Instruction) : Row :=
  ⟨⟨.fixed 0, .fixed 0, .fixed third, .fixed fourth⟩, fun _ => instruction⟩

def nnn (head : Nat) (make : Fin 4096 → Instruction) : Row :=
  ⟨⟨.fixed head, .operand, .operand, .operand⟩, fun word => make (operandNNN word)⟩

def xnn (head : Nat) (make : Fin 16 → UInt8 → Instruction) : Row :=
  ⟨⟨.fixed head, .operand, .operand, .operand⟩,
    fun word => make (operandX word) (operandNN word)⟩

def xyn (head : Nat) (make : Fin 16 → Fin 16 → Fin 16 → Instruction) : Row :=
  ⟨⟨.fixed head, .operand, .operand, .operand⟩,
    fun word => make (operandX word) (operandY word) (operandN word)⟩

def xy (head fourth : Nat) (make : Fin 16 → Fin 16 → Instruction) : Row :=
  ⟨⟨.fixed head, .operand, .operand, .fixed fourth⟩,
    fun word => make (operandX word) (operandY word)⟩

/-- A shift has a digit for a second register, which it does not read. -/
def shift (fourth : Nat) (make : Fin 16 → Instruction) : Row :=
  ⟨⟨.fixed 0x8, .operand, .unused, .fixed fourth⟩, fun word => make (operandX word)⟩

def x (head third fourth : Nat) (make : Fin 16 → Instruction) : Row :=
  ⟨⟨.fixed head, .operand, .fixed third, .fixed fourth⟩, fun word => make (operandX word)⟩

end Row

def table : List Row := [
  .plain 0xE 0x0 clear,
  .plain 0xE 0xE ret,
  .nnn 0x1 jump,
  .nnn 0x2 call,
  .xnn 0x3 skipEqual,
  .xnn 0x4 skipNotEqual,
  .xy 0x5 0x0 skipRegistersEqual,
  .xnn 0x6 load,
  .xnn 0x7 add,
  .xy 0x8 0x0 move,
  .xy 0x8 0x1 or,
  .xy 0x8 0x2 and,
  .xy 0x8 0x3 xor,
  .xy 0x8 0x4 addRegisters,
  .xy 0x8 0x5 sub,
  .shift 0x6 shiftRight,
  .xy 0x8 0x7 subFrom,
  .shift 0xE shiftLeft,
  .xy 0x9 0x0 skipRegistersNotEqual,
  .nnn 0xA loadIndex,
  .nnn 0xB jumpOffset,
  .xnn 0xC random,
  .xyn 0xD draw,
  .x 0xE 0x9 0xE skipPressed,
  .x 0xE 0xA 0x1 skipNotPressed,
  .x 0xF 0x0 0x7 loadDelay,
  .x 0xF 0x0 0xA awaitKey,
  .x 0xF 0x1 0x5 setDelay,
  .x 0xF 0x1 0x8 setSound,
  .x 0xF 0x1 0xE addIndex,
  .x 0xF 0x2 0x9 loadGlyph,
  .x 0xF 0x3 0x3 storeDecimal,
  .x 0xF 0x5 0x5 storeRegisters,
  .x 0xF 0x6 0x5 loadRegisters]

theorem table_clashes : table.Pairwise fun r s => r.pattern.clashes s.pattern = true := by
  decide

/-- A word matches one row at most. -/
theorem table_disjoint : table.Pairwise fun r s =>
    ∀ word, ¬ (r.pattern.Matches word ∧ s.pattern.Matches word) :=
  table_clashes.imp Pattern.not_matches_of_clashes

namespace Row

variable (word : UInt16)

theorem encode_plain {third fourth : Nat} {instruction : Instruction}
    (h : encode instruction = wordXYN 0 0 third fourth) :
    encode ((plain third fourth instruction).instruction word) =
      (plain third fourth instruction).pattern.fill word :=
  h

theorem encode_nnn {head : Nat} {make : Fin 4096 → Instruction}
    (h : ∀ target, encode (make target) = wordNNN head target) :
    encode ((nnn head make).instruction word) = (nnn head make).pattern.fill word :=
  (h _).trans (wordNNN_operandNNN head word)

theorem encode_xnn {head : Nat} {make : Fin 16 → UInt8 → Instruction}
    (h : ∀ x nn, encode (make x nn) = wordXNN head x nn) :
    encode ((xnn head make).instruction word) = (xnn head make).pattern.fill word :=
  (h _ _).trans (wordXNN_operandNN head _ word)

theorem encode_xyn {head : Nat} {make : Fin 16 → Fin 16 → Fin 16 → Instruction}
    (h : ∀ x y n, encode (make x y n) = wordXYN head x y n) :
    encode ((xyn head make).instruction word) = (xyn head make).pattern.fill word :=
  h _ _ _

theorem encode_xy {head fourth : Nat} {make : Fin 16 → Fin 16 → Instruction}
    (h : ∀ x y, encode (make x y) = wordXYN head x y fourth) :
    encode ((xy head fourth make).instruction word) = (xy head fourth make).pattern.fill word :=
  h _ _

theorem encode_shift {fourth : Nat} {make : Fin 16 → Instruction}
    (h : ∀ x, encode (make x) = wordXYN 0x8 x 0 fourth) :
    encode ((shift fourth make).instruction word) = (shift fourth make).pattern.fill word :=
  h _

theorem encode_x {head third fourth : Nat} {make : Fin 16 → Instruction} {nn : UInt8}
    (h : ∀ x, encode (make x) = wordXNN head x nn) (hnn : nn.toNat = third * 16 + fourth) :
    encode ((x head third fourth make).instruction word) =
      (x head third fourth make).pattern.fill word := by
  refine (h _).trans ?_
  rw [wordXNN, hnn, ← Nat.add_assoc]
  rfl

end Row

/-- Encoding fills the pattern of a row with the operands. -/
theorem encode_instruction {row : Row} (hrow : row ∈ table) (word : UInt16) :
    encode (row.instruction word) = row.pattern.fill word := by
  revert row
  simp only [table, List.forall_mem_cons]
  refine ⟨?clear, ?ret, ?jump, ?call, ?skipEqual, ?skipNotEqual, ?skipRegistersEqual, ?load,
    ?add, ?move, ?or, ?and, ?xor, ?addRegisters, ?sub, ?shiftRight, ?subFrom, ?shiftLeft,
    ?skipRegistersNotEqual, ?loadIndex, ?jumpOffset, ?random, ?draw, ?skipPressed,
    ?skipNotPressed, ?loadDelay, ?awaitKey, ?setDelay, ?setSound, ?addIndex, ?loadGlyph,
    ?storeDecimal, ?storeRegisters, ?loadRegisters, nofun⟩
  case clear | ret => exact Row.encode_plain word (by decide)
  case jump | call | loadIndex | jumpOffset => exact Row.encode_nnn word fun _ => rfl
  case skipEqual | skipNotEqual | load | add | random => exact Row.encode_xnn word fun _ _ => rfl
  case draw => exact Row.encode_xyn word fun _ _ _ => rfl
  case skipRegistersEqual | skipRegistersNotEqual | move | or | and | xor | addRegisters | sub |
      subFrom =>
    exact Row.encode_xy word fun _ _ => rfl
  case shiftRight | shiftLeft => exact Row.encode_shift word fun _ => rfl
  case skipPressed | skipNotPressed | loadDelay | awaitKey | setDelay | setSound | addIndex |
      loadGlyph | storeDecimal | storeRegisters | loadRegisters =>
    exact Row.encode_x word (fun _ => rfl) rfl

section Rows

variable {word : UInt16}

/-- The last two digits of a word, read off their value. -/
theorem accepts_low {value third fourth : Nat} (h : word.toNat % 256 = value)
    (hvalue : third * 16 + fourth = value) (hfourth : fourth < 16) :
    (Digit.fixed third).Accepts (operandY word).val ∧
      (Digit.fixed fourth).Accepts (operandN word).val := by
  simp only [Digit.Accepts, operandY, operandN, Fin.ofNat]
  omega

theorem exists_row_arithmetic (hfamily : family word = 0x8) :
    ofArithmetic word = .unknown word ∨ ∃ row ∈ table, row.pattern.Matches word := by
  unfold ofArithmetic
  dsimp only
  split
  case h_1 h => exact .inr ⟨.xy 0x8 0x0 move, by simp [table], hfamily, trivial, trivial, h⟩
  case h_2 h => exact .inr ⟨.xy 0x8 0x1 or, by simp [table], hfamily, trivial, trivial, h⟩
  case h_3 h => exact .inr ⟨.xy 0x8 0x2 and, by simp [table], hfamily, trivial, trivial, h⟩
  case h_4 h => exact .inr ⟨.xy 0x8 0x3 xor, by simp [table], hfamily, trivial, trivial, h⟩
  case h_5 h =>
    exact .inr ⟨.xy 0x8 0x4 addRegisters, by simp [table], hfamily, trivial, trivial, h⟩
  case h_6 h => exact .inr ⟨.xy 0x8 0x5 sub, by simp [table], hfamily, trivial, trivial, h⟩
  case h_7 h => exact .inr ⟨.shift 0x6 shiftRight, by simp [table], hfamily, trivial, trivial, h⟩
  case h_8 h => exact .inr ⟨.xy 0x8 0x7 subFrom, by simp [table], hfamily, trivial, trivial, h⟩
  case h_9 h => exact .inr ⟨.shift 0xE shiftLeft, by simp [table], hfamily, trivial, trivial, h⟩
  case h_10 => exact .inl rfl

theorem exists_row_miscellany (hfamily : family word = 0xF) :
    ofMiscellany word = .unknown word ∨ ∃ row ∈ table, row.pattern.Matches word := by
  unfold ofMiscellany
  dsimp only
  split
  case h_1 h =>
    exact .inr ⟨.x 0xF 0x0 0x7 loadDelay, by simp [table], hfamily, trivial,
      accepts_low h rfl (by decide)⟩
  case h_2 h =>
    exact .inr ⟨.x 0xF 0x0 0xA awaitKey, by simp [table], hfamily, trivial,
      accepts_low h rfl (by decide)⟩
  case h_3 h =>
    exact .inr ⟨.x 0xF 0x1 0x5 setDelay, by simp [table], hfamily, trivial,
      accepts_low h rfl (by decide)⟩
  case h_4 h =>
    exact .inr ⟨.x 0xF 0x1 0x8 setSound, by simp [table], hfamily, trivial,
      accepts_low h rfl (by decide)⟩
  case h_5 h =>
    exact .inr ⟨.x 0xF 0x1 0xE addIndex, by simp [table], hfamily, trivial,
      accepts_low h rfl (by decide)⟩
  case h_6 h =>
    exact .inr ⟨.x 0xF 0x2 0x9 loadGlyph, by simp [table], hfamily, trivial,
      accepts_low h rfl (by decide)⟩
  case h_7 h =>
    exact .inr ⟨.x 0xF 0x3 0x3 storeDecimal, by simp [table], hfamily, trivial,
      accepts_low h rfl (by decide)⟩
  case h_8 h =>
    exact .inr ⟨.x 0xF 0x5 0x5 storeRegisters, by simp [table], hfamily, trivial,
      accepts_low h rfl (by decide)⟩
  case h_9 h =>
    exact .inr ⟨.x 0xF 0x6 0x5 loadRegisters, by simp [table], hfamily, trivial,
      accepts_low h rfl (by decide)⟩
  case h_10 => exact .inl rfl

theorem mod_of_operandNN_eq {nn : UInt8} (h : operandNN word = nn) :
    word.toNat % 256 = nn.toNat := by
  rw [← h, operandNN, UInt8.toNat_ofNat']

/-- What decoding knows, the table has a row for. -/
theorem exists_row (word : UInt16) :
    decode word = .unknown word ∨ ∃ row ∈ table, row.pattern.Matches word := by
  unfold decode
  dsimp only
  split
  case h_1 h =>
    split
    case isTrue hclear =>
      exact .inr ⟨.plain 0xE 0x0 clear, by simp [table], by rw [hclear]; decide⟩
    split
    case isTrue hret =>
      exact .inr ⟨.plain 0xE 0xE ret, by simp [table], by rw [hret]; decide⟩
    exact .inl rfl
  case h_2 h => exact .inr ⟨.nnn 0x1 jump, by simp [table], h, trivial, trivial, trivial⟩
  case h_3 h => exact .inr ⟨.nnn 0x2 call, by simp [table], h, trivial, trivial, trivial⟩
  case h_4 h => exact .inr ⟨.xnn 0x3 skipEqual, by simp [table], h, trivial, trivial, trivial⟩
  case h_5 h => exact .inr ⟨.xnn 0x4 skipNotEqual, by simp [table], h, trivial, trivial, trivial⟩
  case h_6 h =>
    split
    case isTrue hn =>
      exact .inr ⟨.xy 0x5 0x0 skipRegistersEqual, by simp [table], h, trivial, trivial,
        congrArg Fin.val hn⟩
    exact .inl rfl
  case h_7 h => exact .inr ⟨.xnn 0x6 load, by simp [table], h, trivial, trivial, trivial⟩
  case h_8 h => exact .inr ⟨.xnn 0x7 add, by simp [table], h, trivial, trivial, trivial⟩
  case h_9 h => exact exists_row_arithmetic h
  case h_10 h =>
    split
    case isTrue hn =>
      exact .inr ⟨.xy 0x9 0x0 skipRegistersNotEqual, by simp [table], h, trivial, trivial,
        congrArg Fin.val hn⟩
    exact .inl rfl
  case h_11 h => exact .inr ⟨.nnn 0xA loadIndex, by simp [table], h, trivial, trivial, trivial⟩
  case h_12 h => exact .inr ⟨.nnn 0xB jumpOffset, by simp [table], h, trivial, trivial, trivial⟩
  case h_13 h => exact .inr ⟨.xnn 0xC random, by simp [table], h, trivial, trivial, trivial⟩
  case h_14 h => exact .inr ⟨.xyn 0xD draw, by simp [table], h, trivial, trivial, trivial⟩
  case h_15 h =>
    split
    case isTrue hnn =>
      exact .inr ⟨.x 0xE 0x9 0xE skipPressed, by simp [table], h, trivial,
        accepts_low (mod_of_operandNN_eq hnn) rfl (by decide)⟩
    split
    case isTrue hnn =>
      exact .inr ⟨.x 0xE 0xA 0x1 skipNotPressed, by simp [table], h, trivial,
        accepts_low (mod_of_operandNN_eq hnn) rfl (by decide)⟩
    exact .inl rfl
  case h_16 =>
    have hword := word.toNat_lt
    refine exists_row_miscellany ?_
    simp only [family, imp_false] at *
    omega

end Rows

/-- Decoding undoes encoding. -/
theorem decode_encode {i : Instruction} (h : ∀ word, i ≠ .unknown word) :
    decode i.encode = i := by
  cases i with
  | unknown word => exact absurd rfl (h word)
  | clear | ret => decide
  | jump | call | loadIndex | jumpOffset =>
    simp only [encode, decode, family_wordNNN, operandNNN_wordNNN, Nat.reduceLT]
  | skipEqual | skipNotEqual | load | add | random =>
    simp only [encode, decode, family_wordXNN, operandX_wordXNN, operandNN_wordXNN, Nat.reduceLT]
  | skipRegistersEqual x y | skipRegistersNotEqual x y =>
    simp only [encode, decode, family_wordXYN, operandX_wordXYN, operandY_wordXYN,
      operandN_wordXYN_ofNat, Nat.reduceLT, Fin.is_lt]
    rfl
  | move | or | and | xor | addRegisters | sub | subFrom =>
    simp only [encode, decode, ofArithmetic, family_wordXYN, operandX_wordXYN, operandY_wordXYN,
      mod_wordXYN, Nat.reduceLT, Nat.reduceMod, Fin.is_lt]
  | shiftRight | shiftLeft =>
    simp only [encode, decode, ofArithmetic, family_wordXYN, operandX_wordXYN,
      mod_wordXYN, Nat.reduceLT, Nat.reduceMod]
  | draw x y n =>
    simp only [encode, decode, family_wordXYN, operandX_wordXYN, operandY_wordXYN,
      operandN_wordXYN, Nat.reduceLT, Fin.is_lt]
  | skipPressed | skipNotPressed =>
    simp only [encode, decode, family_wordXNN, operandX_wordXNN, operandNN_wordXNN, Nat.reduceLT]
    rfl
  | _ =>
    simp only [encode, decode, ofMiscellany, family_wordXNN, operandX_wordXNN, mod_wordXNN,
      Nat.reduceLT, UInt8.reduceToNat]

/-- The rows that do not write every digit back are those of the two shifts. -/
theorem shift_or_usesAll {row : Row} (hrow : row ∈ table) :
    row = .shift 0x6 shiftRight ∨ row = .shift 0xE shiftLeft ∨ row.pattern.UsesAll := by
  revert row
  simp [table, Pattern.UsesAll, Row.plain, Row.nnn, Row.xnn, Row.xyn, Row.xy, Row.x]

theorem instruction_ne_unknown {row : Row} (hrow : row ∈ table) (word other : UInt16) :
    row.instruction word ≠ .unknown other := by
  revert row
  simp [table, Row.plain, Row.nnn, Row.xnn, Row.xyn, Row.xy, Row.x, Row.shift]

section Matching

variable {row : Row} {word : UInt16}

/-- Decoding picks the row that the word matches. -/
theorem decode_of_matches (hrow : row ∈ table) (h : row.pattern.Matches word) :
    decode word = row.instruction word := by
  rcases shift_or_usesAll hrow with rfl | rfl | hused
  -- The fill of a shift is not the word itself, so encoding says nothing about its decoding.
  · obtain ⟨hfirst, -, -, hfourth⟩ := h
    have hfamily : family word = 0x8 := hfirst
    have hlast : word.toNat % 16 = 0x6 := hfourth
    simp only [decode, hfamily, ofArithmetic, hlast, Row.shift]
  · obtain ⟨hfirst, -, -, hfourth⟩ := h
    have hfamily : family word = 0x8 := hfirst
    have hlast : word.toNat % 16 = 0xE := hfourth
    simp only [decode, hfamily, ofArithmetic, hlast, Row.shift]
  · calc
      decode word = decode (encode (row.instruction word)) := by
        rw [encode_instruction hrow, Pattern.fill_of_matches h hused]
      _ = row.instruction word := decode_encode (instruction_ne_unknown hrow word)

theorem encode_decode_of_matches (hrow : row ∈ table) (h : row.pattern.Matches word) :
    encode (decode word) = row.pattern.fill word := by
  rw [decode_of_matches hrow h, encode_instruction hrow]

theorem decode_eq_unknown_iff :
    decode word = .unknown word ↔ ∀ row ∈ table, ¬ row.pattern.Matches word := by
  constructor
  · intro hunknown row hrow h
    exact instruction_ne_unknown hrow word word ((decode_of_matches hrow h).symm.trans hunknown)
  · intro hnone
    rcases exists_row word with hunknown | ⟨row, hrow, h⟩
    · exact hunknown
    · exact absurd h (hnone row hrow)

theorem eq_of_decode_eq_unknown {other : UInt16} (hunknown : decode word = .unknown other) :
    other = word := by
  rcases exists_row word with h | ⟨row, hrow, h⟩
  · exact (Instruction.unknown.inj (h.symm.trans hunknown)).symm
  · exact absurd ((decode_of_matches hrow h).symm.trans hunknown)
      (instruction_ne_unknown hrow word other)

end Matching

end Opcode

namespace Instruction

open Opcode

/-- An unknown instruction stands for a word without a row. The other operands fit by
their types. -/
def WellFormed : Instruction → Prop
  | .unknown word => ∀ row ∈ table, ¬ row.pattern.Matches word
  | _ => True

theorem wellFormed_iff {i : Instruction} : i.WellFormed ↔ decode i.encode = i := by
  by_cases hunknown : ∃ word, i = .unknown word
  · obtain ⟨word, rfl⟩ := hunknown
    exact decode_eq_unknown_iff.symm
  · have hknown : ∀ word, i ≠ .unknown word := fun word h => hunknown ⟨word, h⟩
    have hformed : i.WellFormed := by
      cases i with
      | unknown word => exact absurd rfl (hknown word)
      | _ => exact trivial
    exact iff_of_true hformed (decode_encode hknown)

/-- A word is read as the instruction it was written for. -/
theorem decode_of_eq_encode {word : UInt16} {i : Instruction} (hformed : i.WellFormed)
    (h : word = i.encode) : decode word = i := by
  rw [h]
  exact wellFormed_iff.mp hformed

theorem exists_row_of_wellFormed {i : Instruction} (h : i.WellFormed) :
    i = .unknown i.encode ∨
      ∃ row ∈ table, row.pattern.Matches i.encode ∧ row.instruction i.encode = i := by
  have hdecode : decode i.encode = i := wellFormed_iff.mp h
  rcases exists_row i.encode with hunknown | ⟨row, hrow, hmatches⟩
  · exact .inl (hdecode.symm.trans hunknown)
  · exact .inr ⟨row, hrow, hmatches, (decode_of_matches hrow hmatches).symm.trans hdecode⟩

instance (i : Instruction) : Decidable i.WellFormed :=
  decidable_of_iff _ wellFormed_iff.symm

end Instruction
end ChipEight
