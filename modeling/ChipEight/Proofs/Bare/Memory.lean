import ChipEight.Machine
import ChipEight.Proofs.Bare.Guarded

/-!
Memory and registers as plain arrays of bytes. Every access reduces its address modulo the size of
memory before it indexes, and a program is copied as one slice. On an array of 4096 bytes, and on
one of sixteen registers, nothing breaks down and the results are those of the machine.
-/
namespace ChipEight

namespace Bare.Memory

def read (bytes : Array UInt8) (address : UInt16) : Guarded UInt8 := do
  let place ← remainder address.toNat Layout.memorySize
  get bytes place

def write (bytes : Array UInt8) (address : UInt16) (byte : UInt8) : Guarded (Array UInt8) := do
  let place ← remainder address.toNat Layout.memorySize
  put bytes place byte

def readWord (bytes : Array UInt8) (address : UInt16) : Guarded UInt16 := do
  let high ← read bytes address
  let low ← read bytes (address + 1)
  return high.toUInt16 <<< 8 ||| low.toUInt16

def readSpan (bytes : Array UInt8) (address : UInt16) (length : Nat) : Guarded (List UInt8) :=
  (List.range length).mapM fun k => read bytes (address + UInt16.ofNat k)

def initial : Guarded (Array UInt8) :=
  copy (Array.replicate Layout.memorySize 0) 0 Layout.spriteSheet

/-- A refusal is no fault: it is checked before anything is copied. -/
def load (bytes : Array UInt8) (program : List UInt8) :
    Guarded (Except Rejection (Array UInt8)) :=
  if program = [] then return .error .emptyProgram
  else if Layout.maxProgramSize < program.length then
    return .error (.programTooLarge program.length)
  else do
    let bytes ← copy bytes Layout.programStart.toNat program
    return .ok bytes

end Bare.Memory

structure Bare.Registers where
  v : Array UInt8
  i : UInt16
  pc : UInt16
  stack : List UInt16

namespace Bare.Registers

def set (r : Registers) (x : Nat) (value : UInt8) : Guarded Registers := do
  let v ← put r.v x value
  return { r with v }

def setFlag (r : Registers) (flag : Bool) : Guarded Registers := r.set 0xF flag.toUInt8

/-- The flag is written first. -/
def setFlagged (r : Registers) (x : Nat) (outcome : UInt8 × Bool) : Guarded Registers := do
  let r ← r.setFlag outcome.2
  r.set x outcome.1

def skipIf (r : Registers) (condition : Bool) : Registers :=
  if condition then { r with pc := r.pc + 2 } else r

def ret (r : Registers) : Registers :=
  match r.stack with
  | [] => r
  | address :: rest => { r with pc := address, stack := rest }

def store (r : Registers) (bytes : Array UInt8) (x : Nat) : Guarded (Array UInt8) :=
  (List.range (x + 1)).foldlM (fun bytes k => do
    let value ← get r.v k
    Memory.write bytes (r.i + UInt16.ofNat k) value) bytes

def fill (r : Registers) (bytes : Array UInt8) (x : Nat) : Guarded Registers := do
  let v ← (List.range (x + 1)).foldlM (fun v k => do
    let byte ← Memory.read bytes (r.i + UInt16.ofNat k)
    put v k byte) r.v
  return { r with v }

end Bare.Registers

namespace Memory

open Bare

theorem read_bare (m : Memory) (address : UInt16) :
    Bare.Memory.read m.bytes.toArray address = .ok (m.read address) := by
  rw [Bare.Memory.read, remainder_eq_ok (by decide), ok_bind]
  exact get_toArray m.bytes (cell address).isLt

theorem write_bare (m : Memory) (address : UInt16) (byte : UInt8) :
    Bare.Memory.write m.bytes.toArray address byte =
      .ok (m.write address byte).bytes.toArray := by
  rw [Bare.Memory.write, remainder_eq_ok (by decide), ok_bind]
  exact put_toArray m.bytes (cell address).isLt byte

/-- Shifting and joining two bytes makes the word of them. -/
theorem shiftLeft_or_eq_ofBytes (high low : UInt8) :
    high.toUInt16 <<< 8 ||| low.toUInt16 = Word.ofBytes high low := by
  have hhigh := high.toNat_lt
  have hlow := low.toNat_lt
  apply UInt16.toNat_inj.mp
  have hshift : high.toNat <<< 8 % 65536 = 2 ^ 8 * high.toNat := by
    rw [Nat.shiftLeft_eq]
    omega
  simp only [UInt16.toNat_or, UInt16.toNat_shiftLeft, UInt8.toNat_toUInt16, Word.toNat_ofBytes]
  calc
    high.toNat <<< 8 % 65536 ||| low.toNat = 2 ^ 8 * high.toNat ||| low.toNat := by rw [hshift]
    _ = 2 ^ 8 * high.toNat + low.toNat := (Nat.two_pow_add_eq_or_of_lt hlow _).symm
    _ = high.toNat * 256 + low.toNat := by omega

theorem readWord_bare (m : Memory) (address : UInt16) :
    Bare.Memory.readWord m.bytes.toArray address = .ok (m.readWord address) := by
  simp only [Bare.Memory.readWord, read_bare, ok_bind, pure_eq_ok, shiftLeft_or_eq_ofBytes]
  rfl

theorem readSpan_bare (m : Memory) (address : UInt16) (length : Nat) :
    Bare.Memory.readSpan m.bytes.toArray address length = .ok (m.readSpan address length) := by
  rw [Bare.Memory.readSpan, mapM_eq_ok fun k _ => m.read_bare (address + UInt16.ofNat k)]
  simp only [readSpan, span, List.map_map, Function.comp_def]

theorem read_ofNat (m : Memory) {k : Nat} (h : k < Layout.memorySize) :
    m.read (UInt16.ofNat k) = m.bytes[k] := by
  have hk : k < 4096 := h
  have hcell : (cell (UInt16.ofNat k)).val = k := by
    rw [cell_val, UInt16.toNat_ofNat']
    omega
  simp only [read, Fin.getElem_fin, hcell]

/-- Copying a slice that ends inside memory stores its bytes. -/
theorem copy_bare (m : Memory) {start : Nat} {source : List UInt8}
    (hfit : start + source.length ≤ Layout.memorySize) (hne : 1 ≤ source.length) :
    copy m.bytes.toArray start source =
      .ok (m.store (UInt16.ofNat start) source).bytes.toArray := by
  have hsize : m.bytes.toArray.size = Layout.memorySize := m.bytes.size_toArray
  have hmem : start + source.length ≤ 4096 := hfit
  have hslice : start + source.length ≤ m.bytes.toArray.size := by rwa [hsize]
  have hword : start + source.length < 2 ^ wordBits := by
    simp only [wordBits]
    omega
  rw [copy_eq_ok hslice hword]
  congr 1
  apply Array.ext
  · rw [size_splice hslice, Vector.size_toArray, Vector.size_toArray]
  · intro k hsplice hk
    have hk : k < 4096 := by rwa [Vector.size_toArray] at hk
    have hstored := read_store m (UInt16.ofNat start) (UInt16.ofNat k) source
      (show source.length ≤ 4096 by omega)
    rw [read_ofNat _ hk, read_ofNat _ hk] at hstored
    rw [getElem_splice hslice (by rwa [hsize]) hsplice]
    refine Eq.trans ?_ hstored.symm
    -- a cell before the start lies almost a whole memory behind it
    have hcell : (cell (UInt16.ofNat k - UInt16.ofNat start)).val =
        if start ≤ k then k - start else 4096 + k - start := by
      rw [cell_val, UInt16.toNat_sub, UInt16.toNat_ofNat', UInt16.toNat_ofNat']
      split <;> omega
    rw [hcell]
    split
    · rfl
    · rw [List.getElem?_eq_none (by omega)]
      rfl

theorem initial_bare : Bare.Memory.initial = .ok initial.bytes.toArray :=
  copy_bare blank (by decide) (by decide)

theorem load_bare (m : Memory) (program : List UInt8) :
    Bare.Memory.load m.bytes.toArray program =
      .ok ((m.load program).map fun m => m.bytes.toArray) := by
  rw [Bare.Memory.load, load]
  by_cases hempty : program = []
  · rw [if_pos hempty, if_pos hempty]
    rfl
  · rw [if_neg hempty, if_neg hempty]
    by_cases hlarge : Layout.maxProgramSize < program.length
    · rw [if_pos hlarge, if_pos hlarge]
      rfl
    · have hpos : 1 ≤ program.length := List.length_pos_iff.mpr hempty
      have hfit : Layout.programStart.toNat + program.length ≤ Layout.memorySize := by
        have hmax : program.length ≤ 3584 := Nat.not_lt.mp hlarge
        have hstart : Layout.programStart.toNat = 512 := rfl
        simp only [hstart, Layout.memorySize]
        omega
      rw [if_neg hlarge, if_neg hlarge, m.copy_bare hfit hpos]
      rfl

theorem store_append_singleton (m : Memory) (a : UInt16) (bytes : List UInt8) (byte : UInt8) :
    m.store a (bytes ++ [byte]) =
      (m.store a bytes).write (a + UInt16.ofNat bytes.length) byte := by
  induction bytes generalizing m a with
  | nil => simp [store]
  | cons first rest ih =>
    have hlength : UInt16.ofNat (rest.length + 1) = 1 + UInt16.ofNat rest.length := by
      rw [Nat.add_comm, UInt16.ofNat_add]
      rfl
    rw [List.cons_append, store, ih, store, List.length_cons, hlength, UInt16.add_assoc]

/-- The beginning of a list is stored byte by byte. -/
theorem store_take (m : Memory) (a : UInt16) (bytes : List UInt8) {n : Nat}
    (hn : n ≤ bytes.length) :
    m.store a (bytes.take n) =
      (List.range n).foldl (fun m k => m.write (a + UInt16.ofNat k) (bytes[k]?.getD 0)) m := by
  induction n with
  | zero => rfl
  | succ n ih =>
    have hlt : n < bytes.length := hn
    rw [List.range_succ, List.foldl_append, ← ih (Nat.le_of_lt hlt),
      List.take_succ_eq_append_getElem hlt, store_append_singleton,
      List.length_take_of_le (Nat.le_of_lt hlt), List.foldl_cons, List.foldl_nil,
      List.getElem?_eq_getElem hlt]
    rfl

end Memory

namespace Registers

open Bare

def bare (r : Registers) : Bare.Registers := ⟨r.v.toArray, r.i, r.pc, r.stack⟩

@[simp] theorem i_bare (r : Registers) : r.bare.i = r.i := rfl

@[simp] theorem pc_bare (r : Registers) : r.bare.pc = r.pc := rfl

theorem get_bare (r : Registers) (x : Fin 16) :
    Bare.get r.bare.v x.val = .ok (r.get x) :=
  get_toArray r.v x.isLt

theorem set_bare (r : Registers) (x : Fin 16) (value : UInt8) :
    r.bare.set x.val value = .ok (r.set x value).bare := by
  simp only [Bare.Registers.set, bare, put_toArray r.v x.isLt, ok_bind, pure_eq_ok]
  rfl

theorem setFlag_bare (r : Registers) (flag : Bool) :
    r.bare.setFlag flag = .ok (r.setFlag flag).bare :=
  r.set_bare Layout.flagRegister flag.toUInt8

theorem setFlagged_bare (r : Registers) (x : Fin 16) (outcome : UInt8 × Bool) :
    r.bare.setFlagged x.val outcome = .ok (r.setFlagged x outcome).bare := by
  rw [Bare.Registers.setFlagged, setFlag_bare, ok_bind, set_bare]
  rfl

theorem ret_bare (r : Registers) : r.bare.ret = r.ret.bare := by
  obtain ⟨v, i, pc, stack⟩ := r
  cases stack <;> rfl

theorem store_bare (r : Registers) (m : Memory) (x : Fin 16) :
    r.bare.store m.bytes.toArray x.val =
      .ok (m.store r.i (r.v.toList.take (x.val + 1))).bytes.toArray := by
  have hx : x.val + 1 ≤ r.v.toList.length := by
    rw [Vector.length_toList]
    exact x.isLt
  rw [m.store_take r.i r.v.toList hx]
  refine foldlM_eq_ok (fun m : Memory => m.bytes.toArray) (fun s k hk => ?_) m
  have hk16 : k < 16 := Nat.lt_of_lt_of_le (List.mem_range.mp hk) x.isLt
  have hvalue : r.v.toList[k]?.getD 0 = r.v[k] := by
    rw [Vector.getElem?_toList, Vector.getElem?_eq_getElem hk16]
    rfl
  rw [hvalue]
  simp only [bare, get_toArray r.v hk16, ok_bind, Memory.write_bare]

/-- Replacing the first `n` entries one after the other. -/
theorem getElem_foldl_setIfInBounds (v : Vector UInt8 16) (f : Nat → UInt8) (n : Nat) {j : Nat}
    (hj : j < 16) :
    ((List.range n).foldl (fun v k => v.setIfInBounds k (f k)) v)[j] =
      if j < n then f j else v[j] := by
  induction n with
  | zero => rfl
  | succ n ih =>
    rw [List.range_succ, List.foldl_append, List.foldl_cons, List.foldl_nil,
      Vector.getElem_setIfInBounds, ih]
    by_cases hn : n = j
    · rw [if_pos hn, hn, if_pos (Nat.lt_succ_self j)]
    · rw [if_neg hn]
      by_cases hlt : j < n
      · rw [if_pos hlt, if_pos (Nat.lt_succ_of_lt hlt)]
      · rw [if_neg hlt, if_neg (by omega)]

theorem fill_bare (r : Registers) (m : Memory) (x : Fin 16) :
    r.bare.fill m.bytes.toArray x.val = .ok { r with
      v := Vector.ofFn fun k =>
        if k ≤ x then m.read (r.i + UInt16.ofNat k.val) else r.get k : Registers }.bare := by
  have hloop : (List.range (x.val + 1)).foldlM (fun v k => do
      let byte ← Bare.Memory.read m.bytes.toArray (r.bare.i + UInt16.ofNat k)
      put v k byte) r.bare.v =
      .ok ((List.range (x.val + 1)).foldl
        (fun v k => v.setIfInBounds k (m.read (r.i + UInt16.ofNat k))) r.v).toArray := by
    refine foldlM_eq_ok (fun v : Vector UInt8 16 => v.toArray) (fun v k hk => ?_) r.v
    have hk16 : k < 16 := Nat.lt_of_lt_of_le (List.mem_range.mp hk) x.isLt
    rw [Memory.read_bare, ok_bind, put_toArray v hk16]
    simp [bare, Array.setIfInBounds, hk16]
  have hv : (List.range (x.val + 1)).foldl
      (fun v k => v.setIfInBounds k (m.read (r.i + UInt16.ofNat k))) r.v =
      Vector.ofFn fun k => if k ≤ x then m.read (r.i + UInt16.ofNat k.val) else r.get k := by
    apply Vector.ext
    intro j hj
    rw [getElem_foldl_setIfInBounds r.v (fun k => m.read (r.i + UInt16.ofNat k)) _ hj,
      Vector.getElem_ofFn]
    simp only [Nat.lt_succ_iff, Fin.le_def, get, Fin.getElem_fin]
  rw [Bare.Registers.fill, hloop, hv]
  rfl

end Registers
end ChipEight
