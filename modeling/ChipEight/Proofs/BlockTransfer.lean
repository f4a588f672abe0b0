import ChipEight.Proofs.OpcodeTable
import ChipEight.Proofs.Stores

/-!
Block transfers between registers and memory. Addresses have sixteen bits and memory has twelve
bits of cells, so a block may run over the end of memory and over the end of the addresses. In
both cases its `k`th byte lies `k` cells further on modulo the size of memory. A store and a load
of the same registers at the same place undo each other.
-/
namespace ChipEight

namespace Memory

/-- Reading wraps twice, once where the addresses end and once where memory ends; together the two
are one wrap at the end of memory. -/
theorem getElem?_bytes (m : Memory) (start : UInt16) (k : Nat) :
    m.bytes[(start.toNat + k) % 4096]? = some (m.read (start + UInt16.ofNat k)) := by
  have hcell : (start.toNat + k) % 4096 = (cell (start + UInt16.ofNat k)).val := by
    rw [cell_val, UInt16.toNat_add, UInt16.toNat_ofNat']
    omega
  rw [hcell]
  exact Vector.getElem?_eq_getElem (cell (start + UInt16.ofNat k)).isLt

/-- A memory is known by what is read from it. -/
theorem ext_read {m n : Memory} (h : ∀ address, m.read address = n.read address) : m = n := by
  obtain ⟨bytes⟩ := m
  obtain ⟨bytes'⟩ := n
  refine congrArg Memory.mk (Vector.ext fun k hk => ?_)
  have hplace : (cell (UInt16.ofNat k)).val = k := by
    have hsize : k < 4096 := hk
    rw [cell_val, UInt16.toNat_ofNat']
    omega
  simpa only [read, Fin.getElem_fin, hplace] using h (UInt16.ofNat k)

variable (m : Memory) (start : UInt16) {bytes : List UInt8}

/-- The distance from the start of a block to its `k`th byte is `k`. -/
theorem cell_add_sub {k : Nat} (hk : k < Layout.memorySize) :
    (cell (start + UInt16.ofNat k - start)).val = k := by
  have hsize : k < 4096 := hk
  rw [UInt16.add_comm, UInt16.add_sub_cancel, cell_val, UInt16.toNat_ofNat']
  omega

theorem read_store_add (hfit : bytes.length ≤ Layout.memorySize) {k : Nat}
    (hk : k < bytes.length) :
    (m.store start bytes).read (start + UInt16.ofNat k) = bytes[k] := by
  rw [read_store _ _ _ _ hfit, cell_add_sub start (Nat.lt_of_lt_of_le hk hfit),
    List.getElem?_eq_getElem hk, Option.getD_some]

/-- The bytes of a store lie behind one another, around the end of memory. -/
theorem getElem?_store (hfit : bytes.length ≤ Layout.memorySize) {k : Nat}
    (hk : k < bytes.length) :
    (m.store start bytes).bytes[(start.toNat + k) % 4096]? = some bytes[k] := by
  rw [getElem?_bytes, read_store_add m start hfit hk]

/-- A store changes no cell but those of its bytes. -/
theorem getElem?_store_of_ne (hfit : bytes.length ≤ Layout.memorySize) {place : Nat}
    (h : ∀ k < bytes.length, place ≠ (start.toNat + k) % 4096) :
    (m.store start bytes).bytes[place]? = m.bytes[place]? := by
  by_cases hplace : place < 4096
  · -- the cell as the one at some distance from the start
    obtain ⟨k, hk, rfl⟩ : ∃ k < 4096, place = (start.toNat + k) % 4096 :=
      ⟨(place + 65536 - start.toNat) % 4096, by omega, by have := start.toNat_lt; omega⟩
    have hbeyond : bytes.length ≤ k := Nat.le_of_not_lt fun hlt => h k hlt rfl
    rw [getElem?_bytes, getElem?_bytes, read_store _ _ _ _ hfit, cell_add_sub start hk,
      List.getElem?_eq_none hbeyond, Option.getD_none]
  · have hsize : Layout.memorySize ≤ place := Nat.le_of_not_lt hplace
    rw [Vector.getElem?_eq_none hsize, Vector.getElem?_eq_none hsize]

/-- Storing what is there changes nothing. -/
theorem store_eq_self (hfit : bytes.length ≤ Layout.memorySize)
    (h : ∀ k, (hk : k < bytes.length) → bytes[k] = m.read (start + UInt16.ofNat k)) :
    m.store start bytes = m := by
  refine ext_read fun address => ?_
  rw [read_store _ _ _ _ hfit]
  by_cases hk : (cell (address - start)).val < bytes.length
  · have hsame : cell (start + UInt16.ofNat (cell (address - start)).val) = cell address := by
      have hs := start.toNat_lt
      have ha := address.toNat_lt
      apply Fin.ext
      simp only [cell_val, UInt16.toNat_add, UInt16.toNat_sub, UInt16.toNat_ofNat']
      omega
    rw [List.getElem?_eq_getElem hk, Option.getD_some, h _ hk, m.read_congr hsame]
  · rw [List.getElem?_eq_none (Nat.le_of_not_lt hk), Option.getD_none]

end Memory

namespace Arithmetic

/-- The decimal digits of a byte, the hundreds first. -/
theorem decimal_digits (a : UInt8) :
    (∀ digit ∈ decimal a, digit.toNat ≤ 9) ∧
      100 * (a / 100).toNat + 10 * (a / 10 % 10).toNat + (a % 10).toNat = a.toNat := by
  have ha := a.toNat_lt
  have hhundreds : (a / 100).toNat = a.toNat / 100 := UInt8.toNat_div ..
  have htens : (a / 10 % 10).toNat = a.toNat / 10 % 10 := UInt8.toNat_mod ..
  have hones : (a % 10).toNat = a.toNat % 10 := UInt8.toNat_mod ..
  constructor
  · simp only [decimal, List.forall_mem_cons]
    exact ⟨by omega, by omega, by omega, nofun⟩
  · omega

end Arithmetic

namespace Machine

open Instruction

variable (m : Machine) (x : Fin 16)

theorem length_storedRegisters : (m.storedBytes (.storeRegisters x)).length = x.val + 1 := by
  have hx := x.isLt
  simp only [storedBytes, List.length_take, Vector.length_toList]
  omega

theorem getElem_storedRegisters {k : Nat} (hk : k < (m.storedBytes (.storeRegisters x)).length)
    (hreg : k < 16) : (m.storedBytes (.storeRegisters x))[k] = m.reg ⟨k, hreg⟩ := by
  simp only [storedBytes, List.getElem_take, Vector.getElem_toList]
  rfl

/-- An instruction stores its bytes behind one another from the index register on. -/
theorem getElem?_memory_execute (i : Instruction) {k : Nat} (hk : k < (m.storedBytes i).length) :
    (m.execute i).memory.bytes[(m.registers.i.toNat + k) % 4096]? =
      some (m.storedBytes i)[k] := by
  rw [memory_execute, Memory.getElem?_store _ _ (m.length_storedBytes_le i) hk]

theorem getElem?_memory_execute_of_ne (i : Instruction) {place : Nat}
    (h : ∀ k < (m.storedBytes i).length, place ≠ (m.registers.i.toNat + k) % 4096) :
    (m.execute i).memory.bytes[place]? = m.memory.bytes[place]? := by
  rw [memory_execute, Memory.getElem?_store_of_ne _ _ (m.length_storedBytes_le i) h]

/-- The registers up to `x` come from memory, the ones behind it stay. -/
theorem reg_execute_loadRegisters (z : Fin 16) :
    (m.execute (.loadRegisters x)).reg z =
      if z ≤ x then m.memory.read (m.registers.i + UInt16.ofNat z.val) else m.reg z := by
  simp only [execute, loadRegisters, mapRegisters, reg, Registers.get, Fin.getElem_fin,
    Vector.getElem_ofFn, Fin.eta]

/-- A load behind a store of the same registers brings them back, whatever happened to them
in between. -/
theorem reg_load_of_store {n : Machine}
    (hmemory : n.memory = (m.execute (.storeRegisters x)).memory)
    (hindex : n.registers.i = m.registers.i) (z : Fin 16) :
    (n.execute (.loadRegisters x)).reg z = if z ≤ x then m.reg z else n.reg z := by
  rw [reg_execute_loadRegisters, hmemory, hindex, memory_execute]
  split
  · next hz =>
    have hlength : z.val < (m.storedBytes (.storeRegisters x)).length := by
      rw [length_storedRegisters]
      exact Nat.lt_succ_of_le hz
    rw [Memory.read_store_add _ _ (m.length_storedBytes_le _) hlength,
      m.getElem_storedRegisters x hlength z.isLt]
  · rfl

/-- A store behind a load of the same registers stores what is there. -/
theorem memory_store_of_load {n : Machine}
    (hmemory : n.memory = (m.execute (.loadRegisters x)).memory)
    (hindex : n.registers.i = m.registers.i)
    (hreg : ∀ z ≤ x, n.reg z = (m.execute (.loadRegisters x)).reg z) :
    (n.execute (.storeRegisters x)).memory = m.memory := by
  have hsame : n.memory = m.memory := hmemory.trans (m.memory_execute (.loadRegisters x))
  rw [memory_execute, hsame, hindex]
  refine Memory.store_eq_self _ _ (n.length_storedBytes_le _) fun k hk => ?_
  have hle : k < x.val + 1 := by
    rw [length_storedRegisters] at hk
    exact hk
  have hlt : k < 16 := Nat.lt_of_lt_of_le hle x.isLt
  have hz : (⟨k, hlt⟩ : Fin 16) ≤ x := Nat.le_of_lt_succ hle
  rw [n.getElem_storedRegisters x hk hlt, hreg _ hz, reg_execute_loadRegisters, if_pos hz]

/-- Block transfers from any address on. A store of registers writes each of them to its place
behind the index register, modulo the size of memory, and nothing else; a load writes the same
registers and nothing else; the decimal digits of a register take three places. Behind a store,
the load of the same registers from the same address restores them; behind a load, the store
changes nothing. -/
theorem block_transfers :
    let store := decode (wordXNN 0xF x 0x55)
    let load := decode (wordXNN 0xF x 0x65)
    let stored := m.execute store
    let loaded := m.execute load
    let written := m.execute (decode (wordXNN 0xF x 0x33))
    stored = { m with memory := stored.memory } ∧
      (∀ k ≤ x, stored.memory.bytes[(m.registers.i.toNat + k.val) % 4096]? = some (m.reg k)) ∧
      (∀ place, (∀ k ≤ x, place ≠ (m.registers.i.toNat + k.val) % 4096) →
        stored.memory.bytes[place]? = m.memory.bytes[place]?) ∧
      loaded = { m with registers := { m.registers with v := loaded.registers.v } } ∧
      (∀ k ≤ x, some (loaded.reg k) = m.memory.bytes[(m.registers.i.toNat + k.val) % 4096]?) ∧
      (∀ k, x < k → loaded.reg k = m.reg k) ∧
      written = { m with memory := written.memory } ∧
      (∃ digit : Fin 3 → UInt8, (∀ k, (digit k).toNat ≤ 9) ∧
        100 * (digit 0).toNat + 10 * (digit 1).toNat + (digit 2).toNat = (m.reg x).toNat ∧
        ∀ k, written.memory.bytes[(m.registers.i.toNat + k.val) % 4096]? = some (digit k)) ∧
      (∀ place, (∀ k < 3, place ≠ (m.registers.i.toNat + k) % 4096) →
        written.memory.bytes[place]? = m.memory.bytes[place]?) ∧
      (∀ n : Machine, n.memory = stored.memory → n.registers.i = m.registers.i →
        ∀ z, (n.execute load).reg z = if z ≤ x then m.reg z else n.reg z) ∧
      ∀ n : Machine, n.memory = loaded.memory → n.registers.i = m.registers.i →
        (∀ z ≤ x, n.reg z = loaded.reg z) → (n.execute store).memory = m.memory := by
  intro store load stored loaded written
  have hstore : store = .storeRegisters x := decode_of_eq_encode trivial rfl
  have hload : load = .loadRegisters x := decode_of_eq_encode trivial rfl
  have hstored : stored = m.execute (.storeRegisters x) := congrArg m.execute hstore
  have hloaded : loaded = m.execute (.loadRegisters x) := congrArg m.execute hload
  have hwritten : written = m.execute (.storeDecimal x) :=
    congrArg m.execute (decode_of_eq_encode (i := .storeDecimal x) trivial rfl)
  rw [hstore, hload, hstored, hloaded, hwritten]
  refine ⟨rfl, fun k hk => ?_, fun place h => ?_, rfl, fun k hk => ?_, fun k hk => ?_, rfl, ?_,
    fun place h => ?_, fun n => m.reg_load_of_store x, fun n => m.memory_store_of_load x⟩
  · have hlength : k.val < (m.storedBytes (.storeRegisters x)).length := by
      rw [length_storedRegisters]
      exact Nat.lt_succ_of_le hk
    rw [m.getElem?_memory_execute _ hlength, m.getElem_storedRegisters x hlength k.isLt]
  · refine m.getElem?_memory_execute_of_ne _ fun k hk => ?_
    rw [length_storedRegisters] at hk
    exact h ⟨k, Nat.lt_of_lt_of_le hk x.isLt⟩ (Nat.le_of_lt_succ hk)
  · rw [reg_execute_loadRegisters, if_pos hk, Memory.getElem?_bytes]
  · rw [reg_execute_loadRegisters, if_neg (Fin.not_le.mpr hk)]
  · obtain ⟨hsmall, hsum⟩ := Arithmetic.decimal_digits (m.reg x)
    exact ⟨(Arithmetic.decimal (m.reg x)).get, fun k => hsmall _ (List.get_mem ..), hsum,
      fun k => m.getElem?_memory_execute (.storeDecimal x) k.isLt⟩
  · exact m.getElem?_memory_execute_of_ne (.storeDecimal x) h

/-- Four registers from the last two addresses on: the block goes around the end of memory, and
the load brings back what was stored there while the fifth register keeps what it was set to. -/
theorem block_transfers_around_memory :
    let m : Machine := { boot .standard (.ofSeed 7) with
      registers := ⟨.replicate 16 0xC8, 0xFFFE, Layout.programStart, []⟩ }
    let stored := m.execute (decode (wordXNN 0xF 3 0x55))
    let n := stored.mapRegisters fun r => { r with v := .replicate 16 9 }
    let restored := n.execute (decode (wordXNN 0xF 3 0x65))
    stored.memory.bytes[4095]? = some 0xC8 ∧ stored.memory.bytes[0]? = some 0xC8 ∧
      stored.memory.bytes[2]? = m.memory.bytes[2]? ∧ restored.reg 3 = 0xC8 ∧ restored.reg 4 = 9 ∧
      ((m.execute (decode (wordXNN 0xF 3 0x65))).execute (decode (wordXNN 0xF 3 0x55))).memory =
        m.memory := by
  intro m stored n restored
  have hreg (z : Fin 16) : m.reg z = 0xC8 := by
    simp only [m, reg, Registers.get, Fin.getElem_fin, Vector.getElem_replicate]
  obtain ⟨hstored, hplaces, hkept, hloaded, -, -, -, -, -, hrestored, hsame⟩ :=
    m.block_transfers 3
  have hlast : (m.registers.i.toNat + (1 : Fin 16).val) % 4096 = 4095 := by decide
  have hfirst : (m.registers.i.toNat + (2 : Fin 16).val) % 4096 = 0 := by decide
  have hindex : n.registers.i = m.registers.i := congrArg (·.registers.i) hstored
  have hback := hrestored n rfl hindex
  refine ⟨?_, ?_, hkept 2 (by decide), ?_, ?_, hsame _ rfl ?_ fun _ _ => rfl⟩
  · rw [← hreg 1, ← hplaces 1 (by decide), hlast]
  · rw [← hreg 2, ← hplaces 2 (by decide), hfirst]
  · exact (hback 3).trans ((if_pos (by decide)).trans (hreg 3))
  · exact (hback 4).trans (if_neg (by decide))
  · exact congrArg (·.registers.i) hloaded

end Machine
end ChipEight
