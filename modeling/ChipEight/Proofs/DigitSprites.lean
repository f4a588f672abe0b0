import ChipEight.Proofs.Stores

/-!
The digit sprites at the start of memory. A load and a reset put them there, and nothing protects
them: a store is as good at their addresses as anywhere else. So each of their bytes is the
original one until an instruction stores another byte in its place, and they are complete as long
as all stores go elsewhere.
-/
namespace ChipEight

namespace Memory

/-- The sprite of zero begins with a row of four bits. -/
theorem read_zero_of_readSpan_eq {m : Memory} (h : m.readSpan 0 80 = Layout.spriteSheet) :
    m.read 0 = 0xF0 := by
  have hhead : (m.readSpan 0 80).head? = some (m.read 0) := by
    rw [readSpan, span, List.range_succ_eq_map]
    rfl
  rw [h] at hhead
  exact (Option.some.inj hhead).symm

/-- The first eighty bytes are the sprites if each of them is. -/
theorem readSpan_eq_spriteSheet {m : Memory}
    (h : ∀ address : UInt16, address.toNat < 80 →
      m.read address = Layout.spriteSheet[address.toNat]?.getD 0) :
    m.readSpan 0 80 = Layout.spriteSheet := by
  apply List.ext_getElem
  · rw [length_readSpan]
    rfl
  · intro k hk hsheet
    have hlt : k < 80 := hsheet
    have haddress : (0 + UInt16.ofNat k).toNat = k := by
      rw [UInt16.zero_add, UInt16.toNat_ofNat']
      omega
    have hread := h (0 + UInt16.ofNat k) (by omega)
    rw [haddress, List.getElem?_eq_getElem hsheet] at hread
    simpa only [readSpan, span, List.getElem_map, List.getElem_range, Option.getD_some]
      using hread

theorem read_image_of_lt {program : List UInt8} (h : Acceptable program) {address : UInt16}
    (hlow : address.toNat < 80) :
    (image program).read address = Layout.spriteSheet[address.toNat]?.getD 0 := by
  rw [read_image h (by omega), if_pos (by omega)]

end Memory

namespace Machine

def Event.startsAfresh : Event → Bool
  | load program => decide (Acceptable program)
  | reset => true
  | _ => false

/-- The states in which an instruction has been executed since the last load or reset. -/
def trailSinceStart (m : Machine) : List Event → List Machine
  | [] => []
  | event :: rest =>
    if rest.any Event.startsAfresh then (m.respond event).trailSinceStart rest
    else m.eventTrail event ++ (m.respond event).trailSinceStart rest

/-- A fresh start restores the sprites; any other event only stores what its
instructions store. -/
theorem read_respond_of_lt (m : Machine) (event : Event) {address : UInt16}
    (hlow : address.toNat < 80) :
    (m.respond event).memory.read address =
      lastStored address
        (if event.startsAfresh then Layout.spriteSheet[address.toNat]?.getD 0
          else m.memory.read address) (m.eventTrail event) := by
  cases event with
  | load program =>
    by_cases hp : Acceptable program
    · rw [m.respond_load_of_acceptable hp, Event.startsAfresh, decide_eq_true hp]
      exact Memory.read_image_of_lt hp hlow
    · rw [m.respond_load_of_not_acceptable hp, Event.startsAfresh, decide_eq_false hp]
      rfl
  | reset => exact Memory.read_initial (by omega)
  | step | tick | advanceTimers | takeFrame | setKey =>
    exact m.read_memory_respond (by exact trivial) address

/-- After any events a byte of the sprites is the last one stored there since the last
fresh start. -/
theorem read_respondAll_of_lt (m : Machine) (events : List Event) {address : UInt16}
    (hlow : address.toNat < 80) :
    (m.respondAll events).memory.read address =
      lastStored address
        (if events.any Event.startsAfresh then Layout.spriteSheet[address.toNat]?.getD 0
          else m.memory.read address) (m.trailSinceStart events) := by
  induction events generalizing m with
  | nil => rfl
  | cons event rest ih =>
    have hcons : m.respondAll (event :: rest) = (m.respond event).respondAll rest := rfl
    rw [hcons, ih, List.any_cons, trailSinceStart]
    by_cases hrest : rest.any Event.startsAfresh = true
    · rw [if_pos hrest, if_pos hrest, hrest, Bool.or_true, if_pos rfl]
    · rw [if_neg hrest, if_neg hrest, Bool.eq_false_iff.mpr hrest, Bool.or_false,
        m.read_respond_of_lt event hlow]
      exact List.foldl_append.symm

/-- After any events each byte of the digit sprites is the original one or, if instructions have
stored bytes at its address since the last load or reset, the last of those. So the sprites are
complete if no instruction since then has written to the first eighty cells. -/
theorem digit_sprites_until_overwritten (config : Config) (random : RandomBytes)
    (events : List Event) :
    let m := (boot config random).respondAll events
    let executed := (boot config random).trailSinceStart events
    (∀ address : UInt16, address.toNat < 80 →
      m.memory.read address =
        lastStored address (Layout.spriteSheet[address.toNat]?.getD 0) executed) ∧
      ((∀ s ∈ executed, ∀ cell ∈ s.written, 80 ≤ cell.val) →
        m.memory.readSpan 0 80 = Layout.spriteSheet) := by
  intro m executed
  have hread : ∀ address : UInt16, address.toNat < 80 →
      m.memory.read address =
        lastStored address (Layout.spriteSheet[address.toNat]?.getD 0) executed := by
    intro address hlow
    have hstart : (boot config random).memory.read address =
        Layout.spriteSheet[address.toNat]?.getD 0 := Memory.read_initial (by omega)
    have hafter := (boot config random).read_respondAll_of_lt events hlow
    rwa [hstart, ite_self] at hafter
  refine ⟨hread, fun helsewhere => Memory.readSpan_eq_spriteSheet fun address hlow => ?_⟩
  rw [hread address hlow]
  apply lastStored_of_not_written
  intro s hs hwritten
  have hcell := helsewhere s hs _ hwritten
  rw [Memory.cell_val] at hcell
  omega

/-- A program overwrites the first sprite; another one, loaded behind it, stores elsewhere. -/
theorem digit_sprites_until_overwritten_of_reload :
    let first : List Event := [.load [0xA0, 0x00, 0xF0, 0x55], .step, .step]
    let events := first ++ [.load [0xA3, 0x00, 0xF0, 0x33], .tick 2]
    let m := boot .standard (.ofSeed 7)
    (m.respondAll first).memory.read 0 = 0 ∧
      (∀ s ∈ m.trailSinceStart events, ∀ cell ∈ s.written, 80 ≤ cell.val) ∧
      (m.respondAll events).memory.readSpan 0 80 = Layout.spriteSheet := by
  intro first events m
  have hcells : (m.trailSinceStart events).map (fun s => s.written.map Fin.val) =
      [[], [0x300, 0x301, 0x302]] := by decide +kernel
  have helsewhere : ∀ s ∈ m.trailSinceStart events, ∀ cell ∈ s.written, 80 ≤ cell.val := by
    intro s hs cell hcell
    have hwritten : s.written.map Fin.val ∈ [[], [0x300, 0x301, 0x302]] :=
      hcells ▸ List.mem_map_of_mem hs
    have hhigh : ∀ cells ∈ [[], [0x300, 0x301, 0x302]], ∀ n ∈ cells, 80 ≤ n := by decide
    exact hhigh _ hwritten _ (List.mem_map_of_mem hcell)
  exact ⟨by decide +kernel, helsewhere,
    (digit_sprites_until_overwritten .standard (.ofSeed 7) events).2 helsewhere⟩

/-- The sprites do not always stay: a program of two instructions stores a zero in the
first of them. -/
theorem digit_sprites_not_constant :
    ¬ ∀ (config : Config) (random : RandomBytes) (events : List Event),
      ((boot config random).respondAll events).memory.readSpan 0 80 = Layout.spriteSheet := by
  intro h
  have hzero : ((boot .standard (.ofSeed 7)).respondAll
      [.load [0xA0, 0x00, 0xF0, 0x55], .step, .step]).memory.read 0 = 0x00 := by decide +kernel
  have hsprite := Memory.read_zero_of_readSpan_eq (h .standard (.ofSeed 7)
    [.load [0xA0, 0x00, 0xF0, 0x55], .step, .step])
  rw [hzero] at hsprite
  cases hsprite

end Machine
end ChipEight
