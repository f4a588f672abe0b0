import ChipEight.Proofs.Bare.Console

/-!
No history of a console breaks down. Whatever is chosen for it, as long as the pixels of its
display can be allocated, the console comes into being, and every action of every history runs
through over plain data: each index lies within its array, each number fits into its word, nothing
is divided by zero. The plain data is at all times that of the console itself.
-/
namespace ChipEight

/-- Plain data of the sizes that a machine of this configuration has. -/
structure Bare.Machine.Shaped (m : Bare.Machine) (config : Config) : Prop where
  registers : m.registers.v.size = 16
  memory : m.memory.size = Layout.memorySize
  keys : m.keypad.pressed.size = 16
  awaited : ∀ x, m.keypad.execution = .awaitingKey x → x < 16
  width : m.frame.width = config.width
  height : m.frame.height = config.height
  pixels : m.frame.pixels.size = config.width * config.height
  binary : ∀ pixel ∈ m.frame.pixels, pixel = 0 ∨ pixel = 1
  rows : ∃ rows, m.frame.rows = .ok rows ∧ rows.length = config.height ∧
    ∀ row ∈ rows, row.length = config.width

/-- A frame has as many rows as it is high, each as long as it is wide. -/
theorem Frame.rows_shaped (f : Frame) :
    ∃ rows, f.bare.rows = .ok rows ∧ rows.length = f.height ∧
      ∀ row ∈ rows, row.length = f.width := by
  refine ⟨_, f.rows_bare, by simp [rows], ?_⟩
  intro row hrow
  obtain ⟨lit, hlit, rfl⟩ := List.mem_map.mp hrow
  obtain ⟨y, -, rfl⟩ := List.mem_map.mp hlit
  simp

theorem Machine.shaped_bare {m : Machine} (h : m.Fitted) (haccepted : m.config.Accepted) :
    m.bare.Shaped m.config := by
  have hwidth : m.frame.width = m.config.width := by
    rw [h.width, Nat.max_eq_left haccepted.width_pos]
  have hheight : m.frame.height = m.config.height := by
    rw [h.height, Nat.max_eq_left haccepted.height_pos]
  constructor
  case registers => exact m.registers.v.size_toArray
  case memory => exact m.memory.bytes.size_toArray
  case keys => exact m.keypad.pressed.size_toArray
  case awaited =>
    intro x hx
    rw [execution_bare] at hx
    cases hwait : m.keypad.execution with
    | running =>
      rw [hwait] at hx
      cases hx
    | awaitingKey register =>
      rw [hwait] at hx
      cases hx
      exact register.isLt
  case width => exact hwidth
  case height => exact hheight
  case pixels => rw [frame_bare, Frame.size_bare, hwidth, hheight]
  case binary => exact fun pixel hpixel => m.frame.pixel_bare hpixel
  case rows =>
    rw [← hwidth, ← hheight]
    exact m.frame.rows_shaped

namespace Console

/-- A configuration whose pixels can be allocated starts a sound console. -/
theorem new_bare {config : Config} (haccepted : config.Accepted)
    (hsize : config.width * config.height ≤ Bare.maxAllocation) (random : RandomBytes) :
    Bare.Console.new config random = .ok (.ok (fresh config random).bare) ∧
      (fresh config random).Sound := by
  have hallocatable : max config.width 1 * max config.height 1 ≤ Bare.maxAllocation := by
    rwa [Nat.max_eq_left haccepted.width_pos, Nat.max_eq_left haccepted.height_pos]
  have hcycles : checkCycles config.cycles = .ok config.cycles :=
    if_pos ⟨haccepted.minCycles_le, haccepted.le_maxCycles⟩
  constructor
  · rw [Bare.Console.new, Machine.boot_bare hallocatable, Bare.ok_bind, hcycles]
    rfl
  · exact ⟨⟨.boot config random, hallocatable⟩, haccepted.le_maxCycles⟩

/-- For every chosen configuration with an allocatable display and every history, the console is
built, no action breaks down, and the data keeps its sizes, its pixels zeros and ones and its
awaited register one of the sixteen. -/
theorem never_faults (choices : List Config.Choice)
    (hsize : (Config.chosen choices).width * (Config.chosen choices).height ≤ Bare.maxAllocation)
    (random : RandomBytes) (actions : List Action) :
    ∃ c, ofMachine (.boot (Config.chosen choices) random) = .ok c ∧
      Bare.Console.new (Config.chosen choices) random = .ok (.ok c.bare) ∧
      c.bare.after actions = .ok (c.after actions).bare ∧
      (∀ action, (c.after actions).bare.perform action =
        .ok (bareOutcome ((c.after actions).perform action))) ∧
      (c.after actions).machine.bare.Shaped (Config.chosen choices) := by
  have haccepted := Config.accepted_chosen choices
  obtain ⟨hnew, hsound⟩ := new_bare haccepted hsize random
  obtain ⟨hafter, hend⟩ := after_bare hsound actions
  have hconfig : ((fresh (Config.chosen choices) random).after actions).machine.config =
      Config.chosen choices := config_after ..
  have hshaped := Machine.shaped_bare hend.machine.fitted (by rwa [hconfig])
  rw [hconfig] at hshaped
  exact ⟨fresh (Config.chosen choices) random, ofMachine_boot haccepted random, hnew, hafter,
    fun action => perform_bare hend action, hshaped⟩

/-- On a display of three times two pixels a row of four bits meets its own beginning, and then
the program waits for a key. -/
theorem never_faults_on_tiny_display :
    let config := Config.chosen [.display 0 9, .display 3 2, .cycles 31]
    let actions := [.load [0xD1, 0x11, 0xF3, 0x0A] true, .tick]
    config.width * config.height ≤ Bare.maxAllocation ∧
      ∃ c, ofMachine (.boot config (.ofStream fun _ => 0)) = .ok c ∧
        c.bare.after actions = .ok (c.after actions).bare ∧
        (c.after actions).machine.frame.pixels = #[false, true, true, false, false, false] ∧
        (c.after actions).bare.machine.keypad.execution = .awaitingKey 3 := by
  intro config actions
  have hsize : config.width * config.height ≤ Bare.maxAllocation := by decide
  obtain ⟨c, hc, -, hafter, -⟩ := never_faults [.display 0 9, .display 3 2, .cycles 31] hsize
    (.ofStream fun _ => 0) actions
  have hfresh := hc.symm.trans (ofMachine_boot (Config.accepted_chosen _) _)
  cases hfresh
  exact ⟨hsize, _, hc, hafter, by decide +kernel, by decide +kernel⟩

end Console
end ChipEight
