import ChipEight.Proofs.StoredProgram

/-!
The controls of a console. Speed, program, listing and status are written by different operations,
and yet they agree after every history: the program is the one that was loaded last and not
forgotten, the listing belongs to it, and a console without a program is stopped. So a replay
always succeeds.
-/
namespace ChipEight

namespace Action

def offered : Action → Option (List UInt8)
  | .load program _ => some program
  | .loadRom chunks _ => (Rom.read chunks).toOption
  | _ => none

theorem of_offered {action : Action} {program : List UInt8}
    (h : action.offered = some program) :
    ∃ autoplay, action = .load program autoplay ∨
      ∃ chunks, Rom.read chunks = .ok program ∧ action = .loadRom chunks autoplay := by
  cases action with
  | load bytes autoplay =>
    cases h
    exact ⟨autoplay, .inl rfl⟩
  | loadRom chunks autoplay =>
    rw [offered] at h
    cases hread : Rom.read chunks with
    | error rejection =>
      rw [hread] at h
      cases h
    | ok bytes =>
      rw [hread] at h
      cases h
      exact ⟨autoplay, .inr ⟨chunks, hread, rfl⟩⟩
  | _ => cases h

end Action

namespace Console

def Loads (c : Console) (action : Action) (program : List UInt8) : Prop :=
  action.offered = some program ∧ ∃ outcome, c.perform action = .ok outcome

/-- None of the actions is a reset or brings a program into the console. -/
def Keeps (c : Console) : List Action → Prop
  | [] => True
  | action :: rest =>
    action ≠ .reset ∧ (∀ program, ¬ c.Loads action program) ∧ (c.next action).Keeps rest

/-- The program is the last one that the history has brought into the console, and no
reset follows. -/
def LastLoads (c : Console) (history : List Action) (program : List UInt8) : Prop :=
  ∃ before action rest, history = before ++ action :: rest ∧
    (c.after before).Loads action program ∧ ((c.after before).next action).Keeps rest

/-- The history has brought no program into the console, or none since its last reset. -/
def Unloaded (c : Console) (history : List Action) : Prop :=
  c.Keeps history ∨ ∃ before rest, history = before ++ .reset :: rest ∧
    ((c.after before).next .reset).Keeps rest

theorem load_eq_ok_iff (c : Console) (program : List UInt8) (autoplay : Bool) :
    (∃ outcome, c.load program autoplay = .ok outcome) ↔ Acceptable program := by
  constructor
  · rintro ⟨outcome, hload⟩
    refine Decidable.byContradiction fun hnot => ?_
    obtain ⟨rejection, hrefused⟩ := c.load_of_not_acceptable hnot autoplay
    rw [hrefused] at hload
    cases hload
  · exact fun hp => ⟨_, c.load_of_acceptable hp autoplay⟩

theorem loads_iff (c : Console) (action : Action) (program : List UInt8) :
    c.Loads action program ↔ action.offered = some program ∧ Acceptable program := by
  refine and_congr_right fun hoffered => ?_
  obtain ⟨autoplay, rfl | ⟨chunks, hread, rfl⟩⟩ := Action.of_offered hoffered
  · exact c.load_eq_ok_iff program autoplay
  · rw [perform, loadRom, hread]
    exact c.load_eq_ok_iff program autoplay

theorem heldAfter_of_loads {c : Console} {action : Action} {program : List UInt8}
    (h : c.Loads action program) (held : Option (List UInt8)) :
    heldAfter held action = some program := by
  obtain ⟨hoffered, hp⟩ := (c.loads_iff action program).mp h
  obtain ⟨autoplay, rfl | ⟨chunks, hread, rfl⟩⟩ := Action.of_offered hoffered
  · exact if_pos hp
  · rw [heldAfter, hread]
    exact if_pos hp

theorem heldAfter_of_not_loads {c : Console} {action : Action} (hreset : action ≠ .reset)
    (h : ∀ program, ¬ c.Loads action program) (held : Option (List UInt8)) :
    heldAfter held action = held := by
  have hrefused : ∀ program, action.offered = some program → ¬ Acceptable program :=
    fun program hoffered hp => h program ((c.loads_iff action program).mpr ⟨hoffered, hp⟩)
  cases action with
  | load program autoplay => exact if_neg (hrefused program rfl)
  | loadRom chunks autoplay =>
    rw [Action.offered] at hrefused
    rw [heldAfter]
    cases hread : Rom.read chunks with
    | error rejection => rfl
    | ok program =>
      rw [hread] at hrefused
      exact if_neg (hrefused program rfl)
  | reset => exact absurd rfl hreset
  | _ => rfl

theorem program_after_of_keeps {c : Console} (h : c.HoldsAcceptable) {history : List Action}
    (hkeeps : c.Keeps history) : (c.after history).program = c.program := by
  induction history generalizing c with
  | nil => rfl
  | cons action rest ih =>
    obtain ⟨hreset, hloads, hrest⟩ := hkeeps
    have hnext := program_next h action
    rw [heldAfter_of_not_loads hreset hloads] at hnext
    exact (ih (holdsAcceptable_next h action) hrest).trans hnext

/-- What an action has left behind as the program stays until the next reset or load. -/
theorem program_after_cons_of_keeps {c : Console} (h : c.HoldsAcceptable) (before : List Action)
    {action : Action} {rest : List Action}
    (hkeeps : ((c.after before).next action).Keeps rest) :
    (c.after (before ++ action :: rest)).program =
      heldAfter (c.after before).program action := by
  have hbefore := (program_after h before).2
  rw [after, List.foldl_append, List.foldl_cons]
  exact (program_after_of_keeps (holdsAcceptable_next hbefore action) hkeeps).trans
    (program_next hbefore action)

theorem program_of_lastLoads {c : Console} (h : c.HoldsAcceptable) {history : List Action}
    {program : List UInt8} (hlast : c.LastLoads history program) :
    (c.after history).program = some program := by
  obtain ⟨before, action, rest, rfl, hloads, hkeeps⟩ := hlast
  rw [program_after_cons_of_keeps h before hkeeps, heldAfter_of_loads hloads]

theorem program_of_unloaded {c : Console} (hnone : c.program = none) {history : List Action}
    (hunloaded : c.Unloaded history) : (c.after history).program = none := by
  have h := holdsAcceptable_of_program_eq_none hnone
  obtain hkeeps | ⟨before, rest, rfl, hkeeps⟩ := hunloaded
  · rw [program_after_of_keeps h hkeeps, hnone]
  · exact program_after_cons_of_keeps h before hkeeps

/-- Every history has a last load with no reset behind it, unless it is without a load since its
last reset. -/
theorem unloaded_or_lastLoads (c : Console) (history : List Action) :
    c.Unloaded history ∨ ∃ program, c.LastLoads history program := by
  induction history generalizing c with
  | nil => exact .inl (.inl trivial)
  | cons action rest ih =>
    obtain (hkeeps | ⟨before, later, rfl, hkeeps⟩) | ⟨program, before, load, later, rfl, hlast⟩ :=
      ih (c.next action)
    · by_cases hloads : ∃ program, c.Loads action program
      · obtain ⟨program, hloads⟩ := hloads
        exact .inr ⟨program, [], action, rest, rfl, hloads, hkeeps⟩
      · by_cases hreset : action = .reset
        · subst hreset
          exact .inl (.inr ⟨[], rest, rfl, hkeeps⟩)
        · exact .inl (.inl ⟨hreset, fun program h => hloads ⟨program, h⟩, hkeeps⟩)
    · exact .inl (.inr ⟨action :: before, later, rfl, hkeeps⟩)
    · exact .inr ⟨program, action :: before, load, later, rfl, hlast⟩

/-- What the history says about the program, for a console that begins without one. -/
theorem program_after_iff {c : Console} (hnone : c.program = none) (history : List Action) :
    ((c.after history).program = none ↔ c.Unloaded history) ∧
      ∀ program, (c.after history).program = some program ↔ c.LastLoads history program := by
  have h := holdsAcceptable_of_program_eq_none hnone
  obtain hunloaded | ⟨last, hlast⟩ := c.unloaded_or_lastLoads history
  · have hprogram := program_of_unloaded hnone hunloaded
    refine ⟨iff_of_true hprogram hunloaded, fun program => ⟨fun hsome => ?_, ?_⟩⟩
    · rw [hprogram] at hsome
      cases hsome
    · exact program_of_lastLoads h
  · have hprogram := program_of_lastLoads h hlast
    refine ⟨⟨fun hempty => ?_, program_of_unloaded hnone⟩, fun program => ⟨fun hsome => ?_, ?_⟩⟩
    · rw [hprogram] at hempty
      cases hempty
    · rw [hprogram] at hsome
      cases hsome
      exact hlast
    · exact program_of_lastLoads h

structure Controlled (c : Console) : Prop where
  minCycles_le : Layout.minCycles ≤ c.cycles
  le_maxCycles : c.cycles ≤ Layout.maxCycles
  listing_eq : c.listing = (c.program.map Listing.ofProgram).getD []
  stopped : c.isLoaded = false → c.status = .stopped

namespace Controlled

variable {c : Console}

/-- The status of a console with a program is free. -/
theorem setStatus (h : c.Controlled) (hloaded : c.isLoaded = true) (status : Status) :
    { c with status }.Controlled where
  minCycles_le := h.minCycles_le
  le_maxCycles := h.le_maxCycles
  listing_eq := h.listing_eq
  stopped hnot := Bool.noConfusion (hloaded.symm.trans hnot)

/-- So are the machine and the registers that are watched. -/
theorem withMachine (h : c.Controlled) (machine : Machine) (watch : Watch) :
    { c with machine, watch }.Controlled :=
  ⟨h.minCycles_le, h.le_maxCycles, h.listing_eq, h.stopped⟩

theorem runTick (h : c.Controlled) (budget : Nat) : (c.runTick budget).1.Controlled :=
  h.withMachine (ticked c.machine budget) (.ofRegisters (ticked c.machine budget).registers)

theorem next (h : c.Controlled) (action : Action) : (c.next action).Controlled := by
  refine perform_cases (Q := fun _ outcome => (c.settled outcome).Controlled) (fun _ => h) h
    (fun hloaded status _ => h.setStatus hloaded status) (fun cycles hmin hmax => ?_)
    (fun program autoplay _ => ?_) ?_ (fun _ => h.runTick c.cycles)
    (fun hloaded _ => (h.setStatus hloaded .paused).runTick 1)
    (fun key pressed m _ _ => h.withMachine m c.watch) action
  · exact ⟨hmin, hmax, h.listing_eq, h.stopped⟩
  · exact ⟨h.minCycles_le, h.le_maxCycles, rfl, nofun⟩
  · exact ⟨h.minCycles_le, h.le_maxCycles, rfl, fun _ => rfl⟩

theorem of_ofMachine {m : Machine} (h : ofMachine m = .ok c) : c.Controlled := by
  obtain ⟨⟨hmin, hmax⟩, rfl⟩ := eq_of_ofMachine h
  exact ⟨hmin, hmax, rfl, fun _ => rfl⟩

end Controlled

/-- The console is at the start of the program, as it was when the program had just been loaded,
and runs unless it was paused. -/
structure Restarted (c : Console) (program : List UInt8) (d : Console) : Prop where
  program_eq : d.program = some program
  listing_eq : d.listing = .ofProgram program
  image : Memory.initial.load program = .ok d.machine.memory
  bytes : ∀ address : UInt16, address.toNat < 4096 → d.machine.memory.read address =
    if address.toNat < 0x200 then Layout.spriteSheet[address.toNat]?.getD 0
    else program[address.toNat - 0x200]?.getD 0
  pc : d.machine.registers.pc = 0x200
  status_eq : d.status = if c.status = .paused then .stopped else .running

theorem restarted_loaded (c : Console) {program : List UInt8} (h : Acceptable program) :
    c.Restarted program (c.loaded program (c.status != .paused)) where
  program_eq := rfl
  listing_eq := rfl
  image := Memory.load_of_acceptable h
  bytes _ := Memory.read_image h
  pc := rfl
  status_eq := by
    cases c.status <;> simp [loaded]

/-- A console that has come into being, after any history. Its speed is within the bounds.
Without a program it is stopped and lists nothing, and a replay does nothing. A program is the
one that was loaded last, it is acceptable and it is listed, and a replay starts it from its
original bytes. -/
theorem controls_agree {m : Machine} {c : Console} (h : ofMachine m = .ok c)
    (history : List Action) :
    let d := c.after history
    (1 ≤ d.cycles ∧ d.cycles ≤ 30) ∧
      (d.program = none ↔ c.Unloaded history) ∧
      (∀ program, d.program = some program ↔ c.LastLoads history program) ∧
      (d.program = none → d.isLoaded = false ∧ d.listing = [] ∧ d.status = .stopped ∧
        d.replay = .ok (d, [])) ∧
      ∀ program, d.program = some program →
        d.isLoaded = true ∧ 1 ≤ program.length ∧ program.length ≤ 3584 ∧
          d.listing = .ofProgram program ∧
          ∃ e signals, d.replay = .ok (e, signals) ∧ d.Restarted program e := by
  intro d
  have hcontrolled : d.Controlled :=
    after_induction (fun _ action h => h.next action) history (Controlled.of_ofMachine h)
  have hempty : c.program = none := by rw [(eq_of_ofMachine h).2]
  have hholds : d.HoldsAcceptable := (program_after_ofMachine h history).2
  obtain ⟨hunloaded, hlast⟩ := program_after_iff hempty history
  refine ⟨⟨hcontrolled.minCycles_le, hcontrolled.le_maxCycles⟩, hunloaded, hlast,
    fun hnone => ?_, fun program hsome => ?_⟩
  · have hloaded : d.isLoaded = false := by rw [isLoaded, hnone]; rfl
    refine ⟨hloaded, ?_, hcontrolled.stopped hloaded, by rw [replay, hnone]⟩
    rw [hcontrolled.listing_eq, hnone]
    rfl
  · have hp : Acceptable program := hholds program hsome
    have hreplay : d.replay = .ok (d.loaded program (d.status != .paused),
        loadSignals program (d.status != .paused)) := by
      rw [replay, hsome]
      exact d.load_of_acceptable hp (d.status != .paused)
    refine ⟨by rw [isLoaded, hsome]; rfl, hp.1, hp.2, ?_, _, _, hreplay, d.restarted_loaded hp⟩
    rw [hcontrolled.listing_eq, hsome]
    rfl

/-- A program overwrites its own first byte and is paused; a reset between two loads and a refused
load at the end leave it in place. -/
theorem controls_agree_after_self_modification :
    let program : List UInt8 := [0xA2, 0x00, 0x60, 0x07, 0xF0, 0x55]
    let history := [.load [0x12, 0x00] true, .reset, .setCycles 3, .load program true, .tick,
      .pause, .load [] true]
    ∃ c e signals, ofMachine (.boot (.chosen []) (.ofSeed 7)) = .ok c ∧
      (c.after history).program = some program ∧ c.LastLoads history program ∧
      (c.after history).machine.memory.read 0x200 = 0x07 ∧
      (c.after history).replay = .ok (e, signals) ∧ e.machine.memory.read 0x200 = 0xA2 ∧
      e.status = .stopped := by
  intro program history
  have hc := ofMachine_boot (Config.accepted_chosen []) (.ofSeed 7)
  obtain ⟨-, -, hlast, -, hloaded⟩ := controls_agree hc history
  have hprogram : ((fresh (.chosen []) (.ofSeed 7)).after history).program = some program := by
    decide +kernel
  obtain ⟨-, -, -, -, e, signals, hreplay, hrestarted⟩ := hloaded program hprogram
  refine ⟨_, e, signals, hc, hprogram, (hlast program).mp hprogram, by decide +kernel, hreplay,
    ?_, ?_⟩
  · rw [hrestarted.bytes 0x200 (by decide)]
    decide
  · rw [hrestarted.status_eq]
    exact if_pos (by decide +kernel)

end Console
end ChipEight
