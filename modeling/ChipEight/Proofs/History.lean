import ChipEight.Console.Action
import ChipEight.Proofs.Loading
import ChipEight.Proofs.Trail

/-!
Histories of a console: the configurations that can be chosen for it, its state after any list of
actions, what the actions answer, and which instructions they execute. Peripherals have no say in
any of this. What a load, a reset, a run and a key event keep, every history keeps.
-/
namespace ChipEight

namespace Config

inductive Choice
  | cycles (cycles : Nat)
  | display (width height : Nat)

/-- A refused choice leaves the configuration as it was. -/
def choose (c : Config) : Choice → Config
  | .cycles cycles =>
    match c.withCycles cycles with
    | .ok chosen => chosen
    | .error _ => c
  | .display width height =>
    match c.withDisplay width height with
    | .ok chosen => chosen
    | .error _ => c

def chosen (choices : List Choice) : Config := choices.foldl choose standard

structure Accepted (c : Config) : Prop where
  minCycles_le : Layout.minCycles ≤ c.cycles
  le_maxCycles : c.cycles ≤ Layout.maxCycles
  width_pos : 0 < c.width
  height_pos : 0 < c.height

theorem accepted_standard : standard.Accepted := by
  constructor <;> decide

theorem Accepted.choose {c : Config} (h : c.Accepted) (choice : Choice) :
    (c.choose choice).Accepted := by
  cases choice with
  | cycles cycles =>
    by_cases hc : Layout.minCycles ≤ cycles ∧ cycles ≤ Layout.maxCycles
    · have haccepted : Accepted { c with cycles } := ⟨hc.1, hc.2, h.width_pos, h.height_pos⟩
      simpa [Config.choose, withCycles, checkCycles, hc] using haccepted
    · simpa [Config.choose, withCycles, checkCycles, hc] using h
  | display width height =>
    by_cases hd : width = 0 ∨ height = 0
    · simpa [Config.choose, withDisplay, hd] using h
    · have hpos : 0 < width ∧ 0 < height := by omega
      have haccepted : Accepted { c with width, height } :=
        ⟨h.minCycles_le, h.le_maxCycles, hpos.1, hpos.2⟩
      simpa [Config.choose, withDisplay, hd] using haccepted

theorem accepted_chosen (choices : List Choice) : (chosen choices).Accepted := by
  have aux : ∀ (choices : List Choice) (c : Config), c.Accepted →
      (choices.foldl Config.choose c).Accepted := by
    intro choices
    induction choices with
    | nil => exact fun _ h => h
    | cons choice rest ih => exact fun c h => ih _ (h.choose choice)
  exact aux choices standard accepted_standard

end Config

namespace Console

def fresh (config : Config) (random : RandomBytes) : Console where
  machine := .boot config random
  cycles := config.cycles
  watch := .initial
  program := none
  listing := []
  status := .stopped

theorem ofMachine_boot {config : Config} (h : config.Accepted) (random : RandomBytes) :
    ofMachine (.boot config random) = .ok (fresh config random) := by
  have hcycles : checkCycles config.cycles = .ok config.cycles :=
    if_pos ⟨h.minCycles_le, h.le_maxCycles⟩
  simp only [ofMachine, Machine.boot, hcycles]
  rfl

/-- A console that comes into being is a new one around its machine, at the speed of its
configuration. -/
theorem eq_of_ofMachine {m : Machine} {c : Console} (h : ofMachine m = .ok c) :
    (Layout.minCycles ≤ m.config.cycles ∧ m.config.cycles ≤ Layout.maxCycles) ∧
      c = { machine := m, cycles := m.config.cycles, watch := .initial, program := none
            listing := [], status := .stopped } := by
  rw [ofMachine, checkCycles] at h
  by_cases hcycles : Layout.minCycles ≤ m.config.cycles ∧ m.config.cycles ≤ Layout.maxCycles
  · rw [if_pos hcycles] at h
    cases h
    exact ⟨hcycles, rfl⟩
  · rw [if_neg hcycles] at h
    cases h

/-- The console after an outcome; a refusal changes nothing. -/
def settled (c : Console) : Except Rejection Outcome → Console
  | .ok (d, _) => d
  | .error _ => c

def sent : Except Rejection Outcome → List Signal
  | .ok (_, signals) => signals
  | .error _ => []

def seen : Except Rejection Outcome → Except Rejection (List Signal)
  | .ok (_, signals) => .ok signals
  | .error rejection => .error rejection

def next (c : Console) (action : Action) : Console := c.settled (c.perform action)

def signals (c : Console) (action : Action) : List Signal := sent (c.perform action)

def reply (c : Console) (action : Action) : Except Rejection (List Signal) :=
  seen (c.perform action)

def after (c : Console) (actions : List Action) : Console := actions.foldl next c

def replies (c : Console) : List Action → List (Except Rejection (List Signal))
  | [] => []
  | action :: rest => c.reply action :: (c.next action).replies rest

def trail (c : Console) : Action → List Machine
  | .tick => if c.status = .running then c.machine.trail c.cycles else []
  | .stepOnce => if c.isLoaded && !c.machine.isAwaiting then c.machine.trail 1 else []
  | _ => []

def trailAll (c : Console) : List Action → List Machine
  | [] => []
  | action :: rest => c.trail action ++ (c.next action).trailAll rest

/-- What an action executes is a run of the machine. -/
theorem exists_of_mem_trail {c : Console} {action : Action} {s : Machine}
    (hs : s ∈ c.trail action) : ∃ budget, s ∈ c.machine.trail budget := by
  unfold trail at hs
  split at hs
  · split at hs
    · exact ⟨_, hs⟩
    · cases hs
  · split at hs
    · exact ⟨_, hs⟩
    · cases hs
  · cases hs

section Peripherals

variable {σ : Type} [Peripherals σ]

theorem act_console (c : Console) (world : σ) (action : Action) :
    (c.act world action).console = c.next action := by
  unfold act next
  cases c.perform action <;> rfl

theorem act_world (c : Console) (world : σ) (action : Action) :
    (c.act world action).world = Peripherals.deliver world (c.signals action) := by
  unfold act signals
  cases c.perform action <;> rfl

/-- The peripherals do not influence the console. -/
theorem actAll_console (c : Console) (world : σ) (actions : List Action) :
    (c.actAll world actions).1 = c.after actions := by
  induction actions generalizing c world with
  | nil => rfl
  | cons action rest ih =>
    rw [actAll, ih, act_console]
    rfl

end Peripherals

/-- What every action keeps, a history keeps. -/
theorem after_induction {P : Console → Prop} (hnext : ∀ c action, P c → P (c.next action))
    (actions : List Action) {c : Console} (h : P c) : P (c.after actions) := by
  induction actions generalizing c with
  | nil => exact h
  | cons action rest ih => exact ih (hnext c action h)

/-- The machine after a tick of a console: it has run, its timers have counted down, and its frame
has been taken. -/
def ticked (m : Machine) (budget : Nat) : Machine := (m.tick budget).2.takeFrame.2

theorem ticked_eq (m : Machine) (budget : Nat) :
    ticked m budget = { (m.cycle budget).2 with
      timers := (m.cycle budget).2.timers.advance
      frame := (m.cycle budget).2.frame.shown } :=
  Machine.takeFrame_snd (m.tick budget).2

theorem runTick_machine (c : Console) (budget : Nat) :
    (c.runTick budget).1.machine = ticked c.machine budget := rfl

/-- What an action can come down to: a refusal, nothing, a change of status or speed, a load, a
reset, a run with its report, or a key event. With each goes the trail of the action. -/
theorem perform_cases {Q : List Machine → Except Rejection Outcome → Prop} {c : Console}
    (hrefused : ∀ rejection, Q [] (.error rejection))
    (hnothing : Q [] (.ok (c, [])))
    (hstatus : c.isLoaded = true → ∀ status note, Q [] (.ok ({ c with status }, [.note note])))
    (hcycles : ∀ cycles, Layout.minCycles ≤ cycles → cycles ≤ Layout.maxCycles →
      Q [] (.ok ({ c with cycles }, [.note (.cyclesSet cycles)])))
    (hload : ∀ program autoplay, Acceptable program →
      Q [] (.ok (c.loaded program autoplay, loadSignals program autoplay)))
    (hreset : Q [] (.ok c.reset))
    (htick : c.status = .running → Q (c.machine.trail c.cycles) (.ok (c.runTick c.cycles)))
    (hstep : c.isLoaded = true → c.machine.isAwaiting = false →
      Q (c.machine.trail 1) (.ok ({ c with status := .paused }.runTick 1)))
    (hkey : ∀ key pressed m, c.status ≠ .stopped → c.machine.setKey key pressed = .ok m →
      Q [] (.ok ({ c with machine := m }, notes (c.machine.keyNotes key pressed))))
    (action : Action) : Q (c.trail action) (c.perform action) := by
  have hloaded : ∀ program autoplay, Q [] (c.load program autoplay) := by
    intro program autoplay
    by_cases hp : Acceptable program
    · rw [c.load_of_acceptable hp]
      exact hload program autoplay hp
    · obtain ⟨rejection, hr⟩ := c.load_of_not_acceptable hp autoplay
      rw [hr]
      exact hrefused rejection
  have hset : ∀ status note, Q [] (.ok (c.setStatus status note)) := by
    intro status note
    by_cases hl : c.isLoaded = true
    · rw [setStatus, if_pos hl]
      exact hstatus hl status note
    · rw [setStatus, if_neg hl]
      exact hnothing
  cases action with
  | load program autoplay => exact hloaded program autoplay
  | loadRom chunks autoplay =>
    obtain ⟨rejection, hr⟩ | ⟨program, -, hr⟩ := c.loadRom_cases chunks autoplay
    · rw [perform, hr]
      exact hrefused rejection
    · rw [perform, hr]
      exact hloaded program autoplay
  | play =>
    by_cases hs : c.status = .running
    · rw [perform, play, if_pos hs]
      exact hnothing
    · rw [perform, play, if_neg hs]
      exact hset .running .playing
  | pause => exact hset .paused .pausing
  | stop => exact hset .stopped .stopping
  | replay =>
    obtain ⟨-, hr⟩ | ⟨program, -, hr⟩ := c.replay_cases
    · rw [perform, hr]
      exact hnothing
    · rw [perform, hr]
      exact hloaded program (c.status != .paused)
  | reset => exact hreset
  | setCycles cycles =>
    by_cases hc : Layout.minCycles ≤ cycles ∧ cycles ≤ Layout.maxCycles
    · rw [perform, setCycles, checkCycles, if_pos hc]
      exact hcycles cycles hc.1 hc.2
    · rw [perform, setCycles, checkCycles, if_neg hc]
      exact hrefused _
  | tick =>
    by_cases hs : c.status = .running
    · rw [perform, tick, trail, if_pos hs, if_pos hs]
      exact htick hs
    · rw [perform, tick, trail, if_neg hs, if_neg hs]
      exact hnothing
  | stepOnce =>
    by_cases hl : (c.isLoaded && !c.machine.isAwaiting) = true
    · rw [perform, stepOnce, trail, if_pos hl, if_pos hl]
      rw [Bool.and_eq_true, Bool.not_eq_true'] at hl
      exact hstep hl.1 hl.2
    · rw [perform, stepOnce, trail, if_neg hl, if_neg hl]
      exact hnothing
  | setKey key pressed =>
    by_cases hs : c.status = .stopped
    · rw [perform, setKey, if_pos hs]
      exact hnothing
    · cases hk : c.machine.setKey key pressed with
      | error rejection =>
        rw [perform, setKey, if_neg hs, hk]
        exact hrefused rejection
      | ok m =>
        rw [perform, setKey, if_neg hs, hk]
        exact hkey key pressed m hs hk

/-- What a load, a reset, a tick and a key event keep of the machine, every action keeps. -/
theorem machine_next {P : Machine → Prop} {c : Console} (h : P c.machine)
    (hload : ∀ program, P (c.machine.loaded program)) (hreset : P c.machine.reset)
    (htick : ∀ budget, P (ticked c.machine budget))
    (hkey : ∀ key pressed m, c.machine.setKey key pressed = .ok m → P m) (action : Action) :
    P (c.next action).machine := by
  exact perform_cases (Q := fun _ outcome => P (c.settled outcome).machine) (fun _ => h) h
    (fun _ _ _ => h) (fun _ _ _ => h) (fun program _ _ => hload program) hreset
    (fun _ => htick c.cycles) (fun _ _ => htick 1) (fun key pressed m _ => hkey key pressed m)
    action

theorem config_next (c : Console) (action : Action) :
    (c.next action).machine.config = c.machine.config := by
  refine machine_next (P := fun m => m.config = c.machine.config) rfl (fun _ => rfl) rfl
    (fun budget => ?_) (fun key pressed m hkey => ?_) action
  · rw [ticked_eq]
    exact Machine.config_cycle ..
  · rw [Machine.eq_of_setKey hkey]

theorem config_after (c : Console) (actions : List Action) :
    (c.after actions).machine.config = c.machine.config :=
  after_induction (P := fun d => d.machine.config = c.machine.config)
    (fun d action hd => by rw [config_next, hd]) actions rfl

/-- The frame of a console always has the size that was chosen for it. -/
theorem fitted_next {c : Console} (h : c.machine.Fitted) (action : Action) :
    (c.next action).machine.Fitted := by
  refine machine_next h (fun _ => ⟨rfl, rfl⟩) ⟨rfl, rfl⟩ (fun budget => ?_)
    (fun key pressed m hkey => h.setKey hkey) action
  have hrun := h.cycle budget
  exact Machine.Fitted.takeFrame ⟨hrun.width, hrun.height⟩

end Console
end ChipEight
