import ChipEight.Proofs.History

/-!
What a screen shows. A screen starts blank, takes over the pixels of each frame that is rendered,
and is blanked by each clear. Whatever is done with a console, such a screen shows the frame of
its machine after every action. A frame is rendered by a tick or a single step that changes
pixels, once, and by nothing else.
-/
namespace ChipEight

namespace Signal

def isRender : Signal → Bool
  | render _ => true
  | _ => false

def shown (pixels : Array Bool) : Signal → Array Bool
  | render frame => frame.pixels
  | clear => Array.replicate pixels.size false
  | _ => pixels

end Signal

namespace Peripherals

/-- Peripherals with a screen: rendering and clearing succeed and do to the pixels what they
should, and nothing else touches the pixels. -/
structure Shows (σ : Type) [Peripherals σ] (screen : σ → Array Bool) : Prop where
  render_ok : ∀ frame (world : σ), (render frame world).1 = .ok ()
  render_screen : ∀ frame (world : σ), screen (render frame world).2 = frame.pixels
  clear_ok : ∀ world : σ, (clear world).1 = .ok ()
  clear_screen : ∀ world : σ,
    screen (clear world).2 = Array.replicate (screen world).size false
  beep_screen : ∀ world : σ, screen (beep world).2 = screen world
  loaded_screen : ∀ listing (world : σ), screen (loaded listing world) = screen world
  forget_screen : ∀ world : σ, screen (forget world) = screen world
  observe_screen : ∀ observation (world : σ), screen (observe observation world) = screen world
  note_screen : ∀ n (world : σ), screen (note n world) = screen world

variable {σ : Type} [Peripherals σ] {screen : σ → Array Bool}

theorem settle_of_ok (explain : String → Note) {result : Except String Unit × σ}
    (h : result.1 = .ok ()) : settle explain result = result.2 := by
  obtain ⟨outcome, world⟩ := result
  cases h
  rfl

theorem Shows.settle_screen (h : Shows σ screen) (explain : String → Note)
    (result : Except String Unit × σ) : screen (settle explain result) = screen result.2 := by
  obtain ⟨outcome, world⟩ := result
  cases outcome with
  | ok _ => rfl
  | error cause => exact h.note_screen ..

theorem Shows.receive_screen (h : Shows σ screen) (world : σ) (signal : Signal) :
    screen (receive world signal) = signal.shown (screen world) := by
  cases signal with
  | render frame =>
    rw [receive, settle_of_ok _ (h.render_ok frame world), h.render_screen]
    rfl
  | clear =>
    rw [receive, settle_of_ok _ (h.clear_ok world), h.clear_screen]
    rfl
  | beep =>
    rw [receive, h.settle_screen, h.beep_screen]
    rfl
  | loaded listing => exact h.loaded_screen listing world
  | forget => exact h.forget_screen world
  | observe observation => exact h.observe_screen observation world
  | note n => exact h.note_screen n world

/-- A screen depends on the signals alone. -/
theorem Shows.deliver_screen (h : Shows σ screen) (world : σ) (signals : List Signal) :
    screen (deliver world signals) = signals.foldl Signal.shown (screen world) := by
  induction signals generalizing world with
  | nil => rfl
  | cons signal rest ih =>
    rw [List.foldl_cons, ← h.receive_screen world signal, ← ih]
    rfl

end Peripherals

structure Screen where
  pixels : Array Bool

namespace Screen

instance : Peripherals Screen where
  render frame _ := (.ok (), ⟨frame.pixels⟩)
  clear s := (.ok (), ⟨Array.replicate s.pixels.size false⟩)
  beep s := (.ok (), s)
  loaded _ s := s
  forget s := s
  observe _ s := s
  note _ s := s

theorem shows_pixels : Peripherals.Shows Screen pixels := by
  constructor <;> intros <;> rfl

end Screen

namespace Console

def renders (signals : List Signal) : Nat := signals.countP Signal.isRender

theorem shown_notes (pixels : Array Bool) (list : List Note) :
    (notes list).foldl Signal.shown pixels = pixels := by
  induction list with
  | nil => rfl
  | cons n rest ih => exact ih

@[simp] theorem renders_notes (list : List Note) : renders (notes list) = 0 := by
  simp [renders, notes, Signal.isRender, List.countP_eq_zero]

/-- The screen shows the frame of the machine, and the frame is not waiting to be shown. -/
structure InSync (pixels : Array Bool) (c : Console) : Prop where
  pixels_eq : pixels = c.machine.frame.pixels
  clean : c.machine.frame.dirty = false
  fitted : c.machine.Fitted

theorem inSync_fresh {config : Config} (h : config.Accepted) (random : RandomBytes) :
    InSync (Array.replicate (config.width * config.height) false) (fresh config random) := by
  refine ⟨?_, rfl, Machine.Fitted.boot config random⟩
  have hwidth : max config.width 1 = config.width := Nat.max_eq_left h.width_pos
  have hheight : max config.height 1 = config.height := Nat.max_eq_left h.height_pos
  simp only [fresh, Machine.boot, Frame.blank, hwidth, hheight]

/-- A load blanks both the screen and the frame. -/
theorem inSync_loaded {pixels : Array Bool} {c : Console} (h : InSync pixels c)
    (program : List UInt8) (autoplay : Bool) :
    InSync ((loadSignals program autoplay).foldl Signal.shown pixels)
      (c.loaded program autoplay) := by
  refine ⟨?_, rfl, ⟨rfl, rfl⟩⟩
  have hsize : pixels.size = max c.machine.config.width 1 * max c.machine.config.height 1 := by
    rw [h.pixels_eq, h.fitted.size_pixels]
  simp only [loadSignals, List.foldl_cons, List.foldl_nil, Signal.shown, hsize]
  rfl

theorem inSync_reset {pixels : Array Bool} {c : Console} (h : InSync pixels c) :
    InSync (c.reset.2.foldl Signal.shown pixels) c.reset.1 := by
  refine ⟨?_, rfl, ⟨rfl, rfl⟩⟩
  have hsize : pixels.size = max c.machine.config.width 1 * max c.machine.config.height 1 := by
    rw [h.pixels_eq, h.fitted.size_pixels]
  simp only [reset, List.foldl_cons, List.foldl_nil, Signal.shown, hsize]
  rfl

theorem runTick_signals (c : Console) (budget : Nat) :
    (c.runTick budget).2 =
      notes (c.machine.tickNotes budget) ++
        ((c.machine.tick budget).2.takeFrame.1.map Signal.render).toList ++
        (if (c.machine.tick budget).1.beep then [.beep] else []) ++
        [.observe (c.watch.observe (ticked c.machine budget).registers
          (c.machine.tick budget).1.executed)] := rfl

/-- The signals of a tick show its frame if it has one, and nothing else. -/
theorem runTick_shown (c : Console) (budget : Nat) (pixels : Array Bool) :
    (c.runTick budget).2.foldl Signal.shown pixels =
      ((c.machine.tick budget).2.takeFrame.1.map Frame.pixels).getD pixels := by
  simp only [runTick_signals, List.foldl_append, shown_notes]
  cases (c.machine.tick budget).2.takeFrame.1 <;> cases (c.machine.tick budget).1.beep <;> rfl

theorem runTick_renders (c : Console) (budget : Nat) :
    renders (c.runTick budget).2 =
      if (c.machine.tick budget).2.takeFrame.1.isSome then 1 else 0 := by
  rw [runTick_signals, renders, List.countP_append, List.countP_append, List.countP_append,
    ← renders, renders_notes]
  cases (c.machine.tick budget).2.takeFrame.1 <;> cases (c.machine.tick budget).1.beep <;> rfl

theorem inSync_runTick {pixels : Array Bool} {c : Console} (h : InSync pixels c)
    (budget : Nat) :
    InSync ((c.runTick budget).2.foldl Signal.shown pixels) (c.runTick budget).1 := by
  have hdirty : (c.machine.tick budget).2.frame.dirty =
      (c.machine.trail budget).any Machine.redraws := by
    have hcycle := Machine.dirty_cycle budget c.machine
    rwa [h.clean, Bool.false_or] at hcycle
  have hfitted : (c.machine.tick budget).2.Fitted :=
    ⟨(h.fitted.cycle budget).width, (h.fitted.cycle budget).height⟩
  refine ⟨?_, ?_, hfitted.takeFrame⟩
  · rw [runTick_shown, runTick_machine, ticked, Machine.takeFrame, hdirty]
    cases hredraws : (c.machine.trail budget).any Machine.redraws with
    | true => rfl
    | false =>
      have hframe : (c.machine.tick budget).2.frame = c.machine.frame :=
        Machine.frame_cycle_of_not_redraws hredraws
      simp only [Bool.false_eq_true, if_false, Option.map_none, Option.getD_none, hframe]
      exact h.pixels_eq
  · rw [runTick_machine, ticked, Machine.takeFrame]
    cases hd : (c.machine.tick budget).2.frame.dirty with
    | true => rfl
    | false => exact hd

theorem renders_runTick {pixels : Array Bool} {c : Console} (h : InSync pixels c)
    (budget : Nat) :
    renders (c.runTick budget).2 =
      if (c.machine.trail budget).any Machine.redraws then 1 else 0 := by
  have hdirty := Machine.dirty_cycle budget c.machine
  rw [h.clean, Bool.false_or] at hdirty
  rw [runTick_renders, ← hdirty, Machine.takeFrame]
  cases hd : (c.machine.cycle budget).2.frame.dirty with
  | true => rw [if_pos (show (c.machine.tick budget).2.frame.dirty = true from hd)]; rfl
  | false =>
    have hclean : (c.machine.tick budget).2.frame.dirty = false := hd
    simp [hclean]

/-- One action: the screen follows the frame, and a frame is rendered, once, exactly if the action
executes an instruction that changes pixels. -/
theorem inSync_next {pixels : Array Bool} {c : Console} (h : InSync pixels c) (action : Action) :
    InSync ((c.signals action).foldl Signal.shown pixels) (c.next action) ∧
      renders (c.signals action) =
        if (c.trail action).any Machine.redraws then 1 else 0 := by
  -- Neither a refusal nor a change of status or speed touches the frame or the screen.
  have hsame : ∀ d : Console, d.machine = c.machine → InSync pixels d := by
    intro d hd
    exact ⟨hd ▸ h.pixels_eq, hd ▸ h.clean, hd ▸ h.fitted⟩
  refine perform_cases (Q := fun states outcome =>
    InSync ((sent outcome).foldl Signal.shown pixels) (c.settled outcome) ∧
      renders (sent outcome) = if states.any Machine.redraws then 1 else 0)
    ?refused ?nothing ?status ?cycles ?load ?reset ?tick ?step ?key action
  case refused => exact fun _ => ⟨h, rfl⟩
  case nothing => exact ⟨h, rfl⟩
  case status => exact fun _ status _ => ⟨hsame { c with status } rfl, rfl⟩
  case cycles => exact fun cycles _ _ => ⟨hsame { c with cycles } rfl, rfl⟩
  case load => exact fun program autoplay _ => ⟨inSync_loaded h program autoplay, rfl⟩
  case reset => exact ⟨inSync_reset h, rfl⟩
  case tick => exact fun _ => ⟨inSync_runTick h c.cycles, renders_runTick h c.cycles⟩
  case step =>
    intro _ _
    have hpaused : InSync pixels { c with status := .paused } := hsame _ rfl
    exact ⟨inSync_runTick hpaused 1, renders_runTick hpaused 1⟩
  case key =>
    intro key pressed m _ hm
    have hframe : m.frame = c.machine.frame := by rw [Machine.eq_of_setKey hm]
    refine ⟨⟨?_, ?_, h.fitted.setKey hm⟩, renders_notes _⟩
    · simp only [sent, shown_notes, settled, hframe]
      exact h.pixels_eq
    · simp only [settled, hframe]
      exact h.clean

theorem inSync_actAll {σ : Type} [Peripherals σ] {screen : σ → Array Bool}
    (hscreen : Peripherals.Shows σ screen) (actions : List Action) {c : Console} {world : σ}
    (h : InSync (screen world) c) :
    InSync (screen (c.actAll world actions).2) (c.actAll world actions).1 := by
  induction actions generalizing c world with
  | nil => exact h
  | cons action rest ih =>
    apply ih
    rw [act_console, act_world, hscreen.deliver_screen]
    exact (inSync_next h action).1

/-- Whatever is done with a console of any configuration that can be chosen, its screen shows the
frame of its machine after every action, and no change is left to be shown. A next action renders
a frame exactly if it executes a clear or a draw of a sprite with a set bit, and then once. -/
theorem screen_shows_frame (choices : List Config.Choice) (random : RandomBytes) {σ : Type}
    [Peripherals σ] {screen : σ → Array Bool} (hscreen : Peripherals.Shows σ screen) (world : σ)
    (hblank : screen world = Array.replicate
      ((Config.chosen choices).width * (Config.chosen choices).height) false) :
    ∃ c, ofMachine (.boot (.chosen choices) random) = .ok c ∧
      ∀ actions,
        let (d, shown) := c.actAll world actions
        screen shown = d.machine.frame.pixels ∧ d.machine.frame.dirty = false ∧
          ∀ action, renders (d.signals action) =
            if (d.trail action).any Machine.redraws then 1 else 0 := by
  have haccepted := Config.accepted_chosen choices
  refine ⟨fresh (.chosen choices) random, ofMachine_boot haccepted random, fun actions => ?_⟩
  have hstart : InSync (screen world) (fresh (.chosen choices) random) := by
    rw [hblank]
    exact inSync_fresh haccepted random
  have hsync := inSync_actAll hscreen actions hstart
  exact ⟨hsync.pixels_eq, hsync.clean, fun action => (inSync_next hsync action).2⟩

/-- A console with an eight by five display that draws a digit: the refused choice of speed is
passed over, and the digit is on the screen. -/
theorem screen_shows_drawn_digit :
    Peripherals.Shows Screen Screen.pixels ∧
      ∃ c, ofMachine (.boot (.chosen [.display 8 5, .cycles 31]) (.ofSeed 7)) = .ok c ∧
        let (d, shown) := c.actAll (⟨Array.replicate 40 false⟩ : Screen)
          [.load [0xD0, 0x05] true, .tick]
        shown.pixels = d.machine.frame.pixels := by
  obtain ⟨c, hc, hall⟩ := screen_shows_frame [.display 8 5, .cycles 31] (.ofSeed 7)
    Screen.shows_pixels ⟨Array.replicate 40 false⟩ rfl
  exact ⟨Screen.shows_pixels, c, hc, (hall [.load [0xD0, 0x05] true, .tick]).1⟩

end Console
end ChipEight
