import ChipEight.Desktop.Arguments
import ChipEight.Desktop.Session
import ChipEight.Proofs.History
import ChipEight.Proofs.Upload

/-!
The size of the window that a session asks for. The sides of the display are multiplied by the
scale, the products are cut to thirty-two bits, and what is left of them is compared with the
bound of the window system. A product is noticed to be too large only if the part that is left is
too large as well. Nothing else that a session does asks for a window, so a session with such a
scale goes on in a window of a size that nobody meant.
-/
namespace ChipEight.Desktop

def Request.windowSize? : Request → Option (UInt32 × UInt32)
  | window _ width height => some (width, height)
  | _ => none

def Host.windows (h : Host) : List (UInt32 × UInt32) := h.requests.filterMap Request.windowSize?

def Desk.windows (d : Desk) : List (UInt32 × UInt32) := d.host.windows

/-- Work that leaves a part of the state as it is, however it ends. -/
def Spares {ε σ α β : Type} (part : σ → β) (work : ExceptT ε (StateM σ) α) : Prop :=
  ∀ s, part (work.run s).2 = part s

namespace Spares

variable {ε σ α β γ : Type} {part : σ → γ} {work : ExceptT ε (StateM σ) α}
  {next : α → ExceptT ε (StateM σ) β}

theorem pure (a : α) : Spares part (Pure.pure a : ExceptT ε (StateM σ) α) := fun _ => rfl

theorem throw (e : ε) : Spares part (MonadExcept.throw e : ExceptT ε (StateM σ) α) := fun _ => rfl

/-- What follows some work has no say in the part that it spares. -/
theorem part_bind (hnext : ∀ a, Spares part (next a)) (s : σ) :
    part ((work >>= next).run s).2 = part (work.run s).2 := by
  cases hrun : work.run s with
  | mk result t =>
    cases result with
    | ok a =>
      rw [Host.run_bind_of_ok hrun]
      exact hnext a t
    | error e => rw [Host.run_bind_of_error hrun]

theorem bind (h : Spares part work) (hnext : ∀ a, Spares part (next a)) :
    Spares part (work >>= next) := fun s => (part_bind hnext s).trans (h s)

/-- Work that may be left out. -/
theorem optional {condition : Prop} [Decidable condition] {work : ExceptT ε (StateM σ) Unit}
    {rest : Unit → ExceptT ε (StateM σ) β} (h : Spares part work)
    (hrest : Spares part (rest ())) :
    Spares part (if condition then work >>= rest else rest ()) := by
  split
  · exact h.bind fun _ => hrest
  · exact hrest

end Spares

namespace Host

theorem windows_requested (h : Host) (request : Request) :
    (h.requested request).windows = h.windows ++ request.windowSize?.toList := by
  rw [windows, requested, List.filterMap_append]
  cases hsize : request.windowSize? <;> simp [windows, hsize]

variable {request : Request}

theorem spares_ask (h : request.windowSize? = none) : Spares windows (ask request) := by
  intro host
  rw [run_ask]
  dsimp only
  rw [windows_requested, h, Option.toList_none, List.append_nil]

theorem spares_allow (duty : Duty) : Spares windows (allow duty) := by
  intro host
  rw [run_allow]

theorem spares_demand (duty : Duty) (h : request.windowSize? = none) :
    Spares windows (demand duty request) :=
  (spares_ask h).bind fun _ => spares_allow duty

/-- Another text for a refusal is no other work. -/
theorem run_creating_snd (work : HostM Unit) (host : Host) :
    ((creating work).run host).2 = (work.run host).2 := by
  rw [creating, ExceptT.run_tryCatch, stateM_bind_apply]
  cases (work.run host).1 <;> rfl

theorem spares_creating {work : HostM Unit} (h : Spares windows work) :
    Spares windows (creating work) := by
  intro host
  rw [run_creating_snd]
  exact h host

theorem spares_beep (tone : Tone Float32) : Spares windows (Beeper.beep tone) :=
  (spares_ask rfl).bind fun _ => (spares_ask rfl).bind fun _ _ => rfl

theorem spares_openSpeaker : Spares windows Beeper.setUp :=
  (spares_demand _ rfl).bind fun _ => (spares_demand _ rfl).bind fun _ =>
    (spares_ask rfl).bind fun _ _ => rfl

end Host

namespace Display

open Host

def Passes (side scale : Nat) : Prop := side * scale % UInt32.size < maxSide

instance (side scale : Nat) : Decidable (Passes side scale) := inferInstanceAs (Decidable (_ < _))

def askedFor (host : Host) (width height scale : Nat) : List (UInt32 × UInt32) :=
  if host.refusal (.subsystem .video) = none ∧ Passes width scale ∧ Passes height scale then
    [(windowSide width scale, windowSide height scale)]
  else []

/-- The size is the one of the display, enlarged by the scale. -/
def Meant (width height scale : Nat) (size : UInt32 × UInt32) : Prop :=
  size.1.toNat = width * scale ∧ size.2.toNat = height * scale

theorem toNat_windowSide (side scale : Nat) :
    (windowSide side scale).toNat = side * scale % UInt32.size := UInt32.toNat_ofNat ..

/-- A product of sixty-four bits leaves the same. -/
theorem windowSide_eq (side scale : Nat) :
    windowSide side scale = (UInt64.ofNat side * UInt64.ofNat scale).toUInt32 := by
  rw [windowSide, UInt64.toUInt32_mul, UInt64.toUInt32_ofNat', UInt64.toUInt32_ofNat',
    UInt32.ofNat_mul]

theorem passes_iff (side scale : Nat) :
    Passes side scale ↔ (windowSide side scale).toNat < maxSide := by
  rw [toNat_windowSide, Passes]

theorem spares_render (f : Frame) : Spares windows (render f) := by
  unfold render
  refine (spares_creating (spares_demand _ rfl)).bind fun _ => (spares_allow _).bind fun _ => ?_
  refine Spares.bind (fun _ => rfl) fun _ => (spares_ask rfl).bind fun _ => ?_
  exact (spares_demand _ rfl).bind fun _ => spares_ask rfl

theorem spares_clear : Spares windows clear :=
  (spares_ask rfl).bind fun _ => (spares_ask rfl).bind fun _ => spares_ask rfl

/-- Too large a side is refused before the host is asked for anything. -/
theorem run_createWindow_of_refused {width height : UInt32}
    (h : ¬ (width.toNat < maxSide ∧ height.toNat < maxSide)) (host : Host) :
    ∃ cause, (createWindow width height).run host = (.error cause, host) := by
  by_cases hwidth : maxSide ≤ width.toNat
  · exact ⟨_, by rw [createWindow, if_pos hwidth]; rfl⟩
  · have hheight : maxSide ≤ height.toNat := by omega
    exact ⟨_, by rw [createWindow, if_neg hwidth, if_pos hheight]; rfl⟩

theorem windows_createWindow {width height : UInt32} (hwidth : width.toNat < maxSide)
    (hheight : height.toNat < maxSide) (host : Host) :
    ((createWindow width height).run host).2.windows = host.windows ++ [(width, height)] := by
  rw [createWindow, if_neg (Nat.not_le.mpr hwidth), if_neg (Nat.not_le.mpr hheight),
    run_creating_snd, run_demand]
  exact windows_requested host _

/-- A display asks for one window, or it fails without asking for any. -/
theorem setUp_asks (host : Host) (width height scale : Nat) :
    ((setUp width height scale).run host).2.windows =
        host.windows ++ askedFor host width height scale ∧
      (askedFor host width height scale = [] →
        ∃ cause, ((setUp width height scale).run host).1 = .error cause) := by
  let started := host.requested (.start .video)
  have hstarted : started.windows = host.windows := spares_ask rfl host
  have hstart : (startSubsystem .video).run host =
      ((host.refusal (.subsystem .video)).elim (.ok ()) .error, started) := run_demand ..
  cases hvideo : host.refusal (.subsystem .video) with
  | some cause =>
    rw [hvideo] at hstart
    have hasked : askedFor host width height scale = [] := if_neg (by simp [hvideo])
    rw [setUp, run_bind_of_error hstart, hasked, List.append_nil]
    exact ⟨hstarted, fun _ => ⟨cause, rfl⟩⟩
  | none =>
    rw [hvideo] at hstart
    rw [setUp, run_bind_of_ok hstart]
    by_cases hpass : Passes width scale ∧ Passes height scale
    · have hasked : askedFor host width height scale =
          [(windowSide width scale, windowSide height scale)] := if_pos ⟨hvideo, hpass⟩
      rw [passes_iff, passes_iff] at hpass
      rw [Spares.part_bind fun _ => spares_creating (spares_demand _ rfl),
        windows_createWindow hpass.1 hpass.2, hstarted, hasked]
      exact ⟨rfl, nofun⟩
    · have hasked : askedFor host width height scale = [] := if_neg fun h => hpass h.2
      rw [passes_iff, passes_iff] at hpass
      obtain ⟨cause, hrefused⟩ := run_createWindow_of_refused hpass started
      rw [run_bind_of_error hrefused, hasked, List.append_nil]
      exact ⟨hstarted, fun _ => ⟨cause, rfl⟩⟩

theorem askedFor_ne_nil_iff (host : Host) (width height scale : Nat) :
    askedFor host width height scale ≠ [] ↔
      host.refusal (.subsystem .video) = none ∧ Passes width scale ∧ Passes height scale := by
  rw [askedFor]
  split
  · next hasked => exact iff_of_true (List.cons_ne_nil _ _) hasked
  · next hnone => exact iff_of_false (not_not_intro rfl) hnone

/-- The window is the one that is meant unless a product is too large and what is left
of it is not. -/
theorem meant_iff (host : Host) (width height scale : Nat) :
    (∀ size ∈ askedFor host width height scale, Meant width height scale size) ↔
      (askedFor host width height scale ≠ [] →
        width * scale < maxSide ∧ height * scale < maxSide) := by
  rw [askedFor]
  split
  · next hasked =>
    obtain ⟨-, hwidth, hheight⟩ := hasked
    rw [Passes] at hwidth hheight
    have hmax : maxSide < UInt32.size := by decide
    simp only [List.mem_singleton, forall_eq, Meant, toNat_windowSide, ne_eq, List.cons_ne_nil,
      not_false_eq_true, true_implies]
    constructor
    · rintro ⟨hw, hh⟩
      exact ⟨hw ▸ hwidth, hh ▸ hheight⟩
    · rintro ⟨hw, hh⟩
      exact ⟨Nat.mod_eq_of_lt (Nat.lt_trans hw hmax), Nat.mod_eq_of_lt (Nat.lt_trans hh hmax)⟩
  · simp

/-- On the display of a session the larger side is cut at each 2^26 and the smaller one
at each 2^27. -/
theorem passes_standard_iff (scale : Nat) :
    Passes 64 scale ∧ Passes 32 scale ↔ scale % 134217728 < 33554432 := by
  simp only [Passes, UInt32.size, maxSide]
  omega

end Display

namespace Desk

theorem windows_onHost {α : Type} {work : HostM α} (h : Spares Host.windows work) (d : Desk) :
    (d.onHost work).2.windows = d.windows := h d.host

theorem windows_settle (explain : String → Note) (result : Except String Unit × Desk) :
    (Peripherals.settle explain result).windows = result.2.windows := by
  obtain ⟨outcome, d⟩ := result
  cases outcome <;> rfl

theorem windows_beep (d : Desk) : d.beep.2.windows = d.windows := by
  rw [beep]
  cases d.speaker with
  | none => rfl
  | some tone => exact windows_onHost (Host.spares_beep tone) (d.write [.beeping])

/-- No signal opens a window. -/
theorem windows_receive (d : Desk) (signal : Signal) :
    (Peripherals.receive d signal).windows = d.windows := by
  cases signal with
  | render frame =>
    exact (windows_settle ..).trans (windows_onHost (Display.spares_render frame) d)
  | clear => exact (windows_settle ..).trans (windows_onHost Display.spares_clear d)
  | beep => exact (windows_settle ..).trans d.windows_beep
  | _ => rfl

theorem windows_deliver (d : Desk) (signals : List Signal) :
    (Peripherals.deliver d signals).windows = d.windows := by
  induction signals generalizing d with
  | nil => rfl
  | cons signal rest ih => exact (ih _).trans (d.windows_receive signal)

end Desk

namespace Session

open Display

theorem spares_rejecting {α : Type} (result : Except Rejection α) :
    Spares Desk.windows (rejecting result) := by
  cases result <;> exact fun _ => rfl

theorem spares_onHost {α : Type} {work : HostM α} (h : Spares Host.windows work) :
    Spares Desk.windows (modifyGet (·.onHost work) : DeskM (Except String α)) :=
  fun d => d.windows_onHost h

theorem run_hosting {α : Type} (work : HostM α) (d : Desk) :
    (hosting work).run d = ((d.onHost work).1.mapError .host, (d.onHost work).2) := by
  have hwork : (modifyGet (·.onHost work) : DeskM (Except String α)).run d =
      (.ok (d.onHost work).1, (d.onHost work).2) := rfl
  rw [hosting, Host.run_bind_of_ok hwork]
  cases (d.onHost work).1 <;> rfl

theorem spares_hosting {α : Type} {work : HostM α} (h : Spares Host.windows work) :
    Spares Desk.windows (hosting work) := by
  intro d
  rw [run_hosting]
  exact d.windows_onHost h

theorem spares_setUpSpeaker : Spares Desk.windows setUpSpeaker := by
  refine (spares_onHost Host.spares_openSpeaker).bind fun result => ?_
  cases result <;> exact fun _ => rfl

def askedFor (options : Options) (host : Host) : List (UInt32 × UInt32) :=
  if (1 ≤ options.cycles ∧ options.cycles ≤ 30) ∧ host.refusal .library = none then
    Display.askedFor host 64 32 options.scale
  else []

/-- What a session does once it has its window: the speaker, the events, and the program. -/
def afterWindow (options : Options) (console : Console) (file : RomFile) : DeskM Console := do
  if !options.mute then setUpSpeaker
  hosting (Host.startSubsystem .events)
  match file.contents with
  | .error cause => throw (.file cause)
  | .ok chunks =>
    let (console, signals) ← rejecting (console.loadRom chunks options.autoplay)
    modify (Peripherals.deliver · signals)
    write (.romLoaded options.rom)
    return console

theorem spares_afterWindow (options : Options) (console : Console) (file : RomFile) :
    Spares Desk.windows (afterWindow options console file) := by
  unfold afterWindow
  refine .optional spares_setUpSpeaker
    ((spares_hosting (Host.spares_demand _ rfl)).bind fun _ => ?_)
  cases file.contents with
  | error cause => exact .throw _
  | ok chunks =>
    refine (spares_rejecting _).bind fun outcome => ?_
    refine Spares.bind (fun d => d.windows_deliver _) fun _ => ?_
    exact Spares.bind (fun _ => rfl) fun _ => .pure _

/-- A session with an accepted speed comes to its window unless the library cannot be used. -/
theorem setUp_of_accepted {options : Options}
    (h : Config.Accepted ⟨options.cycles, 64, 32⟩) (random : RandomBytes) (file : RomFile) :
    setUp options random file = (do
      hosting (Host.allow .library)
      hosting (Display.setUp 64 32 options.scale)
      afterWindow options (.fresh ⟨options.cycles, 64, 32⟩ random) file) := by
  have hconfig : Config.standard.withCycles options.cycles = .ok ⟨options.cycles, 64, 32⟩ := by
    have hcheck : checkCycles options.cycles = .ok options.cycles :=
      if_pos ⟨h.minCycles_le, h.le_maxCycles⟩
    rw [Config.withCycles, hcheck]
    rfl
  rw [setUp, hconfig]
  simp only [rejecting, pure_bind, Console.ofMachine_boot h]
  rfl

theorem setUp_of_not_accepted {options : Options}
    (h : ¬ (1 ≤ options.cycles ∧ options.cycles ≤ 30)) (random : RandomBytes)
    (file : RomFile) :
    setUp options random file = throw (.rejection (.cyclesOutOfRange options.cycles)) := by
  have hcheck : checkCycles options.cycles = .error (.cyclesOutOfRange options.cycles) := if_neg h
  rw [setUp, Config.withCycles, hcheck]
  rfl

theorem run_allowLibrary (host : Host) :
    (hosting (Host.allow .library)).run (.ofHost host) =
      ((host.refusal .library).elim (.ok ()) fun cause => .error (.host cause),
        .ofHost host) := by
  have hasked : (Desk.ofHost host).host = host := rfl
  rw [run_hosting, Desk.onHost, hasked, Host.run_allow]
  cases host.refusal .library <;> rfl

/-- A session asks for the window of its display and for no other, or it fails before that. -/
theorem setUp_asks (options : Options) (random : RandomBytes) (file : RomFile) (host : Host) :
    ((setUp options random file).run (.ofHost host)).2.windows =
        host.windows ++ askedFor options host ∧
      (askedFor options host = [] →
        ∃ failure, ((setUp options random file).run (.ofHost host)).1 = .error failure) := by
  by_cases hcycles : 1 ≤ options.cycles ∧ options.cycles ≤ 30
  · have hallow := run_allowLibrary host
    rw [setUp_of_accepted ⟨hcycles.1, hcycles.2, Nat.succ_pos 63, Nat.succ_pos 31⟩]
    cases hlibrary : host.refusal .library with
    | some cause =>
      rw [hlibrary] at hallow
      rw [Host.run_bind_of_error hallow, askedFor, if_neg (by simp [hlibrary]), List.append_nil]
      exact ⟨rfl, fun _ => ⟨_, rfl⟩⟩
    | none =>
      rw [hlibrary] at hallow
      have hasked : askedFor options host = Display.askedFor host 64 32 options.scale :=
        if_pos ⟨hcycles, hlibrary⟩
      have hdisplay := run_hosting (Display.setUp 64 32 options.scale) (.ofHost host)
      obtain ⟨hwindows, hfails⟩ := Display.setUp_asks host 64 32 options.scale
      rw [Host.run_bind_of_ok hallow, hasked, Spares.part_bind fun _ => spares_afterWindow _ _ _,
        hdisplay]
      refine ⟨hwindows, fun hnone => ?_⟩
      obtain ⟨cause, herror⟩ := hfails hnone
      have hfailed : ((Desk.ofHost host).onHost (Display.setUp 64 32 options.scale)).1 =
          .error cause := herror
      rw [hfailed] at hdisplay
      rw [Host.run_bind_of_error hdisplay]
      exact ⟨_, rfl⟩
  · rw [setUp_of_not_accepted hcycles, askedFor, if_neg fun h => hcycles h.1, List.append_nil]
    exact ⟨rfl, fun _ => ⟨_, rfl⟩⟩

section Turns

def windowsOf (segments : List Segment) : List (UInt32 × UInt32) :=
  segments.flatMap fun segment => segment.requests.filterMap Request.windowSize?

theorem windows_turn (c : Console) (d : Desk) (events : List Event) :
    (turn c d events).world.windows = d.windows := by
  induction events generalizing c d with
  | nil => exact d.windows_deliver _
  | cons event rest ih =>
    by_cases hquit : event = .quit
    · rw [hquit]
      rfl
    · rw [turn]
      · cases handle c event with
        | error rejection => rfl
        | ok outcome => exact (ih ..).trans (d.windows_deliver _)
      · exact hquit

theorem windows_play (d : Desk) (samples : Nat) : (d.play samples).2.windows = d.windows := by
  rw [Desk.play]
  cases d.speaker <;> rfl

/-- No turn asks for a window; what was asked before it shows in its segment. -/
theorem windowsOf_turns (samples : Nat) (c : Console) (d : Desk) (batches : List (List Event)) :
    windowsOf (turns samples c d batches).1 = d.windows := by
  induction batches generalizing c d with
  | nil => exact List.append_nil _
  | cons events rest ih =>
    have hturn := windows_turn c d events
    rw [turns]
    dsimp only
    cases (turn c d events).ending with
    | next =>
      have hplayed := windows_play (turn c d events).world samples
      have hlater := ih (turn c d events).console (cut ((turn c d events).world.play samples).2
        ((turn c d events).world.play samples).1).2
      rw [windowsOf, List.flatMap_cons, ← windowsOf, hlater]
      exact (List.append_nil _).trans (hplayed.trans hturn)
    | quit => exact (List.append_nil _).trans hturn
    | failed rejection => exact (List.append_nil _).trans hturn

/-- A whole session asks for what its set-up asks for, and fails if that is nothing. -/
theorem run_asks (options : Options) (random : RandomBytes) (file : RomFile) (host : Host)
    (samples : Nat) (events : List (List Event)) :
    windowsOf (run options random file host samples events).1 =
        host.windows ++ askedFor options host ∧
      (askedFor options host = [] →
        (run options random file host samples events).2.isSome = true) := by
  obtain ⟨hwindows, hfails⟩ := setUp_asks options random file host
  rw [run]
  cases hup : (setUp options random file).run (.ofHost host) with
  | mk result d =>
    rw [hup] at hwindows hfails
    cases result with
    | error failure => exact ⟨(List.append_nil _).trans hwindows, fun _ => rfl⟩
    | ok console =>
      refine ⟨?_, fun hnone => ?_⟩
      · dsimp only
        rw [windowsOf, List.flatMap_cons, ← windowsOf, windowsOf_turns]
        exact (List.append_nil _).trans hwindows
      · obtain ⟨failure, hfailed⟩ := hfails hnone
        cases hfailed

end Turns

theorem askedFor_ne_nil_iff (options : Options) (host : Host) :
    askedFor options host ≠ [] ↔
      (1 ≤ options.cycles ∧ options.cycles ≤ 30) ∧ host.refusal .library = none ∧
        host.refusal (.subsystem .video) = none ∧ options.scale % 134217728 < 33554432 := by
  rw [← passes_standard_iff, ← Display.askedFor_ne_nil_iff, ← and_assoc, askedFor]
  split
  · next hcomes => exact (and_iff_right hcomes).symm
  · next hfails => exact iff_of_false (not_not_intro rfl) fun h => hfails h.1

theorem meant_iff (options : Options) (host : Host) :
    (∀ size ∈ askedFor options host, Meant 64 32 options.scale size) ↔
      (askedFor options host ≠ [] → options.scale < 33554432) := by
  have hsmall : 64 * options.scale < maxSide ∧ 32 * options.scale < maxSide ↔
      options.scale < 33554432 := by
    rw [maxSide]
    omega
  rw [askedFor]
  split
  · rw [Display.meant_iff, hsmall]
  · simp

/-- The sides of a window are the products cut to words of thirty-two bits. A display asks for a
window with such sides if they are below 2^31, and otherwise it fails; so the window is the one
that is meant if and only if the products themselves are below 2^31. A whole session asks for no
other window. On its display of 64 times 32 it does so for every scale that leaves less than 2^25
over multiples of 2^27, while only a scale below 2^25 makes the window that is meant. -/
theorem window_sides_are_cut (width height scale : Nat) (options : Options) (random : RandomBytes)
    (file : RomFile) (host : Host) (samples : Nat) (events : List (List Event)) :
    (∀ side, windowSide side scale = (UInt64.ofNat side * UInt64.ofNat scale).toUInt32 ∧
      (windowSide side scale).toNat = side * scale % UInt32.size) ∧
    (((Display.setUp width height scale).run host).2.windows =
        host.windows ++ Display.askedFor host width height scale ∧
      (Display.askedFor host width height scale = [] →
        ∃ cause, ((Display.setUp width height scale).run host).1 = .error cause) ∧
      ((∀ size ∈ Display.askedFor host width height scale, Meant width height scale size) ↔
        (Display.askedFor host width height scale ≠ [] →
          width * scale < maxSide ∧ height * scale < maxSide))) ∧
    windowsOf (run options random file host samples events).1 =
        host.windows ++ askedFor options host ∧
      (askedFor options host = [] →
        (run options random file host samples events).2.isSome = true) ∧
      (askedFor options host ≠ [] ↔
        (1 ≤ options.cycles ∧ options.cycles ≤ 30) ∧ host.refusal .library = none ∧
          host.refusal (.subsystem .video) = none ∧ options.scale % 134217728 < 33554432) ∧
      ((∀ size ∈ askedFor options host, Meant 64 32 options.scale size) ↔
        (askedFor options host ≠ [] → options.scale < 33554432)) := by
  obtain ⟨hdisplay, hrefused⟩ := Display.setUp_asks host width height scale
  obtain ⟨hsession, hfailed⟩ := run_asks options random file host samples events
  exact ⟨fun side => ⟨windowSide_eq side scale, toNat_windowSide side scale⟩,
    ⟨hdisplay, hrefused, Display.meant_iff host width height scale⟩, hsession, hfailed,
    askedFor_ne_nil_iff options host, meant_iff options host⟩

def optionsOf (a : Arguments) : Options where
  rom := a.rom
  cycles := a.cycles
  scale := a.scale
  autoplay := !a.paused
  mute := a.mute

def willing : Host := ⟨fun _ => none, fun _ _ => ⟨192, #[]⟩, [], Int32.ofNat⟩

/-- A scale of 2^27 + 10 gives a session the window of scale ten, and one of 2^25
gives it none. -/
theorem window_sides_are_cut_at_large_scale :
    let file := RomFile.file [0x12, 0x00]
    let large : Arguments := ⟨"game.ch8", 10, 134217738, 60, false, false, 0⟩
    let refused : Options := ⟨"game.ch8", 10, 33554432, true, false⟩
    Arguments.parse ["--scale", "134217738", "game.ch8"] = .ok large ∧
      windowsOf (run (optionsOf large) (.ofSeed 7) file willing 0 []).1 = [(640, 320)] ∧
      ¬ Meant 64 32 large.scale (640, 320) ∧
      (askedFor refused willing = [] ∧
        (run refused (.ofSeed 7) file willing 0 []).2.isSome = true) ∧
      ∃ cause, ((Display.setUp 1 3 1073741824).run willing).1 = .error cause := by
  intro file large refused
  obtain ⟨-, ⟨-, hdisplay, -⟩, hlarge, -⟩ :=
    window_sides_are_cut 1 3 1073741824 (optionsOf large) (.ofSeed 7) file willing 0 []
  obtain ⟨-, -, -, hrefused, -⟩ :=
    window_sides_are_cut 1 3 1073741824 refused (.ofSeed 7) file willing 0 []
  have hnone : askedFor refused willing = [] := by decide +kernel
  refine ⟨rfl, hlarge.trans (by decide +kernel), ?_, ⟨hnone, hrefused hnone⟩,
    hdisplay (by decide +kernel)⟩
  rintro ⟨hwidth, -⟩
  exact absurd hwidth (by decide)

/-- A session does not always fail or ask for the window that its scale means. -/
theorem window_of_another_size :
    ¬ ∀ (words : List String) (a : Arguments) (random : RandomBytes) (file : RomFile)
      (host : Host) (samples : Nat) (events : List (List Event)), Arguments.parse words = .ok a →
        host.windows = [] →
        (run (optionsOf a) random file host samples events).2.isSome = true ∨
          ∃ size, windowsOf (run (optionsOf a) random file host samples events).1 = [size] ∧
            Meant 64 32 a.scale size := by
  intro h
  let large : Arguments := ⟨"game.ch8", 10, 134217738, 60, false, false, 0⟩
  have hcut : windowsOf (run (optionsOf large) (.ofSeed 7) (.file [0x12, 0x00]) willing 0 []).1 =
      [(640, 320)] := by decide +kernel
  have hsuccess :
      (run (optionsOf large) (.ofSeed 7) (.file [0x12, 0x00]) willing 0 []).2 = none := by
    decide +kernel
  have hclaim := h ["--scale", "134217738", "game.ch8"] large (.ofSeed 7) (.file [0x12, 0x00])
    willing 0 [] rfl rfl
  rw [hsuccess, hcut] at hclaim
  obtain hfailed | ⟨size, hsize, hwidth, -⟩ := hclaim
  · cases hfailed
  · cases hsize
    exact absurd hwidth (by decide)

end Session
end ChipEight.Desktop
