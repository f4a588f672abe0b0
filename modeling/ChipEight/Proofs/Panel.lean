import ChipEight.Desktop.Session
import ChipEight.Proofs.Calls

/-!
What an observer knows. A panel starts with zero registers and an empty listing, begins anew when
it is told to forget, takes over each listing, and overwrites just the registers that an
observation names. Whatever is done with a console, its watch remembers what such a panel shows.
So an observation brings the panel up to date with the machine, naming nothing that it shows
already, also after a key has filled a register or a load or a reset has replaced them all.
-/
namespace ChipEight

@[ext]
structure Panel where
  v : Vector UInt8 16
  i : UInt16
  listing : Listing

namespace Panel

def initial : Panel := ⟨Vector.replicate 16 0, 0, []⟩

def overwrite (v : Vector UInt8 16) (changed : List (Fin 16 × UInt8)) : Vector UInt8 16 :=
  changed.foldl (fun v entry => v.set entry.1 entry.2 entry.1.isLt) v

def observe (p : Panel) (o : Observation) : Panel :=
  { p with v := overwrite p.v o.changed, i := o.index.getD p.i }

def receive (p : Panel) : Call → Panel
  | .loaded listing => { p with listing }
  | .forget => .initial
  | .observe o => p.observe o
  | _ => p

instance : Peripherals Panel where
  render _ p := (.ok (), p)
  clear p := (.ok (), p)
  beep p := (.ok (), p)
  loaded listing p := p.receive (.loaded listing)
  forget p := p.receive .forget
  observe o p := p.receive (.observe o)
  note _ p := p

theorem follows_self : Peripherals.Follows (fun p : Panel => p) receive := by
  intro p signal
  cases signal <;> rfl

theorem get_overwrite_of_not_mem {changed : List (Fin 16 × UInt8)} {y : Fin 16}
    (hy : y ∉ changed.map Prod.fst) (v : Vector UInt8 16) :
    (overwrite v changed).get y = v.get y := by
  induction changed generalizing v with
  | nil => rfl
  | cons entry rest ih =>
    rw [List.map_cons, List.mem_cons, not_or] at hy
    obtain ⟨hnow, hlater⟩ := hy
    have hne : entry.1.val ≠ y.val := fun heq => hnow (Fin.ext heq.symm)
    have hrest : (overwrite v (entry :: rest)).get y =
        (v.set entry.1 entry.2 entry.1.isLt).get y := ih hlater _
    rw [hrest]
    exact Vector.getElem_set_ne _ _ hne

/-- A register that is named with its own value has it in the end, however often it is named. -/
theorem get_overwrite_of_mem {r : Registers} {changed : List (Fin 16 × UInt8)}
    (hvalues : ∀ entry ∈ changed, entry.2 = r.get entry.1) {y : Fin 16}
    (hy : y ∈ changed.map Prod.fst) (v : Vector UInt8 16) :
    (overwrite v changed).get y = r.get y := by
  induction changed generalizing v with
  | nil => cases hy
  | cons entry rest ih =>
    have hfirst : overwrite v (entry :: rest) =
        overwrite (v.set entry.1 entry.2 entry.1.isLt) rest := rfl
    rw [hfirst]
    by_cases hlater : y ∈ rest.map Prod.fst
    · exact ih (fun other hother => hvalues other (List.mem_cons_of_mem _ hother)) hlater _
    · rcases List.mem_cons.mp hy with rfl | hmem
      · rw [get_overwrite_of_not_mem hlater, ← hvalues entry (List.mem_cons_self ..)]
        exact Vector.getElem_set_self _
      · exact absurd hmem hlater

end Panel

namespace Watch

/-- What the report holds of one register. -/
theorem changed_at_iff (w : Watch) (r : Registers) (x : Fin 16) (entry : Fin 16 × UInt8) :
    (if r.get x = w.v.get x then none else some (x, r.get x)) = some entry ↔
      entry = (x, r.get x) ∧ r.get x ≠ w.v.get x := by
  by_cases hsame : r.get x = w.v.get x
  · simp [hsame]
  · simp [hsame, eq_comm]

theorem mem_changed (w : Watch) (r : Registers) (executed : List Nat) (x : Fin 16)
    (value : UInt8) :
    (x, value) ∈ (w.observe r executed).changed ↔ value = r.get x ∧ r.get x ≠ w.v.get x := by
  unfold observe
  simp only [List.mem_filterMap, changed_at_iff]
  constructor
  · rintro ⟨y, -, hentry, hdiffers⟩
    cases hentry
    exact ⟨rfl, hdiffers⟩
  · rintro ⟨rfl, hdiffers⟩
    exact ⟨x, List.mem_finRange x, rfl, hdiffers⟩

theorem mem_map_changed (w : Watch) (r : Registers) (executed : List Nat) (x : Fin 16) :
    x ∈ (w.observe r executed).changed.map Prod.fst ↔ r.get x ≠ w.v.get x := by
  rw [List.mem_map]
  constructor
  · rintro ⟨⟨y, value⟩, hmem, rfl⟩
    exact ((w.mem_changed r executed y value).mp hmem).2
  · intro hdiffers
    exact ⟨(x, r.get x), (w.mem_changed r executed x _).mpr ⟨rfl, hdiffers⟩, rfl⟩

theorem changed_ascending (w : Watch) (r : Registers) (executed : List Nat) :
    (w.observe r executed).changed.Pairwise fun first second => first.1 < second.1 := by
  unfold observe
  refine List.Pairwise.filterMap _ ?_ (List.pairwise_lt_finRange 16)
  intro x y hlt first hfirst second hsecond
  obtain ⟨rfl, -⟩ := (w.changed_at_iff r x first).mp hfirst
  obtain ⟨rfl, -⟩ := (w.changed_at_iff r y second).mp hsecond
  exact hlt

end Watch

namespace Panel

/-- An observation that brings a panel up to date with these registers and names nothing that the
panel shows already. -/
structure CatchesUp (before : Panel) (o : Observation) (after : Panel) (r : Registers) :
    Prop where
  v_eq : after.v = r.v
  i_eq : after.i = r.i
  pc_eq : o.pc = r.pc
  ascending : o.changed.Pairwise fun first second => first.1 < second.1
  mem_changed_iff : ∀ x value,
    (x, value) ∈ o.changed ↔ value = r.get x ∧ r.get x ≠ before.v.get x
  isSome_index_iff : o.index.isSome = true ↔ r.i ≠ before.i

/-- What a watch observes is what a panel lacks that shows what the watch remembers. -/
theorem catchesUp_observe {p : Panel} {w : Watch} (hv : p.v = w.v) (hi : p.i = w.i)
    (r : Registers) (executed : List Nat) :
    CatchesUp p (w.observe r executed) (p.observe (w.observe r executed)) r := by
  have hvalues : ∀ entry ∈ (w.observe r executed).changed, entry.2 = r.get entry.1 := by
    rintro ⟨x, value⟩ hmem
    exact ((w.mem_changed r executed x value).mp hmem).1
  constructor
  case v_eq =>
    apply Vector.ext
    intro n hn
    show (overwrite p.v (w.observe r executed).changed).get ⟨n, hn⟩ = r.get ⟨n, hn⟩
    by_cases hsame : r.get ⟨n, hn⟩ = w.v.get ⟨n, hn⟩
    · have hnot := mt (w.mem_map_changed r executed ⟨n, hn⟩).mp (not_not_intro hsame)
      rw [get_overwrite_of_not_mem hnot, hv]
      exact hsame.symm
    · exact get_overwrite_of_mem hvalues ((w.mem_map_changed r executed _).mpr hsame) p.v
  case i_eq =>
    show (if r.i = w.i then none else some r.i).getD p.i = r.i
    by_cases hsame : r.i = w.i
    · rw [if_pos hsame, hi]
      exact hsame.symm
    · rw [if_neg hsame]
      rfl
  case pc_eq => rfl
  case ascending => exact w.changed_ascending r executed
  case mem_changed_iff =>
    intro x value
    rw [hv]
    exact w.mem_changed r executed x value
  case isSome_index_iff =>
    show (if r.i = w.i then none else some r.i).isSome = true ↔ r.i ≠ p.i
    rw [hi]
    by_cases hsame : r.i = w.i
    · simp [hsame]
    · simp [hsame]

/-- What a panel shows that has followed a console from the start. -/
def of (c : Console) : Panel := ⟨c.watch.v, c.watch.i, c.listing⟩

theorem catchesUp_reportOf (c : Console) (budget : Nat) :
    CatchesUp (of c) (c.reportOf budget) ((of c).observe (c.reportOf budget))
      (Console.ticked c.machine budget).registers :=
  catchesUp_observe rfl rfl _ _

theorem observe_reportOf (c : Console) (budget : Nat) :
    (of c).observe (c.reportOf budget) = of (c.runTick budget).1 := by
  have hup := catchesUp_reportOf c budget
  apply Panel.ext
  · exact hup.v_eq
  · exact hup.i_eq
  · rfl

end Panel

namespace Call

def isObserve : Call → Bool
  | observe _ => true
  | _ => false

def toObserver : Call → Bool
  | loaded _ | forget | observe _ => true
  | _ => false

end Call

theorem Panel.foldl_receive_of_not_toObserver {quiet : List Call}
    (hquiet : ∀ call ∈ quiet, call.toObserver = false) (p : Panel) :
    quiet.foldl Panel.receive p = p := by
  induction quiet with
  | nil => rfl
  | cons call rest ih =>
    have hcall : p.receive call = p := by
      have hself := hquiet call (List.mem_cons_self ..)
      cases call with
      | render frame => rfl
      | clear => rfl
      | beep => rfl
      | _ => cases hself
    rw [List.foldl_cons, hcall]
    exact ih fun other hother => hquiet other (List.mem_cons_of_mem _ hother)

namespace Console

theorem toObserver_of_mem_showCalls {c : Console} {budget : Nat} {call : Call}
    (h : call ∈ c.showCalls budget) : call.toObserver = false := by
  rcases List.mem_append.mp h with hrender | hbeep
  · obtain ⟨frame, -, rfl⟩ := Option.map_eq_some_iff.mp (Option.mem_toList.mp hrender)
    rfl
  · cases hb : (c.machine.tick budget).1.beep with
    | false => simp [hb] at hbeep
    | true =>
      obtain rfl : call = .beep := by simpa [hb] using hbeep
      rfl

/-- In a run the observer hears the report and nothing else, and hears it last. -/
theorem eq_of_runCalls_eq {c : Console} {budget : Nat} {before after : List Call} {call : Call}
    (h : c.runCalls budget = before ++ call :: after) (hcall : call.toObserver = true) :
    before = c.showCalls budget ∧ call = .observe (c.reportOf budget) := by
  have hquiet : call ∉ c.showCalls budget := by
    intro hmem
    rw [toObserver_of_mem_showCalls hmem] at hcall
    cases hcall
  rcases List.append_eq_append_iff.mp h with ⟨late, hbefore, hlast⟩ | ⟨early, hshow, hlast⟩
  · cases late with
    | nil =>
      cases hlast
      exact ⟨by rw [hbefore, List.append_nil], rfl⟩
    | cons first late => simp at hlast
  · cases early with
    | nil =>
      cases hlast
      exact ⟨by rw [hshow, List.append_nil], rfl⟩
    | cons first early =>
      cases hlast
      exact absurd (hshow ▸ List.mem_append_right before (List.mem_cons_self ..)) hquiet

/-- The action lets the machine run, if only its timers, and reports on it. -/
def runs (c : Console) : Action → Bool
  | .tick => c.status = .running
  | .stepOnce => c.isLoaded && !c.machine.isAwaiting
  | _ => false

def observes (signals : List Signal) : Nat := (callsIn signals).countP Call.isObserve

theorem countP_isObserve_loadCalls (program : List UInt8) :
    (loadCalls program).countP Call.isObserve = 0 := by
  rw [loadCalls]
  by_cases hacceptable : Acceptable program
  · rw [if_pos hacceptable]
    rfl
  · rw [if_neg hacceptable]
    rfl

theorem countP_isObserve_runCalls (c : Console) (budget : Nat) :
    (c.runCalls budget).countP Call.isObserve = 1 := by
  have hshow : (c.showCalls budget).countP Call.isObserve = 0 := by
    rw [List.countP_eq_zero]
    intro call hmem hobserve
    have hquiet := toObserver_of_mem_showCalls hmem
    cases call with
    | observe o => cases hquiet
    | _ => cases hobserve
  rw [runCalls, List.countP_append, hshow]
  rfl

theorem observes_signals (c : Console) (action : Action) :
    observes (c.signals action) = if c.runs action then 1 else 0 := by
  rw [observes, callsIn_signals]
  cases action with
  | load program autoplay => exact countP_isObserve_loadCalls program
  | loadRom chunks autoplay =>
    rw [callsOf]
    cases Rom.read chunks with
    | error rejection => rfl
    | ok program => exact countP_isObserve_loadCalls program
  | replay =>
    rw [callsOf]
    cases c.program with
    | none => rfl
    | some program => exact countP_isObserve_loadCalls program
  | tick =>
    rw [callsOf, runs]
    by_cases hrunning : c.status = .running
    · simp only [hrunning, if_true, decide_true]
      exact c.countP_isObserve_runCalls c.cycles
    · simp only [hrunning, if_false, decide_false]
      rfl
  | stepOnce =>
    rw [callsOf, runs]
    by_cases hready : (c.isLoaded && !c.machine.isAwaiting) = true
    · rw [if_pos hready, if_pos hready]
      exact c.countP_isObserve_runCalls 1
    · rw [if_neg hready, if_neg hready]
      rfl
  | _ => rfl

/-- One action: the panel keeps showing what the watch remembers. -/
theorem panel_next (c : Console) (action : Action) :
    (callsIn (c.signals action)).foldl Panel.receive (Panel.of c) = Panel.of (c.next action) := by
  have hrun : ∀ (d : Console) budget,
      (d.runCalls budget).foldl Panel.receive (Panel.of d) = Panel.of (d.runTick budget).1 := by
    intro d budget
    rw [runCalls, List.foldl_append,
      Panel.foldl_receive_of_not_toObserver fun _ => toObserver_of_mem_showCalls]
    exact Panel.observe_reportOf d budget
  refine perform_cases (Q := fun _ outcome =>
    (callsIn (sent outcome)).foldl Panel.receive (Panel.of c) = Panel.of (c.settled outcome))
    ?refused ?nothing ?status ?cycles ?load ?reset ?tick ?step ?key action
  case refused => exact fun _ => rfl
  case nothing => rfl
  case status => exact fun _ _ _ => rfl
  case cycles => exact fun _ _ _ => rfl
  case load => exact fun _ _ _ => rfl
  case reset => rfl
  case tick =>
    intro _
    rw [sent, callsIn_runTick]
    exact hrun c c.cycles
  case step =>
    intro _ _
    rw [sent, callsIn_runTick]
    exact hrun { c with status := .paused } 1
  case key =>
    intro key pressed m _ _
    rw [sent, callsIn_notes]
    rfl

/-- One action: what the observer hears is part of a load or a reset, which leave fresh registers,
or the report of a run, before which it has heard nothing. -/
theorem heard_cases {c : Console} {action : Action} {before after : List Call} {call : Call}
    (h : callsIn (c.signals action) = before ++ call :: after) (hcall : call.toObserver = true) :
    (call.isObserve = false ∧ (c.next action).machine.registers = .initial) ∨
      ∃ budget, before = c.showCalls budget ∧ call = .observe (c.reportOf budget) ∧
        (c.next action).machine.registers = (ticked c.machine budget).registers := by
  have hnothing : ([] : List Call) ≠ before ++ call :: after := by simp
  have hmem : ∀ {calls : List Call}, calls = before ++ call :: after → call ∈ calls := by
    rintro calls rfl
    exact List.mem_append_right before (List.mem_cons_self ..)
  -- Whatever is neither a load nor a reset nor a run leaves the observer alone.
  revert h
  refine perform_cases (Q := fun _ outcome =>
    callsIn (sent outcome) = before ++ call :: after →
      (call.isObserve = false ∧ (c.settled outcome).machine.registers = .initial) ∨
        ∃ budget, before = c.showCalls budget ∧ call = .observe (c.reportOf budget) ∧
          (c.settled outcome).machine.registers = (ticked c.machine budget).registers)
    ?refused ?nothing ?status ?cycles ?load ?reset ?tick ?step ?key action
  case refused => exact fun _ h => absurd h hnothing
  case nothing => exact fun h => absurd h hnothing
  case status => exact fun _ _ _ h => absurd h hnothing
  case cycles => exact fun _ _ _ h => absurd h hnothing
  case load =>
    intro program autoplay _ h
    have hheard : call ∈ [.clear, .forget, .loaded (.ofProgram program)] := hmem h
    simp only [List.mem_cons, List.not_mem_nil, or_false] at hheard
    rcases hheard with rfl | rfl | rfl
    all_goals exact .inl ⟨rfl, rfl⟩
  case reset =>
    intro h
    have hheard : call ∈ [.clear, .forget] := hmem h
    simp only [List.mem_cons, List.not_mem_nil, or_false] at hheard
    rcases hheard with rfl | rfl
    all_goals exact .inl ⟨rfl, rfl⟩
  case tick =>
    intro _ h
    rw [sent, callsIn_runTick] at h
    obtain ⟨hbefore, hreport⟩ := eq_of_runCalls_eq h hcall
    exact .inr ⟨c.cycles, hbefore, hreport, rfl⟩
  case step =>
    intro _ _ h
    rw [sent, callsIn_runTick] at h
    obtain ⟨hbefore, hreport⟩ := eq_of_runCalls_eq h hcall
    exact .inr ⟨1, hbefore, hreport, rfl⟩
  case key =>
    intro key pressed m _ _ h
    rw [sent, callsIn_notes] at h
    exact absurd h hnothing

/-- One action: wherever an observation stands among the calls, it catches the panel up with the
registers that the action leaves. -/
theorem catchesUp_next {c : Console} {action : Action} {before after : List Call}
    {o : Observation} (h : callsIn (c.signals action) = before ++ .observe o :: after) :
    Panel.CatchesUp (before.foldl Panel.receive (Panel.of c)) o
      ((before ++ [Call.observe o]).foldl Panel.receive (Panel.of c))
      (c.next action).machine.registers := by
  rcases heard_cases h rfl with ⟨hother, -⟩ | ⟨budget, hbefore, hreport, hregisters⟩
  · cases hother
  · cases hreport
    rw [List.foldl_append, hbefore, hregisters,
      Panel.foldl_receive_of_not_toObserver fun _ => toObserver_of_mem_showCalls]
    exact Panel.catchesUp_reportOf c budget

theorem registers_next_of_forget {c : Console} {action : Action} {before after : List Call}
    (h : callsIn (c.signals action) = before ++ .forget :: after) :
    (c.next action).machine.registers = .initial := by
  rcases heard_cases h rfl with ⟨-, hfresh⟩ | ⟨budget, -, hreport, -⟩
  · exact hfresh
  · cases hreport

end Console

def Listing.heard (listing : Listing) : Call → Listing
  | .loaded new => new
  | .forget => []
  | _ => listing

theorem Panel.listing_foldl_receive (calls : List Call) (p : Panel) :
    (calls.foldl Panel.receive p).listing = calls.foldl Listing.heard p.listing := by
  induction calls generalizing p with
  | nil => rfl
  | cons call rest ih =>
    have hcall : (p.receive call).listing = p.listing.heard call := by cases call <;> rfl
    rw [List.foldl_cons, List.foldl_cons, ih, hcall]

namespace Desktop.Desk

theorem monitor_settle (explain : String → Note) (result : Except String Unit × Desk) :
    (Peripherals.settle explain result).monitor = result.2.monitor := by
  obtain ⟨outcome, d⟩ := result
  cases outcome <;> rfl

theorem monitor_beep (d : Desk) : d.beep.2.monitor = d.monitor := by
  rw [beep]
  cases d.speaker with
  | none => rfl
  | some tone =>
    have hkept : ((d.write [.beeping]).onHost (Beeper.beep tone)).2.monitor = d.monitor := rfl
    dsimp only
    generalize (d.write [.beeping]).onHost (Beeper.beep tone) = result at hkept ⊢
    obtain ⟨outcome, left⟩ := result
    cases outcome with
    | ok tone => exact hkept
    | error cause => exact hkept

/-- Whatever becomes of window and speaker, the monitor keeps the listing. -/
theorem follows_listing :
    Peripherals.Follows (fun d : Desk => d.monitor.listing) Listing.heard := by
  intro d signal
  cases signal with
  | render frame => exact congrArg Monitor.listing (monitor_settle _ _)
  | clear => exact congrArg Monitor.listing (monitor_settle _ _)
  | beep =>
    have hbeep := (monitor_settle .beepFailed d.beep).trans d.monitor_beep
    exact congrArg Monitor.listing hbeep
  | loaded listing => rfl
  | forget => rfl
  | observe o => rfl
  | note n => rfl

end Desktop.Desk

namespace Console

theorem listing_next (c : Console) (action : Action) :
    (callsIn (c.signals action)).foldl Listing.heard c.listing = (c.next action).listing := by
  have hpanel := congrArg Panel.listing (c.panel_next action)
  rwa [Panel.listing_foldl_receive] at hpanel

/-- Whatever is done with a console of any configuration that can be chosen: a panel that starts
blank, and goes by its calls alone, has the listing of the console after every action, and so has
the monitor of a desk. A tick or a single step that runs is observed once, and nothing else is. An
observation catches the panel up with the registers of the machine, naming what it does not show
already; a call to forget leaves the panel with the fresh registers that the machine has then. -/
theorem panel_mirrors_console (choices : List Config.Choice) (random : RandomBytes) {σ : Type}
    [Peripherals σ] {panel : σ → Panel} (hpanel : Peripherals.Follows panel Panel.receive)
    (world : σ) (hblank : panel world = .initial) :
    ∃ c, ofMachine (.boot (.chosen choices) random) = .ok c ∧
      ∀ actions,
        let d := (c.actAll world actions).1
        let shown := (c.actAll world actions).2
        (panel shown).listing = d.listing ∧
          (∀ desk : Desktop.Desk, desk.monitor = .initial →
            (c.actAll desk actions).2.monitor = ⟨d.listing⟩) ∧
          ∀ action,
            observes (d.signals action) = (if d.runs action then 1 else 0) ∧
            (∀ before o after, d.signals action = before ++ .observe o :: after →
              Panel.CatchesUp (panel (Peripherals.deliver shown before)) o
                (panel (Peripherals.deliver shown (before ++ [.observe o])))
                (d.next action).machine.registers) ∧
            ∀ before after, d.signals action = before ++ .forget :: after →
              let told := panel (Peripherals.deliver shown (before ++ [.forget]))
              (d.next action).machine.registers = .initial ∧
                told.v = Registers.initial.v ∧ told.i = Registers.initial.i := by
  have haccepted := Config.accepted_chosen choices
  refine ⟨fresh (.chosen choices) random, ofMachine_boot haccepted random, fun actions => ?_⟩
  have hstart : panel world = Panel.of (fresh (.chosen choices) random) := hblank
  intro d shown
  have hshown : panel shown = Panel.of d := part_actAll hpanel panel_next actions hstart
  refine ⟨congrArg Panel.listing hshown, ?desk, fun action => ⟨?once, ?observe, ?forget⟩⟩
  case desk =>
    intro desk hdesk
    have hdesk : desk.monitor.listing = (fresh (.chosen choices) random).listing :=
      congrArg Desktop.Monitor.listing hdesk
    have hlisting := part_actAll Desktop.Desk.follows_listing listing_next actions hdesk
    have hsame : (actAll (fresh (.chosen choices) random) desk actions).1 = d := by
      rw [actAll_console]
      exact (actAll_console _ world actions).symm
    rw [hsame] at hlisting
    rw [← hlisting]
  case once => exact d.observes_signals action
  case observe =>
    intro before o after hsignals
    rw [hpanel.part_deliver, hpanel.part_deliver, hshown, callsIn_append]
    apply catchesUp_next
    rw [hsignals, callsIn_append, callsIn_cons]
    rfl
  case forget =>
    intro before after hsignals told
    have htold : told = .initial := by
      unfold told
      rw [hpanel.part_deliver, callsIn_append, List.foldl_append]
      rfl
    rw [htold]
    refine ⟨?_, rfl, rfl⟩
    apply registers_next_of_forget
    rw [hsignals, callsIn_append, callsIn_cons]
    rfl

/-- A program that waits for a key and jumps back. The key fills a register behind the back of the
panel, and the next tick names it, after the panel has forgotten what it saw before a replay. -/
theorem panel_mirrors_console_after_key :
    let actions : List Action :=
      [.load [0x60, 0x05, 0xF1, 0x0A, 0x12, 0x04] true, .tick, .replay, .tick, .setKey 7 true]
    Peripherals.Follows (fun p : Panel => p) Panel.receive ∧
      ∃ c, ofMachine (.boot (.chosen [.display 3 2]) (.ofSeed 7)) = .ok c ∧
        let d := (c.actAll Panel.initial actions).1
        let shown := (c.actAll Panel.initial actions).2
        shown.listing = d.listing ∧ observes (d.signals .tick) = 1 ∧
          shown.v.toList.take 2 = [5, 0] ∧
          (c.actAll Panel.initial (actions ++ [.tick])).2.v.toList.take 2 = [5, 7] := by
  intro actions
  obtain ⟨c, hc, hall⟩ := panel_mirrors_console [.display 3 2] (.ofSeed 7) Panel.follows_self
    Panel.initial rfl
  have hfresh := ofMachine_boot (Config.accepted_chosen [.display 3 2]) (.ofSeed 7)
  obtain rfl : fresh (.chosen [.display 3 2]) (.ofSeed 7) = c :=
    Except.ok.inj (hfresh.symm.trans hc)
  obtain ⟨hlisting, -, hrest⟩ := hall actions
  obtain ⟨honce, -⟩ := hrest .tick
  have hruns : (actAll (fresh (.chosen [.display 3 2]) (.ofSeed 7)) Panel.initial
      actions).1.runs .tick = true := by decide +kernel
  rw [hruns] at honce
  exact ⟨Panel.follows_self, _, hc, hlisting, honce, by decide +kernel, by decide +kernel⟩

end Console
end ChipEight
