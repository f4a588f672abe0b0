import ChipEight.Proofs.FailingPeripherals
import ChipEight.Proofs.Panel
import Mathlib.Data.List.Induction
import Mathlib.Data.List.Nodup

/-!
The executed places that an observer is told. They are collected one after the other, and a place
is kept unless it has been kept before. At each moment what is kept stands for the places that
have come by: all of them, each once, in the order in which they came first. A list that names
nothing twice is kept as it is.
-/
namespace ChipEight

/-- The entries of a list that have not occurred before them. -/
def newEntries (places : List Nat) : List Nat :=
  (List.range places.length).filterMap fun k =>
    places[k]?.filter fun place => place ∉ places.take k

theorem newEntries_append_singleton (places : List Nat) (place : Nat) :
    newEntries (places ++ [place]) =
      newEntries places ++ if place ∈ places then [] else [place] := by
  have hearlier : ∀ k ∈ List.range places.length,
      ((places ++ [place])[k]?.filter fun other => other ∉ (places ++ [place]).take k) =
        places[k]?.filter fun other => other ∉ places.take k := by
    intro k hk
    have hlt := List.mem_range.mp hk
    rw [List.getElem?_append_left hlt, List.take_append_of_le_length (Nat.le_of_lt hlt)]
  rw [newEntries, List.length_append, List.length_singleton, List.range_succ,
    List.filterMap_append, List.filterMap_congr hearlier, ← newEntries]
  have hlast : (places ++ [place])[places.length]? = some place := by simp
  rw [List.filterMap_cons, hlast, List.take_left]
  by_cases hmem : place ∈ places <;> simp [Option.filter, hmem]

/-- The told places are the executed ones, each once, in the order in which they occur first: the
executed list without what has occurred in it before. -/
structure TellsOnce (executed told : List Nat) : Prop where
  nodup : told.Nodup
  mem_iff : ∀ place, place ∈ told ↔ place ∈ executed
  ordered : told.Pairwise fun first second => executed.idxOf first < executed.idxOf second
  eq_newEntries : told = newEntries executed

namespace Watch

def keep (kept : List Nat) (place : Nat) : List Nat :=
  if place ∈ kept then kept else kept ++ [place]

section Keep

variable {executed told : List Nat}

/-- What comes by later does not change which of two places came first. -/
theorem ordered_append_singleton (h : TellsOnce executed told) (place : Nat) :
    told.Pairwise fun first second =>
      (executed ++ [place]).idxOf first < (executed ++ [place]).idxOf second := by
  apply h.ordered.imp_of_mem
  intro first second hfirst hsecond hlt
  rw [List.idxOf_append_of_mem ((h.mem_iff first).mp hfirst),
    List.idxOf_append_of_mem ((h.mem_iff second).mp hsecond)]
  exact hlt

/-- One more place comes by. -/
theorem tellsOnce_keep (h : TellsOnce executed told) (place : Nat) :
    TellsOnce (executed ++ [place]) (keep told place) := by
  by_cases hkept : place ∈ told
  · have hexecuted := (h.mem_iff place).mp hkept
    rw [keep, if_pos hkept]
    refine ⟨h.nodup, fun other => ?mem_iff, ordered_append_singleton h place, ?eq_newEntries⟩
    case mem_iff =>
      rw [h.mem_iff, List.mem_append, List.mem_singleton, or_iff_left_of_imp]
      rintro rfl
      exact hexecuted
    case eq_newEntries =>
      rw [newEntries_append_singleton, if_pos hexecuted, List.append_nil]
      exact h.eq_newEntries
  · have hexecuted : place ∉ executed := mt (h.mem_iff place).mpr hkept
    rw [keep, if_neg hkept]
    refine ⟨?nodup, fun other => ?mem_iff, ?ordered, ?eq_newEntries⟩
    case nodup =>
      rw [← List.concat_eq_append]
      exact h.nodup.concat hkept
    case mem_iff => rw [List.mem_append, List.mem_append, h.mem_iff]
    case ordered =>
      refine List.pairwise_append.mpr
        ⟨ordered_append_singleton h place, List.pairwise_singleton .., ?_⟩
      intro first hfirst second hsecond
      have hbefore := (h.mem_iff first).mp hfirst
      rw [List.mem_singleton.mp hsecond, List.idxOf_append_of_mem hbefore,
        List.idxOf_append_of_notMem hexecuted]
      exact Nat.lt_add_right _ (List.idxOf_lt_length_of_mem hbefore)
    case eq_newEntries =>
      rw [newEntries_append_singleton, if_neg hexecuted, ← h.eq_newEntries]

theorem tellsOnce_foldl_keep (executed : List Nat) :
    TellsOnce executed (executed.foldl keep []) := by
  induction executed using List.reverseRecOn with
  | nil => exact ⟨List.nodup_nil, fun _ => Iff.rfl, .nil, rfl⟩
  | append_singleton before place ih =>
    rw [List.foldl_append]
    exact tellsOnce_keep ih place

/-- A list that names nothing twice is kept as it is. -/
theorem foldl_keep_of_nodup (h : told.Nodup) : told.foldl keep [] = told := by
  induction told using List.reverseRecOn with
  | nil => rfl
  | append_singleton before place ih =>
    rw [← List.concat_eq_append, List.nodup_concat] at h
    obtain ⟨hnew, hbefore⟩ := h
    rw [List.foldl_append, ih hbefore]
    exact if_neg hnew

theorem eraseDups_eq_foldl_keep (executed : List Nat) :
    executed.eraseDups = executed.foldl keep [] := by
  induction executed using List.reverseRecOn with
  | nil => rfl
  | append_singleton before place ih =>
    have hkept := (tellsOnce_foldl_keep before).mem_iff place
    rw [List.eraseDups_append, List.foldl_append, ih, List.foldl_cons, List.foldl_nil, keep]
    by_cases hmem : place ∈ before <;> simp [hkept, hmem, List.removeAll, List.eraseDups_cons]

end Keep

/-- Observing goes through the executed places once and keeps what is new. -/
theorem executed_observe (w : Watch) (r : Registers) (executed : List Nat) :
    (w.observe r executed).executed = executed.foldl keep [] := eraseDups_eq_foldl_keep executed

end Watch

def Call.observation? : Call → Option Observation
  | observe o => some o
  | _ => none

def observationsIn (calls : List Call) : List Observation := calls.filterMap Call.observation?

def Observation.hear (told : List Observation) (call : Call) : List Observation :=
  told ++ call.observation?.toList

theorem Observation.foldl_hear (told : List Observation) (calls : List Call) :
    calls.foldl hear told = told ++ observationsIn calls := by
  induction calls generalizing told with
  | nil => exact (List.append_nil told).symm
  | cons call rest ih =>
    rw [List.foldl_cons, ih, hear, List.append_assoc, observationsIn, observationsIn,
      List.filterMap_cons]
    cases call.observation? <;> rfl

/-- The observations on record are all that have been made. -/
theorem Recorded.follows_observations {σ : Type} [Peripherals σ] :
    Peripherals.Follows (fun r : Recorded σ => observationsIn r.calls) Observation.hear := by
  intro r signal
  dsimp only
  rw [receive_eq, observationsIn, List.filterMap_append]
  cases signal.call? with
  | none => exact List.append_nil _
  | some call =>
    rw [Option.toList_some, List.filterMap_cons]
    cases h : call.observation? <;> simp [Observation.hear, observationsIn, h]

namespace Console

def budget (c : Console) : Action → Nat
  | .tick => c.cycles
  | _ => 1

theorem callsOf_of_runs {c : Console} {action : Action} (h : c.runs action = true) :
    c.callsOf action = c.runCalls (c.budget action) := by
  cases action with
  | tick =>
    rw [runs, decide_eq_true_eq] at h
    exact if_pos h
  | stepOnce => exact if_pos h
  | _ => cases h

theorem observationsIn_eq_nil_iff (calls : List Call) :
    observationsIn calls = [] ↔ ∀ call ∈ calls, call.isObserve = false := by
  rw [observationsIn, List.filterMap_eq_nil_iff]
  apply forall₂_congr
  intro call _
  cases call <;> simp [Call.observation?, Call.isObserve]

/-- The report is the only observation of a run. -/
theorem observationsIn_runCalls (c : Console) (budget : Nat) :
    observationsIn (c.runCalls budget) = [c.reportOf budget] := by
  have hquiet : observationsIn (c.showCalls budget) = [] := by
    rw [observationsIn_eq_nil_iff]
    intro call hmem
    have hother := toObserver_of_mem_showCalls hmem
    cases call with
    | observe o => cases hother
    | _ => rfl
  rw [runCalls, observationsIn, List.filterMap_append, ← observationsIn, hquiet]
  rfl

theorem observationsIn_signals (c : Console) (action : Action) :
    observationsIn (callsIn (c.signals action)) =
      if c.runs action then [c.reportOf (c.budget action)] else [] := by
  by_cases hruns : c.runs action = true
  · rw [if_pos hruns, callsIn_signals, callsOf_of_runs hruns, observationsIn_runCalls]
  · have hnone := c.observes_signals action
    rw [if_neg hruns, observes, List.countP_eq_zero] at hnone
    rw [if_neg hruns, observationsIn_eq_nil_iff]
    exact fun call hcall => eq_false_of_ne_true (hnone call hcall)

/-- An observer that takes down what it is told, beside devices of any kind. A tick or a
single step that runs tells it one observation, and nothing else does. The executed places in
there are those of the tick, whatever the machine: each once, in the order in which they occur
first, so they are the executed ones without those that occurred earlier. Observed again they
stay the same. -/
theorem executed_places_told_once {σ : Type} [Peripherals σ] {told : σ → List Observation}
    (htold : Peripherals.Follows told Observation.hear) (world : σ) (c : Console)
    (action : Action) :
    let after := Peripherals.deliver world (c.signals action)
    (c.runs action = false → told after = told world) ∧
      (c.runs action = true → ∃ o, told after = told world ++ [o] ∧
        TellsOnce (c.machine.tick (c.budget action)).1.executed o.executed ∧
        ∀ w r, (Watch.observe w r o.executed).executed = o.executed) := by
  intro after
  have hafter : told after =
      told world ++ if c.runs action then [c.reportOf (c.budget action)] else [] := by
    rw [htold.part_deliver, Observation.foldl_hear, observationsIn_signals]
  refine ⟨fun hquiet => ?_, fun hruns => ⟨c.reportOf (c.budget action), ?_, ?_⟩⟩
  · rw [hafter, hquiet]
    exact List.append_nil _
  · rw [hafter, if_pos hruns]
  · have honce : TellsOnce (c.machine.tick (c.budget action)).1.executed
        (c.reportOf (c.budget action)).executed := by
      rw [reportOf, Watch.executed_observe]
      exact Watch.tellsOnce_foldl_keep _
    refine ⟨honce, fun w r => ?_⟩
    rw [Watch.executed_observe]
    exact Watch.foldl_keep_of_nodup honce.nodup

/-- A program that goes round through its three words, not in their order, before
devices that fail. -/
theorem executed_places_told_once_of_loop :
    let c := (fresh .standard (.ofSeed 7)).after [.load [0x12, 0x04, 0x12, 0x00, 0x12, 0x02] true]
    let world : Recorded Flaky := ⟨⟨[true, true], 0⟩, []⟩
    Peripherals.Follows (fun r : Recorded Flaky => observationsIn r.calls) Observation.hear ∧
      (c.machine.tick 10).1.executed = [0, 2, 1, 0, 2, 1, 0, 2, 1, 0] ∧
      c.runs .tick = true ∧
      ∃ o, observationsIn (Peripherals.deliver world (c.signals .tick)).calls = [o] ∧
        TellsOnce [0, 2, 1, 0, 2, 1, 0, 2, 1, 0] o.executed ∧ o.executed = [0, 2, 1] := by
  intro c world
  obtain ⟨hruns, hexecuted, hcycles⟩ : c.runs .tick = true ∧
      (c.machine.tick 10).1.executed = [0, 2, 1, 0, 2, 1, 0, 2, 1, 0] ∧ c.cycles = 10 := by
    decide +kernel
  obtain ⟨-, hran⟩ :=
    executed_places_told_once Recorded.follows_observations world c .tick
  obtain ⟨o, htold, honce, -⟩ := hran hruns
  rw [budget, hcycles, hexecuted] at honce
  refine ⟨Recorded.follows_observations, hexecuted, hruns, o, htold, honce, ?_⟩
  rw [honce.eq_newEntries]
  decide

end Console
end ChipEight
