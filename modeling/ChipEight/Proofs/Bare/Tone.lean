import ChipEight.Desktop.Tone
import ChipEight.Proofs.Bare.Guarded

/-!
A tone that fills buffers in place. A buffer comes with whatever it held before. Its entries are
overwritten one after the other, and each sample of the wave is counted off. The count is lowered
only while it is not zero and every place lies within the buffer, so nothing of this breaks down;
in the end the buffer holds the next samples of the tone and nothing of what it held before.
-/
namespace ChipEight.Bare

open Desktop

namespace Tone

variable {α : Type}

def overwrite (wave : Wave α) (buffer : Array α) (t : Tone α) (place : Nat) :
    Guarded (Array α × Tone α) :=
  if t.remaining = 0 then do
    let buffer ← put buffer place wave.silence
    return (buffer, t)
  else do
    let buffer ← put buffer place (wave.value t.phase)
    let remaining ← subtract t.remaining 1
    return (buffer, { t with phase := wave.advance t.phase t.step, remaining })

def callback (wave : Wave α) (t : Tone α) (buffer : Array α) : Guarded (Array α × Tone α) :=
  (List.range buffer.size).foldlM (fun state place => overwrite wave state.1 state.2 place)
    (buffer, t)

def callbacks (wave : Wave α) (t : Tone α) : List (Array α) → Guarded (List (Array α) × Tone α)
  | [] => return ([], t)
  | buffer :: rest => do
    let (filled, t) ← callback wave t buffer
    let (others, t) ← callbacks wave t rest
    return (filled :: others, t)

variable {wave : Wave α} {buffer : Array α}

theorem overwrite_eq_ok (t : Tone α) {place : Nat} (h : place < buffer.size) :
    overwrite wave buffer t place =
      .ok (buffer.set place (t.next wave).1, (t.next wave).2) := by
  cases hremaining : t.remaining with
  | zero =>
    rw [overwrite, if_pos hremaining, put_eq_ok h, Desktop.Tone.next, hremaining]
    rfl
  | succ n =>
    have hsounds : t.remaining ≠ 0 := hremaining ▸ Nat.succ_ne_zero n
    rw [overwrite, if_neg hsounds, put_eq_ok h, ok_bind, hremaining,
      subtract_eq_ok (Nat.le_add_left 1 n), Desktop.Tone.next, hremaining]
    rfl

/-- The entries from one place on are overwritten, those before it are not touched again. -/
theorem overwrite_from {start count : Nat} (t : Tone α) (h : start + count = buffer.size) :
    (List.range' start count).foldlM (fun state place => overwrite wave state.1 state.2 place)
        (buffer, t) =
      .ok ((buffer.toList.take start ++ (t.fill wave count).1).toArray,
        (t.fill wave count).2) := by
  induction count generalizing start buffer t with
  | zero =>
    have hall : buffer.toList.take start = buffer.toList :=
      List.take_of_length_le (by rw [Array.length_toList]; omega)
    simp [hall, Desktop.Tone.fill]
  | succ count ih =>
    have hplace : start < buffer.size := by omega
    have hnext : (buffer.set start (t.next wave).1).toList.take (start + 1) =
        buffer.toList.take start ++ [(t.next wave).1] := by
      rw [Array.toList_set, List.take_add_one, List.take_set_of_le (Nat.le_refl _),
        List.getElem?_set_self (by rwa [Array.length_toList])]
      rfl
    rw [List.range'_succ, List.foldlM_cons, overwrite_eq_ok t hplace, ok_bind,
      ih _ (by rw [Array.size_set]; omega), hnext, List.append_assoc]
    rfl

theorem callback_eq_ok (wave : Wave α) (t : Tone α) (buffer : Array α) :
    callback wave t buffer =
      .ok ((t.fill wave buffer.size).1.toArray, (t.fill wave buffer.size).2) := by
  rw [callback, List.range_eq_range', overwrite_from t (Nat.zero_add _)]
  rfl

theorem callbacks_eq_ok (wave : Wave α) (t : Tone α) (buffers : List (Array α)) :
    callbacks wave t buffers =
      .ok ((t.fillAll wave (buffers.map Array.size)).1.map List.toArray,
        (t.fillAll wave (buffers.map Array.size)).2) := by
  induction buffers generalizing t with
  | nil => rfl
  | cons buffer rest ih =>
    rw [callbacks, callback_eq_ok, ok_bind]
    dsimp only
    rw [ih]
    rfl

end Tone
end ChipEight.Bare
