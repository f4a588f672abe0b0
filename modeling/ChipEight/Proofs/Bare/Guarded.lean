import Mathlib.Algebra.Group.Nat.Defs

/-!
Computing with plain numbers and arrays of which nothing is promised. An operation states what it
needs and breaks down with a fault where that fails: an index beyond its array, a result that does
not fit into its machine word, a division by zero, a slice that reaches too far, an allocation
that no address space can hold. A loop breaks down with the first fault of its body.
-/
namespace ChipEight.Bare

inductive Fault
  | index (place size : Nat)
  | overflow (bits value : Nat)
  | underflow (left right : Nat)
  | zeroDivisor
  | shift (bits amount : Nat)
  | slice (stop size : Nat)
  | allocation (bytes : Nat)
  | emptyChunk
deriving DecidableEq, Repr

abbrev Guarded (α : Type) := Except Fault α

/-- The width of a machine word that counts and indexes. -/
def wordBits : Nat := 64

def maxAllocation : Nat := 2 ^ (wordBits - 1) - 1

variable {α β σ τ : Type}

instance instDecidableEqGuarded [DecidableEq α] : DecidableEq (Guarded α)
  | .ok a, .ok b => decidable_of_iff (a = b) (Except.ok.injEq a b ▸ Iff.rfl)
  | .error a, .error b => decidable_of_iff (a = b) (Except.error.injEq a b ▸ Iff.rfl)
  | .ok _, .error _ => isFalse nofun
  | .error _, .ok _ => isFalse nofun

def require (requirement : Prop) [Decidable requirement] (fault : Fault) (value : α) :
    Guarded α :=
  if requirement then .ok value else .error fault

def fit (bits value : Nat) : Guarded Nat :=
  require (value < 2 ^ bits) (.overflow bits value) value

def subtract (left right : Nat) : Guarded Nat :=
  require (right ≤ left) (.underflow left right) (left - right)

def remainder (value divisor : Nat) : Guarded Nat :=
  require (divisor ≠ 0) .zeroDivisor (value % divisor)

def shiftRight (bits value amount : Nat) : Guarded Nat :=
  require (amount < bits) (.shift bits amount) (value >>> amount)

def allocate (bytes : Nat) : Guarded Unit :=
  require (bytes ≤ maxAllocation) (.allocation bytes) ()

def get (a : Array α) (place : Nat) : Guarded α :=
  if h : place < a.size then .ok a[place] else .error (.index place a.size)

def put (a : Array α) (place : Nat) (value : α) : Guarded (Array α) :=
  if h : place < a.size then .ok (a.set place value) else .error (.index place a.size)

/-- The entries from `start` on replaced by those of the list. -/
def splice (a : Array α) (start : Nat) (source : List α) : Array α :=
  a.extract 0 start ++ source.toArray ++ a.extract (start + source.length) a.size

def copy (a : Array α) (start : Nat) (source : List α) : Guarded (Array α) := do
  let stop ← fit wordBits (start + source.length)
  require (stop ≤ a.size) (.slice stop a.size) (splice a start source)

/-- The list cut into chunks of one length, the last one possibly shorter. -/
def chunks (length : Nat) (items : List α) : Guarded (List (List α)) :=
  require (length ≠ 0) .emptyChunk
    ((List.range ((items.length + length - 1) / length)).map fun k =>
      (items.drop (k * length)).take length)

@[simp] theorem ok_bind (a : α) (f : α → Guarded β) : (Except.ok a >>= f : Guarded β) = f a := rfl

@[simp] theorem pure_eq_ok (a : α) : (pure a : Guarded α) = .ok a := rfl

theorem require_eq_ok {requirement : Prop} [Decidable requirement] (h : requirement)
    (fault : Fault) (value : α) : require requirement fault value = .ok value := if_pos h

theorem fit_eq_ok {bits value : Nat} (h : value < 2 ^ bits) : fit bits value = .ok value :=
  require_eq_ok h ..

theorem subtract_eq_ok {left right : Nat} (h : right ≤ left) :
    subtract left right = .ok (left - right) := require_eq_ok h ..

theorem remainder_eq_ok {value divisor : Nat} (h : 0 < divisor) :
    remainder value divisor = .ok (value % divisor) := require_eq_ok (Nat.ne_of_gt h) ..

theorem shiftRight_eq_ok {bits amount : Nat} (h : amount < bits) (value : Nat) :
    shiftRight bits value amount = .ok (value >>> amount) := require_eq_ok h ..

theorem allocate_eq_ok {bytes : Nat} (h : bytes ≤ maxAllocation) : allocate bytes = .ok () :=
  require_eq_ok h ..

theorem get_eq_ok {a : Array α} {place : Nat} (h : place < a.size) : get a place = .ok a[place] :=
  dif_pos h

theorem put_eq_ok {a : Array α} {place : Nat} (h : place < a.size) (value : α) :
    put a place value = .ok (a.set place value) := dif_pos h

theorem lt_wordBits_of_le {n : Nat} (h : n ≤ maxAllocation) : n < 2 ^ wordBits := by
  simp only [maxAllocation, wordBits] at h ⊢
  omega

theorem copy_eq_ok {a : Array α} {start : Nat} {source : List α}
    (h : start + source.length ≤ a.size) (hword : start + source.length < 2 ^ wordBits) :
    copy a start source = .ok (splice a start source) := by
  rw [copy, fit_eq_ok hword, ok_bind, require_eq_ok h]

theorem size_splice {a : Array α} {start : Nat} {source : List α}
    (h : start + source.length ≤ a.size) : (splice a start source).size = a.size := by
  simp only [splice, Array.size_append, Array.size_extract, List.size_toArray]
  omega

theorem getElem_splice {a : Array α} {start : Nat} {source : List α}
    (h : start + source.length ≤ a.size) {k : Nat} (hk : k < a.size)
    (hsplice : k < (splice a start source).size) :
    (splice a start source)[k] = if start ≤ k then source[k - start]?.getD a[k] else a[k] := by
  have hstart : min start a.size = start := Nat.min_eq_left (by omega)
  simp only [splice, Array.getElem_append, Array.getElem_extract, Array.size_append,
    Array.size_extract, List.size_toArray, hstart, Nat.sub_zero, Nat.zero_add,
    List.getElem_toArray]
  by_cases hbefore : k < start
  · rw [dif_pos (by omega), dif_pos hbefore, if_neg (by omega)]
  · rw [if_pos (by omega)]
    by_cases hwithin : k < start + source.length
    · rw [dif_pos hwithin, dif_neg hbefore, List.getElem?_eq_getElem (by omega)]
      rfl
    · rw [dif_neg hwithin, List.getElem?_eq_none (by omega)]
      congr 1
      omega

theorem chunks_eq_ok {length count : Nat} (hlength : 0 < length) {items : List α}
    (hitems : items.length = length * count) :
    chunks length items = .ok ((List.range count).map fun k =>
      (items.drop (k * length)).take length) := by
  have hcount : (items.length + length - 1) / length = count := by
    rw [hitems]
    apply Nat.div_eq_of_lt_le
    · rw [Nat.mul_comm]
      omega
    · rw [Nat.succ_mul, Nat.mul_comm]
      omega
  rw [chunks, require_eq_ok (Nat.ne_of_gt hlength), hcount]

/-- A vector has an entry for each of its places, and stays one when an entry is replaced. -/
theorem get_toArray {n : Nat} (v : Vector α n) {place : Nat} (h : place < n) :
    get v.toArray place = .ok v[place] :=
  get_eq_ok (by rw [v.size_toArray]; exact h)

theorem put_toArray {n : Nat} (v : Vector α n) {place : Nat} (h : place < n) (value : α) :
    put v.toArray place value = .ok (v.set place value).toArray :=
  put_eq_ok (by rw [v.size_toArray]; exact h) value

/-- A loop whose body follows a step on encoded states follows the whole fold. -/
theorem foldlM_eq_ok (encode : σ → τ) {step : σ → α → σ} {body : τ → α → Guarded τ}
    {items : List α}
    (hbody : ∀ s, ∀ item ∈ items, body (encode s) item = .ok (encode (step s item))) (s : σ) :
    items.foldlM body (encode s) = .ok (encode (items.foldl step s)) := by
  induction items generalizing s with
  | nil => rfl
  | cons item rest ih =>
    rw [List.foldlM_cons, hbody s item (List.mem_cons_self ..), ok_bind, List.foldl_cons]
    exact ih (fun t next hnext => hbody t next (List.mem_cons_of_mem _ hnext)) (step s item)

/-- A loop over the items alone computes them one by one. -/
theorem mapM_eq_ok {f : α → β} {body : α → Guarded β} {items : List α}
    (hbody : ∀ item ∈ items, body item = .ok (f item)) :
    items.mapM body = .ok (items.map f) := by
  induction items with
  | nil => rfl
  | cons item rest ih =>
    rw [List.mapM_cons, hbody item (List.mem_cons_self ..),
      ih fun next hnext => hbody next (List.mem_cons_of_mem _ hnext)]
    rfl

theorem filterMapM_eq_ok {encode : σ → α} {f : σ → Option β} {body : α → Guarded (Option β)}
    {items : List σ} (hbody : ∀ item ∈ items, body (encode item) = .ok (f item)) :
    (items.map encode).filterMapM body = .ok (items.filterMap f) := by
  induction items with
  | nil => rfl
  | cons item rest ih =>
    rw [List.map_cons, List.filterMapM_cons, hbody item (List.mem_cons_self ..), ok_bind,
      ih fun next hnext => hbody next (List.mem_cons_of_mem _ hnext), List.filterMap_cons]
    cases f item <;> rfl

/-! A computation that has not broken down met every requirement on its way. -/

theorem exists_of_bind_eq_ok {first : Guarded α} {next : α → Guarded β} {result : β}
    (h : first >>= next = .ok result) : ∃ a, first = .ok a ∧ next a = .ok result := by
  cases first with
  | error fault => cases h
  | ok a => exact ⟨a, rfl, h⟩

theorem of_require_eq_ok {requirement : Prop} [Decidable requirement] {fault : Fault}
    {value result : α} (h : require requirement fault value = .ok result) :
    requirement ∧ value = result := by
  rw [require] at h
  split at h
  · next hmet =>
    cases h
    exact ⟨hmet, rfl⟩
  · cases h

theorem mem_of_get_eq_ok {a : Array α} {place : Nat} {value : α} (h : get a place = .ok value) :
    value ∈ a := by
  rw [get] at h
  split at h
  · cases h
    exact Array.getElem_mem _
  · cases h

theorem exists_of_put_eq_ok {a b : Array α} {place : Nat} {value : α}
    (h : put a place value = .ok b) : ∃ hplace : place < a.size, a.set place value = b := by
  rw [put] at h
  split at h
  · next hplace =>
    cases h
    exact ⟨hplace, rfl⟩
  · cases h

/-- What every turn of a loop keeps, the loop keeps. -/
theorem foldlM_keeps {P : τ → Prop} {body : τ → α → Guarded τ}
    (hbody : ∀ {s item t}, P s → body s item = .ok t → P t) {items : List α} {s t : τ} (hs : P s)
    (h : items.foldlM body s = .ok t) : P t := by
  induction items generalizing s with
  | nil =>
    cases h
    exact hs
  | cons item rest ih =>
    rw [List.foldlM_cons] at h
    obtain ⟨next, hnext, hrest⟩ := exists_of_bind_eq_ok h
    exact ih (hbody hs hnext) hrest

example : get #[1, 2] 2 = .error (.index 2 2) := rfl

end ChipEight.Bare
