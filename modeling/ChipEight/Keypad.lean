import ChipEight.Rejection

/-!
The sixteen keys, and the suspended state of a program that waits for one of them. Only a press
ends the wait; releases and codes beyond the keypad do not.
-/
namespace ChipEight

inductive Execution
  | running
  | awaitingKey (register : Fin 16)
deriving DecidableEq, Repr

structure Keypad where
  pressed : Vector Bool 16
  execution : Execution
deriving DecidableEq

namespace Keypad

def initial : Keypad := ⟨Vector.replicate 16 false, .running⟩

/-- A code beyond the keypad is never pressed. -/
def isPressed (k : Keypad) (key : UInt8) : Bool := k.pressed[key.toNat]?.getD false

def isAwaiting (k : Keypad) : Bool := k.execution != .running

def await (k : Keypad) (register : Fin 16) : Keypad :=
  { k with execution := .awaitingKey register }

/-- The register that a key event fills: the awaited one, at a press. -/
def awaited (k : Keypad) (pressed : Bool) : Option (Fin 16) :=
  match k.execution, pressed with
  | .awaitingKey register, true => some register
  | _, _ => none

/-- Records a key event; a press also ends the wait for a key. -/
def setKey (k : Keypad) (key : UInt8) (pressed : Bool) : Except Rejection Keypad :=
  if h : key.toNat < 16 then
    .ok {
      pressed := k.pressed.set key.toNat pressed h
      execution := if pressed then .running else k.execution }
  else .error (.keyOutOfRange key)

theorem isPressed_setKey {k l : Keypad} {key : UInt8} {pressed : Bool}
    (h : k.setKey key pressed = .ok l) (j : UInt8) :
    l.isPressed j = if j = key then pressed else k.isPressed j := by
  unfold setKey at h
  split at h
  · next hkey =>
    cases h
    simp only [isPressed, Vector.getElem?_set, UInt8.toNat_inj, eq_comm (a := key)]
    split <;> rfl
  · next => cases h

theorem setKey_eq_error_iff (k : Keypad) (key : UInt8) (pressed : Bool) :
    k.setKey key pressed = .error (.keyOutOfRange key) ↔ 16 ≤ key.toNat := by
  unfold setKey
  split
  · next h => simp [Nat.not_le.mpr h]
  · next h => simp [Nat.not_lt.mp h]

end Keypad
end ChipEight
