import ChipEight.Layout

/-!
The register file: sixteen byte registers, the index register, the program counter and the stack
of return addresses, whose newest entry stands first.
-/
namespace ChipEight

structure Registers where
  v : Vector UInt8 16
  i : UInt16
  pc : UInt16
  stack : List UInt16
deriving DecidableEq

namespace Registers

def initial : Registers := ⟨Vector.replicate 16 0, 0, Layout.programStart, []⟩

def get (r : Registers) (x : Fin 16) : UInt8 := r.v[x]

def set (r : Registers) (x : Fin 16) (value : UInt8) : Registers :=
  { r with v := r.v.set x value }

def get? (r : Registers) (x : Nat) : Option UInt8 := r.v[x]?

def set? (r : Registers) (x : Nat) (value : UInt8) : Option Registers :=
  if h : x < 16 then some (r.set ⟨x, h⟩ value) else none

def setFlag (r : Registers) (flag : Bool) : Registers := r.set Layout.flagRegister flag.toUInt8

/-- The flag is written first, so a result that goes to the flag register replaces it. -/
def setFlagged (r : Registers) (x : Fin 16) (outcome : UInt8 × Bool) : Registers :=
  (r.setFlag outcome.2).set x outcome.1

def advance (r : Registers) : Registers := { r with pc := r.pc + 2 }

def skipIf (r : Registers) (condition : Bool) : Registers :=
  if condition then r.advance else r

def jump (r : Registers) (address : UInt16) : Registers := { r with pc := address }

def push (r : Registers) (address : UInt16) : Registers :=
  { r with stack := address :: r.stack }

def pop (r : Registers) : Option (UInt16 × Registers) :=
  match r.stack with
  | [] => none
  | address :: rest => some (address, { r with stack := rest })

def call (r : Registers) (address : UInt16) : Registers := (r.push r.pc).jump address

/-- Continues at the newest return address; without one nothing happens. -/
def ret (r : Registers) : Registers :=
  match r.pop with
  | none => r
  | some (address, r) => r.jump address

theorem get_set (r : Registers) (x y : Fin 16) (value : UInt8) :
    (r.set x value).get y = if x = y then value else r.get y := by
  simp only [get, set, Fin.getElem_fin, Vector.getElem_set, Fin.ext_iff]

theorem get_setFlagged (r : Registers) (x y : Fin 16) (outcome : UInt8 × Bool) :
    (r.setFlagged x outcome).get y =
      if x = y then outcome.1
      else if y = Layout.flagRegister then outcome.2.toUInt8 else r.get y := by
  simp only [setFlagged, setFlag, get_set, eq_comm (a := Layout.flagRegister)]

end Registers
end ChipEight
