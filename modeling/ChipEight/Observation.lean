import ChipEight.Listing
import ChipEight.Registers

/-!
What an observer is told about a tick. A watch remembers the registers of the last report, so that
the next one names only those that differ from it.
-/
namespace ChipEight

structure Observation where
  executed : List Nat
  changed : List (Fin 16 × UInt8)
  index : Option UInt16
  pc : UInt16
deriving DecidableEq, Repr

structure Watch where
  v : Vector UInt8 16
  i : UInt16
deriving DecidableEq

namespace Watch

def initial : Watch := ⟨Vector.replicate 16 0, 0⟩

def ofRegisters (r : Registers) : Watch := ⟨r.v, r.i⟩

/-- Executed places once each, in the order of their first occurrence; differing
registers by number. -/
def observe (w : Watch) (r : Registers) (executed : List Nat) : Observation where
  executed := executed.eraseDups
  changed := (List.finRange 16).filterMap fun x =>
    if r.get x = w.v.get x then none else some (x, r.get x)
  index := if r.i = w.i then none else some r.i
  pc := r.pc

end Watch
end ChipEight
