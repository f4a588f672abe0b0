import ChipEight.Random.Keystream

/-!
The random bytes of a machine: an endless stream of which some beginning has been used up.
-/
namespace ChipEight

structure RandomBytes where
  stream : Nat → UInt8
  used : Nat

namespace RandomBytes

def ofStream (stream : Nat → UInt8) : RandomBytes := ⟨stream, 0⟩

def ofSeed (seed : UInt64) : RandomBytes := ofStream (Random.Keystream.byteAt seed)

def next (r : RandomBytes) : UInt8 := r.stream r.used

def skipOne (r : RandomBytes) : RandomBytes := { r with used := r.used + 1 }

end RandomBytes
end ChipEight
