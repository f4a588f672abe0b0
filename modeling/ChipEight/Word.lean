/-!
Sixteen-bit words as pairs of bytes, the more significant byte first. Splitting and joining
undo each other.
-/
namespace ChipEight.Word

def ofBytes (high low : UInt8) : UInt16 := UInt16.ofNat (high.toNat * 256 + low.toNat)

def high (word : UInt16) : UInt8 := UInt8.ofNat (word.toNat / 256)

def low (word : UInt16) : UInt8 := UInt8.ofNat word.toNat

theorem toNat_ofBytes (a b : UInt8) : (ofBytes a b).toNat = a.toNat * 256 + b.toNat := by
  have ha := a.toNat_lt
  have hb := b.toNat_lt
  simp only [ofBytes, UInt16.toNat_ofNat']
  omega

theorem high_ofBytes (a b : UInt8) : high (ofBytes a b) = a := by
  have ha := a.toNat_lt
  have hb := b.toNat_lt
  apply UInt8.toNat_inj.mp
  simp only [high, toNat_ofBytes, UInt8.toNat_ofNat']
  omega

theorem low_ofBytes (a b : UInt8) : low (ofBytes a b) = b := by
  have hb := b.toNat_lt
  apply UInt8.toNat_inj.mp
  simp only [low, toNat_ofBytes, UInt8.toNat_ofNat']
  omega

theorem ofBytes_high_low (word : UInt16) : ofBytes (high word) (low word) = word := by
  have hw := word.toNat_lt
  apply UInt16.toNat_inj.mp
  simp only [toNat_ofBytes, high, low, UInt8.toNat_ofNat']
  omega

end ChipEight.Word
