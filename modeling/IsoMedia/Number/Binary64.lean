/-!
# Doubles as bits

A double is read from a file as eight bytes.  Its whole part is found from its bits.
-/

namespace IsoMedia.Binary64

/-- The eleven bits of the exponent. -/
def exponent (bits : UInt64) : Nat := (bits.toNat >>> 52) % 2048

/-- The fifty-two bits behind the leading one. -/
def fraction (bits : UInt64) : Nat := bits.toNat % (1 <<< 52)

def isNegative (bits : UInt64) : Bool := 1 <<< 63 ≤ bits.toNat

/-- Whether the bits stand for no number. -/
def isNaN (bits : UInt64) : Bool := exponent bits = 2047 && fraction bits ≠ 0

/-- The whole part of a number as a word of 32 bits.  What is too large becomes the largest word,
and what is negative or no number becomes 0. -/
def toUInt32 (bits : UInt64) : UInt32 :=
  let e := exponent bits
  if isNaN bits ∨ isNegative bits ∨ e < 1023 then 0
  else if 1023 + 32 ≤ e then 0xFFFFFFFF
  else UInt32.ofNat (((1 <<< 52) + fraction bits) >>> (1075 - e))

end IsoMedia.Binary64
