import IsoMedia.Bytes.Bits

/-!
# Writing gzip files

`Gzip.pack` puts bytes into the gzip format.  All of them are in one block, in which every byte has its
fixed code and nothing refers to what was there before.
-/

namespace IsoMedia.Gzip

/-- One step of a checksum by eight bits. -/
def checksumBits : Nat → UInt32 → UInt32
  | 0, c => c
  | n + 1, c => checksumBits n (if c &&& 1 = 1 then (c >>> 1) ^^^ 0xEDB88320 else c >>> 1)

/-- The checksum of bytes: the remainder of the reversed polynomial of degree 32. -/
def checksum (bs : List UInt8) : UInt32 :=
  bs.foldl (fun c b => checksumBits 8 (c ^^^ b.toUInt32)) 0xFFFFFFFF ^^^ 0xFFFFFFFF

/-- A number in `width` bytes, the least significant byte first. -/
def littleEndian : (width n : Nat) → List UInt8
  | 0, _ => []
  | width + 1, n => UInt8.ofNat n :: littleEndian width (n / 256)

/-- The number that bits spell, the least significant bit first. -/
def ofLowFirst : List Bool → Nat
  | [] => 0
  | b :: bits => b.toNat + 2 * ofLowFirst bits

/-- Bytes that are filled with bits from the least significant one on. -/
def bytesOfBits (bits : List Bool) : List UInt8 :=
  if _more : bits ≠ [] then UInt8.ofNat (ofLowFirst (bits.take 8)) :: bytesOfBits (bits.drop 8)
  else []
termination_by bits.length
decreasing_by
  have := List.length_pos_iff.2 _more
  rw [List.length_drop]
  omega

/-- The fixed code of a byte. -/
def code (b : UInt8) : List Bool :=
  if b.toNat < 144 then bitsOfNumber 8 (0x30 + b.toNat) else bitsOfNumber 9 (0x100 + b.toNat)

/-- The code behind the last byte. -/
def endCode : List Bool := bitsOfNumber 7 0

/-- A block.  The first bit marks the last block, and the next two tell that its codes are fixed. -/
def block (bs : List UInt8) : List Bool := true :: true :: false :: (bs.flatMap code ++ endCode)

/-- The first bytes of a file: the format, the method, and neither flags nor a time. -/
def header : List UInt8 := [0x1f, 0x8b, 8, 0, 0, 0, 0, 0, 0, 255]

/-- What stands at the end of a file: the checksum and the length of its content. -/
def trailer (bs : List UInt8) : List UInt8 :=
  littleEndian 4 (checksum bs).toNat ++ littleEndian 4 bs.length

/-- A file in the gzip format. -/
def pack (content : ByteArray) : ByteArray :=
  let bs := content.data.toList
  ⟨(header ++ bytesOfBits (block bs) ++ trailer bs).toArray⟩

end IsoMedia.Gzip
