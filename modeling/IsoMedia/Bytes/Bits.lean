import IsoMedia.Machine

/-!
# Reading single bits

A run of bytes is one string of bits, the most significant bit of each byte first.  `BitCursor`
is a place in it; a failing read leaves the place where it was.  A skip halts the machine, or goes
astray, where its distance is no word.
-/

namespace IsoMedia

/-- The lowest `width` bits of a number, the most significant one first. -/
def bitsOfNumber : (width n : Nat) → List Bool
  | 0, _ => []
  | width + 1, n => n.testBit width :: bitsOfNumber width n

/-- A place in a string of bits. -/
structure BitCursor where
  /-- All bytes, those before the place too. -/
  bytes : ByteArray
  /-- The number of the byte that the next bit lies in. -/
  place : Nat
  /-- How many bits of that byte are already read. -/
  used : Nat

namespace BitCursor

/-- The first bit of bytes. -/
def first (bytes : ByteArray) : BitCursor := ⟨bytes, 0, 0⟩

/-- The first bit of a run of bytes. -/
def start (bs : List UInt8) : BitCursor := first ⟨bs.toArray⟩

/-- The number of unread bits. -/
def left (c : BitCursor) : Nat := (c.bytes.size - c.place) * 8 - c.used

/-- Bits `used` to `used + n` of a byte, as a number. -/
def slice (b : UInt8) (used n : Nat) : Nat := (b.toNat >>> (8 - used - n)) % (1 <<< n)

/-- The next `n` bits put behind the bits `acc`, a byte at a time. -/
def collect (n acc : Nat) (c : BitCursor) : Nat × BitCursor :=
  if c.place < c.bytes.size then
    let b := c.bytes.get! c.place
    let here := 8 - c.used
    if n < here then ((acc <<< n) + slice b c.used n, { c with used := c.used + n })
    else collect (n - here) ((acc <<< here) + slice b c.used here)
      { c with place := c.place + 1, used := 0 }
  else (acc, c)
termination_by c.bytes.size - c.place

/-- Read `n` bits as one number, at most a word of them. -/
def read (n : Nat) (c : BitCursor) : Except Error (UInt32 × BitCursor) :=
  if 32 < n then .error (.invalidArgument (.tooManyBits n))
  else if c.left < n then malformed (.bitsPastEnd n c.left)
  else
    let (v, c') := collect n 0 c
    .ok (UInt32.ofNat v, c')

/-- Read one bit. -/
def readBit (c : BitCursor) : Except Error (Bool × BitCursor) := do
  let (v, c') ← c.read 1
  return (v == 1, c')

/-- Pass over `n` bits.  The distance from the start of the current byte is reckoned in a word of
32 bits. -/
def skip (o : Overflow) (n : UInt32) (c : BitCursor) : Machine BitCursor :=
  if c.left < n.toNat then Machine.of (malformed .skipPastEnd)
  else do
    let total ← o.add 32 c.used n.toNat
    return { c with place := c.place + total / 8, used := total % 8 }

end BitCursor

end IsoMedia
