/-!
# Four-byte type codes

Boxes, brands, handlers and sample formats are all named by four bytes.  A code is compared
byte by byte; `FourCc.text` is only for people and replaces every byte that is not printable
ASCII.
-/

namespace IsoMedia

/-- A four-byte type code. -/
@[ext] structure FourCc where
  b0 : UInt8
  b1 : UInt8
  b2 : UInt8
  b3 : UInt8
deriving DecidableEq

namespace FourCc

/-- The code spelled by four ASCII characters. -/
def ofChars (a b c d : Char) : FourCc :=
  ⟨a.toNat.toUInt8, b.toNat.toUInt8, c.toNat.toUInt8, d.toNat.toUInt8⟩

/-- The code of a box without one: four zero bytes. -/
def zero : FourCc := ⟨0, 0, 0, 0⟩

/-- The four bytes as they stand in a file. -/
def bytes (f : FourCc) : List UInt8 := [f.b0, f.b1, f.b2, f.b3]

@[simp] theorem length_bytes (f : FourCc) : f.bytes.length = 4 := rfl

/-- A byte as shown to people: printable ASCII as itself, anything else as a question mark. -/
def shown (b : UInt8) : Char := if 0x20 ≤ b ∧ b ≤ 0x7e then Char.ofNat b.toNat else '?'

/-- The code as shown to people. -/
def text (f : FourCc) : String := String.ofList (f.bytes.map shown)

end FourCc

end IsoMedia
