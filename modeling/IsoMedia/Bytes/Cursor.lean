import IsoMedia.Error

/-!
# Reading big-endian fields

`Cursor` is a place in a run of bytes, `Decode α` a computation that reads fields from there on.
A read that needs more bytes than are left fails and names the place, the need and what is left.
-/

namespace IsoMedia

/-- The number that bytes spell, the most significant byte first. -/
def bigEndian (bs : List UInt8) : Nat := bs.foldl (fun n b => n * 256 + b.toNat) 0

/-- A place in a run of bytes: what is still unread, and how much was read before it. -/
structure Cursor where
  rest : List UInt8
  pos : Nat
deriving DecidableEq

/-- The version and the flags at the head of many boxes. -/
structure VersionFlags where
  version : UInt8
  /-- The low 24 bits. -/
  flags : UInt32
deriving DecidableEq

/-- Whether bit 0 of the flags is set. -/
def VersionFlags.lowBit (f : VersionFlags) : Bool := f.flags &&& 1 != 0

/-- Reading fields one after the other. -/
abbrev Decode (α : Type) := StateT Cursor (Except Error) α

namespace Decode

/-- Read a whole run of bytes from its start; bytes that are left over do not matter. -/
def parse {α : Type} (p : Decode α) (bs : List UInt8) : Except Error α :=
  match p.run ⟨bs, 0⟩ with
  | .ok (a, _) => .ok a
  | .error e => .error e

/-- Give up for the given reason. -/
def refuse {α : Type} (e : Error) : Decode α := fun _ => .error e

/-- Replace whatever failure of `p` by `e`. -/
def orRefuse {α : Type} (p : Decode α) (e : Error) : Decode α := fun c =>
  match p c with
  | .ok r => .ok r
  | .error _ => .error e

/-- The next `n` bytes. -/
def bytes (n : Nat) : Decode (List UInt8) := fun c =>
  let taken := c.rest.take n
  if taken.length = n then .ok (taken, ⟨c.rest.drop n, c.pos + n⟩)
  else malformed (.readPastEnd c.pos n c.rest.length)

/-- Pass over `n` bytes. -/
def skip (n : Nat) : Decode Unit := do
  let _ ← bytes n

/-- All bytes from here on, left unread. -/
def rest : Decode (List UInt8) := fun c => .ok (c.rest, c)

/-- How many bytes are left. -/
def left : Decode Nat := fun c => .ok (c.rest.length, c)

/-- Whether nothing is left. -/
def atEnd : Decode Bool := fun c => .ok (c.rest.isEmpty, c)

/-- The next `n` bytes as one number. -/
def number (n : Nat) : Decode Nat := do
  return bigEndian (← bytes n)

def u8 : Decode UInt8 := do return UInt8.ofNat (← number 1)
def u16 : Decode UInt16 := do return UInt16.ofNat (← number 2)
def u24 : Decode UInt32 := do return UInt32.ofNat (← number 3)
def u32 : Decode UInt32 := do return UInt32.ofNat (← number 4)
def u64 : Decode UInt64 := do return UInt64.ofNat (← number 8)
def i16 : Decode Int16 := do return (← u16).toInt16
def i32 : Decode Int32 := do return (← u32).toInt32
def i64 : Decode Int64 := do return (← u64).toInt64

/-- A type code; the four bytes are there once `bytes 4` succeeds. -/
def fourCc : Decode FourCc := do
  match ← bytes 4 with
  | [a, b, c, d] => return ⟨a, b, c, d⟩
  | _ => return FourCc.zero

/-- One byte of version and three bytes of flags. -/
def versionFlags : Decode VersionFlags := do
  let v ← u32
  return ⟨(v >>> 24).toUInt8, v &&& 0x00FFFFFF⟩

/-- `n` rows put in front of the rows already read, which are kept in reverse. -/
def rowsFrom {α : Type} (row : Decode α) : Nat → List α → Decode (List α)
  | 0, acc, c => .ok (acc.reverse, c)
  | n + 1, acc, c =>
    match row c with
    | .ok (a, c') => rowsFrom row n (a :: acc) c'
    | .error e => .error e

/-- `n` rows of the same form. -/
def rows {α : Type} (n : Nat) (row : Decode α) : Decode (List α) := rowsFrom row n []

/-- Refuse a declared number of entries that the bytes left cannot hold. -/
def roomFor (table : FourCc) (count width : Nat) : Decode Unit := fun c =>
  let n := c.rest.length
  if n / width < count then malformed (.entryCount table count n) else .ok ((), c)

/-- A declared number of rows of `width` bytes each. -/
def table {α : Type} (name : FourCc) (width : Nat) (row : Decode α) : Decode (List α) := do
  let count := (← u32).toNat
  roomFor name count width
  rows count row

end Decode

end IsoMedia
