import IsoMedia.Codec.AnnexB
import IsoMedia.Journal

/-!
# H.265

`Hevc.Config` is the decoder configuration of a track; `Hevc.toAnnexB` turns a sample into a byte
stream with the parameter sets before its first random access picture.
-/

namespace IsoMedia.Hevc

/-- The kinds of units that a configuration may hold, and all others. -/
inductive UnitType where
  | vps
  | sps
  | pps
  | prefixSei
  | suffixSei
  | other (number : UInt8)
deriving DecidableEq

namespace UnitType

def ofNumber : UInt8 → UnitType
  | 32 => vps
  | 33 => sps
  | 34 => pps
  | 39 => prefixSei
  | 40 => suffixSei
  | n => other n

/-- The number in the first byte of a unit. -/
def number (header : UInt8) : UInt8 := header >>> 1 &&& 0x3F

/-- The kind that the first byte of a unit announces. -/
def ofHeader (header : UInt8) : UnitType := ofNumber (number header)

end UnitType

/-- Whether the first byte of a unit announces a random access picture. -/
def isRandomAccess (header : UInt8) : Bool :=
  16 ≤ UnitType.number header && UnitType.number header ≤ 23

/-- A decoder configuration. -/
structure Config where
  profile : UInt8
  level : UInt8
  /-- The width in bytes of the length before each unit. -/
  lengthSize : Nat
  /-- Units by kind, in the order of the record. -/
  arrays : List (UnitType × List (List UInt8))
deriving DecidableEq

/-- One unit of an array: a length and its bytes. -/
def arrayUnit : Decode (List UInt8) := do Decode.bytes (← Decode.u16).toNat

/-- The array of the given number.  Only parameter sets and SEI belong here. -/
def unitArray (index : Nat) : Decode (UnitType × List (List UInt8)) := do
  match UnitType.ofNumber ((← Decode.u8) &&& 0x3F) with
  | .other n => Decode.refuse (.invalidData (.hevcArrayType index n.toNat))
  | type => return (type, ← Decode.rows (← Decode.u16).toNat arrayUnit)

/-- `count` arrays, the first of which has the number `index`. -/
def unitArrays : Nat → Nat → Decode (List (UnitType × List (List UInt8)))
  | 0, _ => return []
  | count + 1, index => do
    let array ← unitArray index
    return array :: (← unitArrays count (index + 1))

namespace Config

/-- Read a configuration record, which has at least 23 bytes.  Places in its arrays are counted
from the byte that tells their number. -/
def ofBytes (bs : List UInt8) : Except Error Config :=
  if bs.length < 23 then malformed (.hevcConfigShort bs.length)
  else do
    let arrays ← Decode.parse (do unitArrays (← Decode.u8).toNat 0) (bs.drop 22)
    return ⟨bs[1]?.getD 0 &&& 0x1F, bs[12]?.getD 0, (bs[21]?.getD 0 &&& 0x03).toNat + 1, arrays⟩

/-- The units as a byte stream, in the order of the record. -/
def stream (c : Config) : List UInt8 := AnnexB.stream (c.arrays.flatMap Prod.snd)

end Config

/-- Read a configuration record for its byte stream and the width of lengths. -/
def extraData (record : List UInt8) : Checked (List UInt8 × Nat) := do
  let c ← Checked.ofExcept (Config.ofBytes record)
  Checked.say .debug .hevc
    s!"HEVC: hvcC 转 Annex B, profile={c.profile.toNat}, level={c.level.toNat}, 数组数={c.arrays.length}, length_size={c.lengthSize}"
  return (c.stream, c.lengthSize)

/-- The units of a sample; none is shorter than its header of two bytes. -/
def split (width : Nat) (sample : List UInt8) : Except Error (List (List UInt8)) :=
  AnnexB.split width
    (fun length => if length < 2 then malformed (.hevcUnitLength length) else .ok ()) sample

/-- The pieces of a byte stream.  The extra data goes before the first random access picture. -/
def pieces (extra : List UInt8) : List (List UInt8) → List (List UInt8)
  | [] => []
  | nal :: nals =>
    if isRandomAccess (nal.headD 0) then extra :: (nal :: nals).map AnnexB.unit
    else AnnexB.unit nal :: pieces extra nals

/-- A sample as a byte stream. -/
def toAnnexB (width : Nat) (extra sample : List UInt8) : Except Error (List UInt8) :=
  (split width sample).map fun nals => (pieces extra nals).flatten

end IsoMedia.Hevc
