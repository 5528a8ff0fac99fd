import IsoMedia.Codec.AnnexB
import IsoMedia.Journal

/-!
# H.264

`Avc.Config` is the decoder configuration of a track; `Avc.toAnnexB` turns a sample into a byte
stream and supplies the parameter sets where the sample does not bring its own.
-/

namespace IsoMedia.Avc

/-- The kinds of units that the conversion tells apart. -/
inductive UnitType where
  | slice
  | idrSlice
  | sei
  | sps
  | pps
  | delimiter
  | other (number : UInt8)
deriving DecidableEq

/-- The kind that the first byte of a unit announces. -/
def UnitType.ofHeader (header : UInt8) : UnitType :=
  match header &&& 0x1F with
  | 1 => slice
  | 5 => idrSlice
  | 6 => sei
  | 7 => sps
  | 8 => pps
  | 9 => delimiter
  | n => other n

/-- The kind of a unit; a unit without bytes is of no known kind. -/
def UnitType.ofUnit (nal : List UInt8) : UnitType := ofHeader (nal.headD 0)

/-- A decoder configuration. -/
structure Config where
  profile : UInt8
  level : UInt8
  /-- The width in bytes of the length before each unit. -/
  lengthSize : Nat
  sps : List (List UInt8)
  pps : List (List UInt8)
deriving DecidableEq

/-- The parameter set of the given number: a length, which must not be zero, and its bytes. -/
def parameterSet (list : ParameterList) (index : Nat) : Decode (List UInt8) := do
  let length := (← Decode.u16.orRefuse (.invalidData (.parameterLengthCut list index))).toNat
  if length = 0 then Decode.refuse (.invalidData (.parameterEmpty list index))
  else (Decode.bytes length).orRefuse (.invalidData (.parameterCut list index length))

/-- `count` parameter sets, the first of which has the number `index`. -/
def parameterSets (list : ParameterList) : Nat → Nat → Decode (List (List UInt8))
  | 0, _ => return []
  | count + 1, index => do
    let set ← parameterSet list index
    return set :: (← parameterSets list count (index + 1))

namespace Config

/-- The fields of a configuration.  A record that ends after its SPS has no PPS. -/
def fields : Decode Config := do
  let _version ← Decode.u8
  let profile ← Decode.u8
  let _compatibility ← Decode.u8
  let level ← Decode.u8
  let lengthSize := ((← Decode.u8) &&& 0x03).toNat + 1
  let sps ← parameterSets .sps ((← Decode.u8) &&& 0x1F).toNat 0
  let count ← if ← Decode.atEnd then pure 0 else UInt8.toNat <$> Decode.u8
  let pps ← parameterSets .pps count 0
  return ⟨profile, level, lengthSize, sps, pps⟩

/-- Read a configuration record, which has at least seven bytes. -/
def ofBytes (bs : List UInt8) : Except Error Config :=
  if bs.length < 7 then malformed (.avcConfigShort bs.length)
  else fields.parse bs

/-- The parameter sets as a byte stream, each SPS before each PPS. -/
def stream (c : Config) : List UInt8 := AnnexB.stream (c.sps ++ c.pps)

end Config

/-- Read a configuration record for its byte stream and the width of lengths. -/
def extraData (record : List UInt8) : Checked (List UInt8 × Nat) := do
  let c ← Checked.ofExcept (Config.ofBytes record)
  Checked.say .debug .avc
    s!"H.264: avcC 转 Annex B, profile={c.profile.toNat}, level={c.level.toNat}, SPS={c.sps.length}, PPS={c.pps.length}, length_size={c.lengthSize}"
  return (c.stream, c.lengthSize)

/-- The units of a sample; a length of zero announces none. -/
def split (width : Nat) (sample : List UInt8) : Except Error (List (List UInt8)) :=
  (AnnexB.split width (fun _ => .ok ()) sample).map fun nals => nals.filter (· ≠ [])

/-- The pieces of a byte stream.  The extra data goes before the first IDR slice, unless a
parameter set was met before it. -/
def pieces (extra : List UInt8) : (settled : Bool) → List (List UInt8) → List (List UInt8)
  | _, [] => []
  | settled, nal :: nals =>
    match UnitType.ofUnit nal with
    | .sps | .pps => AnnexB.unit nal :: pieces extra true nals
    | .idrSlice =>
      if settled then AnnexB.unit nal :: pieces extra true nals
      else extra :: AnnexB.unit nal :: pieces extra true nals
    | _ => AnnexB.unit nal :: pieces extra settled nals

/-- A sample as a byte stream. -/
def toAnnexB (width : Nat) (extra sample : List UInt8) : Except Error (List UInt8) :=
  (split width sample).map fun nals => (pieces extra false nals).flatten

end IsoMedia.Avc
