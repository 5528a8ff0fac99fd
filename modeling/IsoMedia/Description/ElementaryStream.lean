import IsoMedia.Bytes.Cursor
import IsoMedia.Media

/-!
# Elementary stream descriptors

A descriptor within a descriptor within a descriptor: the stream, its decoder, and the decoder's own
configuration.  Each starts with a tag and a length of one to four bytes of seven bits.
-/

namespace IsoMedia

/-- What a stream descriptor says about a decoder. -/
structure ElementaryStream where
  streamId : UInt16
  /-- What kind of coding the stream has. -/
  objectType : UInt8
  streamType : UInt8
  maxBitrate : UInt32
  avgBitrate : UInt32
  /-- The configuration of the decoder, if there is one. -/
  decoderInfo : Option (List UInt8)
deriving DecidableEq

namespace ElementaryStream

/-- The codec that an object type stands for. -/
def codecOf? (objectType : UInt8) : Option Codec :=
  match objectType with
  | 0x08 => some .movText
  | 0x20 => some .mpeg4
  | 0x21 => some .h264
  | 0x23 => some .hevc
  | 0x40 | 0x66 | 0x67 | 0x68 => some .aac
  | 0x60 | 0x61 | 0x62 | 0x63 | 0x64 | 0x65 => some .mpeg2Video
  | 0x69 | 0x6B => some .mp3
  | 0x6A => some .mpeg1Video
  | 0x6C => some .mjpeg
  | 0x6D => some .png
  | 0xA5 => some .ac3
  | 0xA6 => some .eac3
  | 0xA9 => some .dts
  | 0xAD => some .opus
  | 0xB1 => some .vp9
  | 0xC1 => some .flac
  | _ => none

def codec? (s : ElementaryStream) : Option Codec := codecOf? s.objectType

/-- The configuration to hand to a decoder.  What an MP3 stream has in its place is none. -/
def extraData? (s : ElementaryStream) : Option (List UInt8) :=
  if s.objectType = 0x69 ∨ s.objectType = 0x6B then none else s.decoderInfo

def streamTag : UInt8 := 0x03
def decoderTag : UInt8 := 0x04
def decoderInfoTag : UInt8 := 0x05

/-- A length in at most `n` further bytes, behind the bits read so far.  A byte below 128 is the
last. -/
def lengthFrom : Nat → Nat → Decode Nat
  | 0, length => return length
  | n + 1, length => do
    let b ← Decode.u8
    let length := length * 128 + b.toNat % 128
    if b < 0x80 then return length else lengthFrom n length

/-- The tag and the length that a descriptor starts with. -/
def descriptorHead : Decode (UInt8 × Nat) := do return (← Decode.u8, ← lengthFrom 4 0)

/-- The optional fields that the flags of a stream announce: the stream it depends on, a counted
address and a clock. -/
def optionalFields (flags : UInt8) : Decode Unit := do
  if flags &&& 0x80 ≠ 0 then Decode.skip 2
  if flags &&& 0x40 ≠ 0 then Decode.skip (← Decode.u8).toNat
  if flags &&& 0x20 ≠ 0 then Decode.skip 2

/-- The configuration of the decoder, if it comes next and is not empty. -/
def decoderInfoFields : Decode (Option (List UInt8)) := do
  if ← Decode.atEnd then return none
  let (tag, length) ← descriptorHead
  if tag = decoderInfoTag ∧ 0 < length then
    return some (← (Decode.bytes length).orRefuse (.invalidData (.decoderInfoCut length)))
  else return none

def fields : Decode ElementaryStream := do
  let _ ← Decode.versionFlags
  let (tag, _) ← descriptorHead
  if tag ≠ streamTag then Decode.refuse (.invalidData (.streamTag tag.toNat))
  let streamId ← Decode.u16
  optionalFields (← Decode.u8)
  let (tag, _) ← descriptorHead
  if tag ≠ decoderTag then Decode.refuse (.invalidData (.decoderTag tag.toNat))
  let objectType ← Decode.u8
  let streamType := (← Decode.u8) >>> 2
  Decode.skip 3
  let maxBitrate ← Decode.u32
  let avgBitrate ← Decode.u32
  return { streamId, objectType, streamType, maxBitrate, avgBitrate,
           decoderInfo := ← decoderInfoFields }

def ofPayload (payload : List UInt8) : Except Error ElementaryStream := fields.parse payload

end ElementaryStream

end IsoMedia
