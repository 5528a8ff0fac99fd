import IsoMedia.Box.Frame
import IsoMedia.Codec.Avc
import IsoMedia.Codec.Hevc
import IsoMedia.Description.ElementaryStream
import IsoMedia.Description.SampleFormat
import IsoMedia.Number.Binary64

/-!
# Sample descriptions

A sample entry is a box whose type is a sample format; its payload tells how the samples of a track
are coded.  Boxes inside an entry refine the codec and bring its configuration.  Damage to a box
inside an entry costs only that box and those after it, except for the configurations of H.264 and
H.265, without which the samples are useless.
-/

namespace IsoMedia

/-- How the pictures of a track are coded. -/
structure VideoData where
  codec : Codec
  width : UInt16
  height : UInt16
  /-- The configuration of the decoder; for H.264 and H.265 a byte stream of parameter sets. -/
  extraData : List UInt8
  /-- The width of the length before each unit, for H.264 and H.265. -/
  lengthSize : Option Nat
deriving DecidableEq

/-- How the sound of a track is coded. -/
structure AudioData where
  codec : Codec
  /-- Samples per second, without the fraction. -/
  sampleRate : UInt32
  sampleBits : UInt16
  channelCount : UInt16
  extraData : List UInt8
deriving DecidableEq

/-- How a track is coded. -/
inductive MetaData where
  | video (data : VideoData)
  | audio (data : AudioData)
  | subtitle (codec : Codec) (extraData : List UInt8)
  | data (codec : Codec) (extraData : List UInt8)
deriving DecidableEq

namespace MetaData

def mediaType : MetaData → MediaType
  | video _ => .video
  | audio _ => .audio
  | subtitle .. => .subtitle
  | data .. => .data

def codec : MetaData → Codec
  | video v => v.codec
  | audio a => a.codec
  | subtitle c _ => c
  | data c _ => c

def extraData : MetaData → List UInt8
  | video v => v.extraData
  | audio a => a.extraData
  | subtitle _ bs => bs
  | data _ bs => bs

end MetaData

/-- One description of samples. -/
structure SampleEntry where
  format : FourCc
  dataReferenceIndex : UInt16
  metaData : MetaData
deriving DecidableEq

namespace SampleEntry

/-! ### Boxes inside an entry -/

/-- The boxes inside an entry up to the first fault in their framing. -/
def children (bs : List UInt8) : Checked (List Frame) := do
  let (frames, fault) := Frame.all .nested 0 bs
  if let some e := fault then
    Checked.say .warn .description s!"stsd: 采样描述的子 box 分帧失败, 忽略剩余部分: {e.message}"
  return frames

/-- A codec and its configuration. -/
structure Coding where
  codec : Codec
  extraData : List UInt8

/-- Refine a coding by a stream descriptor.  A codec of another media type is not taken over, and a
damaged descriptor changes nothing. -/
def Coding.refine (media : MediaType) (c : Coding) (payload : List UInt8) : Checked Coding := do
  match ElementaryStream.ofPayload payload with
  | .error e =>
    Checked.say .warn .description s!"stsd: esds 解析失败, 忽略: {e.message}"
    return c
  | .ok stream =>
    let codec := match stream.codec? with
      | some codec => if codec.mediaType = media then codec else c.codec
      | none => c.codec
    return ⟨codec, stream.extraData?.getD c.extraData⟩

def esds : FourCc := .ofChars 'e' 's' 'd' 's'

/-- Take in one box inside a video entry. -/
def videoChild (v : VideoData) (f : Frame) : Checked VideoData := do
  if f.type = .ofChars 'a' 'v' 'c' 'C' then
    let (extraData, lengthSize) ← Avc.extraData f.payload
    return { v with extraData, lengthSize := some lengthSize }
  else if f.type = .ofChars 'h' 'v' 'c' 'C' then
    let (extraData, lengthSize) ← Hevc.extraData f.payload
    return { v with extraData, lengthSize := some lengthSize }
  else if f.type = esds then
    let c ← Coding.refine .video ⟨v.codec, v.extraData⟩ f.payload
    return { v with codec := c.codec, extraData := c.extraData }
  else if f.type = .ofChars 'a' 'v' '1' 'C' ∨ f.type = .ofChars 'v' 'p' 'c' 'C' then
    return { v with extraData := f.payload }
  else return v

/-- Take in one box inside a sound entry.  QuickTime keeps the stream descriptor in a `wave` box;
the configurations of FLAC and ALAC follow a version and flags. -/
def audioChild (c : Coding) (f : Frame) : Checked Coding := do
  if f.type = esds then c.refine .audio f.payload
  else if f.type = .ofChars 'w' 'a' 'v' 'e' then
    let inner ← children f.payload
    (inner.filter (·.type = esds)).foldlM (fun c g => c.refine .audio g.payload) c
  else if f.type = .ofChars 'd' 'O' 'p' 's' then return { c with extraData := f.payload }
  else if f.type = .ofChars 'd' 'f' 'L' 'a' ∨ f.type = .ofChars 'a' 'l' 'a' 'c' then
    return { c with extraData := f.payload.drop 4 }
  else return c

/-! ### The fields of an entry -/

/-- The fields of a video entry behind those that all entries have, and the boxes in it. -/
def videoFields : Decode (UInt16 × UInt16 × List UInt8) := do
  Decode.skip 16
  let width ← Decode.u16
  let height ← Decode.u16
  Decode.skip 50
  return (width, height, ← Decode.rest)

/-- The numbers in a sound entry. -/
structure Sound where
  channelCount : UInt16
  sampleBits : UInt16
  sampleRate : UInt32

/-- The largest half word for what does not fit one. -/
def halfWord (n : UInt32) : UInt16 := UInt16.ofNat (min n.toNat 0xFFFF)

/-- The fields of a sound entry behind those that all entries have, and the boxes in it.  Version 1
adds four fields; version 2 has the rate, the channels and the sample size anew. -/
def audioFields : Decode (Sound × List UInt8) := do
  let version ← Decode.u16
  Decode.skip 6
  let channelCount ← Decode.u16
  let sampleBits ← Decode.u16
  Decode.skip 4
  let sampleRate := (← Decode.u32) >>> 16
  if version = 1 then
    Decode.skip 16
    return (⟨channelCount, sampleBits, sampleRate⟩, ← Decode.rest)
  else if version = 2 then
    Decode.skip 4
    let sampleRate := Binary64.toUInt32 (← Decode.u64)
    let channelCount := halfWord (← Decode.u32)
    Decode.skip 4
    let sampleBits := halfWord (← Decode.u32)
    Decode.skip 12
    return (⟨channelCount, sampleBits, sampleRate⟩, ← Decode.rest)
  else return (⟨channelCount, sampleBits, sampleRate⟩, ← Decode.rest)

/-- The place behind the fields that all entries have, and the data reference. -/
def commonFields : Decode UInt16 := do
  Decode.skip 6
  Decode.u16

/-- Read with fields from a place on and give up the place. -/
def readFrom {α : Type} (p : Decode α) (c : Cursor) : Checked α :=
  Checked.ofExcept ((p.run c).map Prod.fst)

/-- The metadata of an entry of the given codec, read from a place on. -/
def metaDataFrom (codec : Codec) (c : Cursor) : Checked MetaData := do
  match codec.mediaType with
  | .video =>
    let (width, height, inner) ← readFrom videoFields c
    let frames ← children inner
    let start : VideoData := { codec, width, height, extraData := [], lengthSize := none }
    return .video (← frames.foldlM videoChild start)
  | .audio =>
    let (sound, inner) ← readFrom audioFields c
    let frames ← children inner
    let coding ← frames.foldlM audioChild ⟨codec, []⟩
    return .audio
      { codec := coding.codec
        sampleRate := sound.sampleRate
        sampleBits := sound.sampleBits
        channelCount := sound.channelCount
        extraData := coding.extraData }
  | .subtitle => return .subtitle codec c.rest
  | .data => return .data codec c.rest

/-- An entry of the given format.  The format has to be a known one. -/
def ofPayload (format : FourCc) (payload : List UInt8) : Checked SampleEntry := do
  let (dataReferenceIndex, c) ← Checked.ofExcept (commonFields.run ⟨payload, 0⟩)
  match SampleFormat.codec? format with
  | none => throw (.invalidData (.unknownSampleFormat format))
  | some codec => return ⟨format, dataReferenceIndex, ← metaDataFrom codec c⟩

end SampleEntry

/-- The descriptions that the samples of a track have. -/
structure SampleDescription where
  full : VersionFlags
  entries : List SampleEntry
deriving DecidableEq

namespace SampleDescription

/-- The metadata of the first description, which is the track's. -/
def metaData? (d : SampleDescription) : Option MetaData := d.entries.head?.map (·.metaData)

def formats (d : SampleDescription) : List FourCc := d.entries.map (·.format)

/-- `left` entries of `declared` in all, from the boxes that are there.  A missing entry is noted, a
fault in the framing counts once all boxes before it are read. -/
def entriesFrom (declared : Nat) : Nat → List Frame → Option Error → Checked (List SampleEntry)
  | 0, _, _ => return []
  | left + 1, [], none => do
    Checked.say .warn .description
      s!"stsd: 声明 {declared} 个条目, 实际只有 {declared - (left + 1)} 个"
    return []
  | _ + 1, [], some e => throw e
  | left + 1, f :: frames, fault => do
    let entry ← SampleEntry.ofPayload f.type f.payload
    return entry :: (← entriesFrom declared left frames fault)

/-- The version, the declared number of entries and the bytes that hold them. -/
def fields : Decode (VersionFlags × Nat × List UInt8) := do
  return (← Decode.versionFlags, (← Decode.u32).toNat, ← Decode.rest)

def ofPayload (payload : List UInt8) : Checked SampleDescription := do
  let (full, declared, inner) ← Checked.ofExcept (fields.parse payload)
  let (frames, fault) := Frame.all .nested 0 inner
  return ⟨full, ← entriesFrom declared declared frames fault⟩

end SampleDescription

end IsoMedia
