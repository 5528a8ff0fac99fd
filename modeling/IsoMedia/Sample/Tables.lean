import IsoMedia.Bytes.Cursor

/-!
# The tables of samples

Five tables say when each sample is shown, how large it is and where it lies; they are stored as
runs, or as one row per sample, per chunk or per key frame.  The declared number of rows is always
held against the bytes that are there before a row is read.
-/

namespace IsoMedia

/-- `count` samples, each lasting `delta`. -/
structure TimeRun where
  count : UInt32
  delta : UInt32
deriving DecidableEq

/-- `count` samples, each shown `offset` after it is decoded. -/
structure OffsetRun where
  count : UInt32
  offset : Int32
deriving DecidableEq

/-- The chunks from `firstChunk` to the next run hold `samplesPerChunk` samples each. -/
structure ChunkRun where
  /-- Chunks are numbered from 1. -/
  firstChunk : UInt32
  samplesPerChunk : UInt32
  /-- Descriptions are numbered from 1. -/
  descriptionIndex : UInt32
deriving DecidableEq

/-- The sizes of samples, either one for all or one for each. -/
structure SampleSizes where
  /-- The size of every sample, if it is not zero. -/
  fixedSize : UInt32
  sampleCount : UInt32
  sizes : Array UInt32
deriving DecidableEq

namespace SampleSizes

/-- The size of the sample of the given number, counted from 0. -/
def sizeAt (s : SampleSizes) (sample : Nat) : Except Error UInt32 :=
  if s.fixedSize ≠ 0 then .ok s.fixedSize
  else match s.sizes[sample]? with
    | some n => .ok n
    | none => malformed (.sampleWithoutSize sample s.sizes.size)

/-- A size for all samples, or a table with one of four bytes for each. -/
def wideFields : Decode SampleSizes := do
  let _ ← Decode.versionFlags
  let fixedSize ← Decode.u32
  let sampleCount ← Decode.u32
  if fixedSize = 0 then
    Decode.roomFor (.ofChars 's' 't' 's' 'z') sampleCount.toNat 4
    return ⟨fixedSize, sampleCount, (← Decode.rows sampleCount.toNat Decode.u32).toArray⟩
  else return ⟨fixedSize, sampleCount, #[]⟩

def ofWide (payload : List UInt8) : Except Error SampleSizes := wideFields.parse payload

/-- The bytes that `count` fields of `width` bits take, for the widths that there are. -/
def packedLength? (width count : Nat) : Option Nat :=
  match width with
  | 4 => some ((count + 1) / 2)
  | 8 => some count
  | 16 => some (count * 2)
  | _ => none

/-- Numbers of two bytes each; an odd byte at the end is left out. -/
def pairs : List UInt8 → List UInt32
  | a :: b :: bs => UInt32.ofNat (bigEndian [a, b]) :: pairs bs
  | _ => []

/-- The fields of `width` bits in packed bytes.  Of two fields in one byte the high half is the
first. -/
def unpack (width count : Nat) (packed : List UInt8) : List UInt32 :=
  match width with
  | 4 => (packed.flatMap fun (b : UInt8) => [(b >>> 4).toUInt32, (b &&& 0x0F).toUInt32]).take count
  | 8 => packed.map UInt8.toUInt32
  | _ => pairs packed

/-- A table with one field of 4, 8 or 16 bits for each sample. -/
def compactFields : Decode SampleSizes := do
  let _ ← Decode.versionFlags
  Decode.skip 3
  let width := (← Decode.u8).toNat
  let sampleCount ← Decode.u32
  let count := sampleCount.toNat
  match packedLength? width count with
  | none => Decode.refuse (.invalidData (.compactFieldWidth width))
  | some need =>
    let packed ← (Decode.bytes need).orRefuse (.invalidData (.compactTableShort count need))
    return ⟨0, sampleCount, (unpack width count packed).toArray⟩

def ofCompact (payload : List UInt8) : Except Error SampleSizes := compactFields.parse payload

end SampleSizes

/-- The version and flags of a table, and then its rows. -/
def Decode.fullTable {α : Type} (name : FourCc) (width : Nat) (row : Decode α) :
    Decode (List α) := do
  let _ ← Decode.versionFlags
  Decode.table name width row

namespace TimeRun

def row : Decode TimeRun := do return ⟨← Decode.u32, ← Decode.u32⟩

/-- The runs of a decoding time table. -/
def ofPayload (payload : List UInt8) : Except Error (List TimeRun) :=
  (Decode.fullTable (.ofChars 's' 't' 't' 's') 8 row).parse payload

end TimeRun

namespace OffsetRun

/-- Offsets are signed in every version, since many files have negative ones in version 0. -/
def row : Decode OffsetRun := do return ⟨← Decode.u32, ← Decode.i32⟩

/-- The runs of a composition offset table. -/
def ofPayload (payload : List UInt8) : Except Error (List OffsetRun) :=
  (Decode.fullTable (.ofChars 'c' 't' 't' 's') 8 row).parse payload

end OffsetRun

namespace ChunkRun

def row : Decode ChunkRun := do return ⟨← Decode.u32, ← Decode.u32, ← Decode.u32⟩

/-- The runs of a table from samples to chunks. -/
def ofPayload (payload : List UInt8) : Except Error (List ChunkRun) :=
  (Decode.fullTable (.ofChars 's' 't' 's' 'c') 12 row).parse payload

end ChunkRun

namespace ChunkOffsets

/-- The places of chunks in the file, of four bytes each. -/
def ofNarrow (payload : List UInt8) : Except Error (List UInt64) :=
  (Decode.fullTable (.ofChars 's' 't' 'c' 'o') 4 (UInt32.toUInt64 <$> Decode.u32)).parse payload

/-- The places of chunks in the file, of eight bytes each. -/
def ofWide (payload : List UInt8) : Except Error (List UInt64) :=
  (Decode.fullTable (.ofChars 'c' 'o' '6' '4') 8 Decode.u64).parse payload

end ChunkOffsets

namespace SyncSamples

/-- The numbers of key frames, counted from 1. -/
def ofPayload (payload : List UInt8) : Except Error (List UInt32) :=
  (Decode.fullTable (.ofChars 's' 't' 's' 's') 4 Decode.u32).parse payload

end SyncSamples

end IsoMedia
