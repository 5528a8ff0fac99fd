import IsoMedia.Demuxer
import IsoMedia.Proofs.Box.Frames
import IsoMedia.Proofs.Sample.Placement
import IsoMedia.Proofs.Sample.Times

/-!
# Writing movies

A `Movie` is a plan of a file: its brands, its tracks with their tables, and the bytes that the
media data has where no chunk lies.  `Movie.file` writes it, with the movie box before the media
data or behind it.  `Movie.Valid` says that the parts of a plan go together.
-/

namespace IsoMedia

/-- So many zero bytes. -/
def zeros (n : Nat) : List UInt8 := List.replicate n 0

/-! ### Chunks -/

/-- A chunk of a track: where it lies in the file, and the bytes of its samples. -/
structure Chunk where
  offset : UInt64
  samples : List (List UInt8)
deriving DecidableEq

namespace Chunk

def bytes (c : Chunk) : List UInt8 := c.samples.flatten

def start (c : Chunk) : Nat := c.offset.toNat

/-- Where the bytes of the chunk end. -/
def stop (c : Chunk) : Nat := c.start + c.bytes.length

/-- One of the chunks ends before the other starts. -/
def Disjoint (c d : Chunk) : Prop := c.stop ≤ d.start ∨ d.stop ≤ c.start

instance (c d : Chunk) : Decidable (c.Disjoint d) := inferInstanceAs (Decidable (_ ∨ _))

/-- Samples one behind the other. -/
def extentsFrom : Nat → List (List UInt8) → List Extent
  | _, [] => []
  | pos, s :: samples => ⟨pos, s.length⟩ :: extentsFrom (pos + s.length) samples

/-- Where the samples of the chunk lie. -/
def extents (c : Chunk) : List Extent := extentsFrom c.start c.samples

end Chunk

/-! ### Tables -/

/-- A table of a track, as it is written. -/
inductive Table where
  | times (runs : List TimeRun)
  | offsets (runs : List OffsetRun)
  | runs (runs : List ChunkRun)
  | sizes (sizes : SampleSizes)
  | narrowOffsets (offsets : List UInt64)
  | wideOffsets (offsets : List UInt64)
  | sync (numbers : List UInt32)
deriving DecidableEq

namespace Table

def timeRow (r : TimeRun) : List UInt8 :=
  [numberBytes 4 r.count.toNat, numberBytes 4 r.delta.toNat].flatten

def offsetRow (r : OffsetRun) : List UInt8 :=
  [numberBytes 4 r.count.toNat, numberBytes 4 r.offset.toUInt32.toNat].flatten

def runRow (r : ChunkRun) : List UInt8 :=
  [numberBytes 4 r.firstChunk.toNat, numberBytes 4 r.samplesPerChunk.toNat,
    numberBytes 4 r.descriptionIndex.toNat].flatten

/-- A size for all samples, or one for each. -/
def sizesBytes (s : SampleSizes) : List UInt8 :=
  [zeros 4, numberBytes 4 s.fixedSize.toNat, numberBytes 4 s.sampleCount.toNat,
    s.sizes.toList.flatMap fun n => numberBytes 4 n.toNat].flatten

/-- The box of a table. -/
def box : Table → Box
  | times rs => ⟨.ofChars 's' 't' 't' 's', Decode.tableBytes (zeros 4) timeRow rs⟩
  | offsets rs => ⟨.ofChars 'c' 't' 't' 's', Decode.tableBytes [1, 0, 0, 0] offsetRow rs⟩
  | runs rs => ⟨.ofChars 's' 't' 's' 'c', Decode.tableBytes (zeros 4) runRow rs⟩
  | sizes s => ⟨.ofChars 's' 't' 's' 'z', sizesBytes s⟩
  | narrowOffsets os =>
    ⟨.ofChars 's' 't' 'c' 'o', Decode.tableBytes (zeros 4) (fun o => numberBytes 4 o.toNat) os⟩
  | wideOffsets os =>
    ⟨.ofChars 'c' 'o' '6' '4', Decode.tableBytes (zeros 4) (fun o => numberBytes 8 o.toNat) os⟩
  | sync numbers =>
    ⟨.ofChars 's' 't' 's' 's', Decode.tableBytes (zeros 4) (fun n => numberBytes 4 n.toNat) numbers⟩

/-- What the numbers of key frames are kept as: in ascending order and without repetitions. -/
def keyNumbers (numbers : List UInt32) : List UInt32 :=
  (numbers.mergeSort fun a b => decide (a ≤ b)).eraseReps

/-- What a table adds to the draft of its track. -/
def enter (d : TrackDraft) : Table → TrackDraft
  | times rs => { d with times := some rs }
  | offsets rs => { d with offsets := some rs }
  | runs rs => { d with runs := some rs }
  | sizes s => { d with sizes := some s }
  | narrowOffsets os => { d with chunkOffsets := some os }
  | wideOffsets os => { d with chunkOffsets := some os }
  | sync numbers => { d with sync := some (keyNumbers numbers) }

end Table

/-! ### Tracks -/

/-- The plan of a track. -/
structure TrackPlan where
  trackId : UInt32
  handlerType : FourCc
  /-- Ticks per second. -/
  timescale : UInt32
  format : FourCc
  /-- The fields of the sample entry. -/
  entryFields : List UInt8
  /-- The boxes inside the sample entry. -/
  entryBoxes : List Box
  times : List TimeRun
  offsets : Option (List OffsetRun)
  runs : List ChunkRun
  chunks : List Chunk
  /-- The size of every sample, or zero to write the size of each. -/
  fixedSize : UInt32
  /-- Whether chunk offsets are written with eight bytes. -/
  wide : Bool
  sync : Option (List UInt32)
  /-- The tables in the order in which they are written. -/
  tables : List Table

namespace TrackPlan

variable (p : TrackPlan)

/-- The samples of the track in order. -/
def samples : List (List UInt8) := p.chunks.flatMap (·.samples)

/-- Where the samples of the track lie. -/
def extents : List Extent := p.chunks.flatMap (·.extents)

def sizes : SampleSizes where
  fixedSize := p.fixedSize
  sampleCount := UInt32.ofNat p.samples.length
  sizes :=
    if p.fixedSize = 0 then (p.samples.map fun s => UInt32.ofNat s.length).toArray else #[]

def chunkOffsets : List UInt64 := p.chunks.map (·.offset)

/-- The tables that are written. -/
def allTables : List Table :=
  [.times p.times, .runs p.runs, .sizes p.sizes,
    if p.wide then .wideOffsets p.chunkOffsets else .narrowOffsets p.chunkOffsets]
    ++ p.offsets.toList.map .offsets ++ p.sync.toList.map .sync

/-- When a sample is decoded. -/
def decodeTime (sample : Nat) : Int := clampTime (TimeRun.elapsed p.times sample)

/-- When a sample is shown. -/
def presentationTime (sample : Nat) : Int :=
  clampTime (p.decodeTime sample + OffsetRun.offsetAt (p.offsets.getD []) sample)

def trackHeader : Box :=
  ⟨.ofChars 't' 'k' 'h' 'd',
    [[0, 0, 0, 3], zeros 4, zeros 4, numberBytes 4 p.trackId.toNat, zeros 4, zeros 4, zeros 8,
      zeros 2, zeros 2, zeros 2, zeros 2, zeros 36, zeros 4, zeros 4].flatten⟩

def mediaHeader : Box :=
  ⟨.ofChars 'm' 'd' 'h' 'd',
    [zeros 4, zeros 4, zeros 4, numberBytes 4 p.timescale.toNat, zeros 4, [0x55, 0xC4],
      zeros 2].flatten⟩

def handler : Box :=
  ⟨.ofChars 'h' 'd' 'l' 'r', [zeros 8, p.handlerType.bytes, zeros 13].flatten⟩

def entry : Box := ⟨p.format, p.entryFields ++ Box.allBytes p.entryBoxes⟩

def description : Box :=
  ⟨.ofChars 's' 't' 's' 'd', [zeros 4, numberBytes 4 1, p.entry.bytes].flatten⟩

def sampleTable : Box :=
  .container (.ofChars 's' 't' 'b' 'l') (p.description :: p.tables.map Table.box)

def media : Box :=
  .container (.ofChars 'm' 'd' 'i' 'a')
    [p.mediaHeader, p.handler, .container (.ofChars 'm' 'i' 'n' 'f') [p.sampleTable]]

def box : Box := .container (.ofChars 't' 'r' 'a' 'k') [p.trackHeader, p.media]

/-- The widths of the fields that a sound entry of the given version has behind those of version
0. -/
def soundExtra (version : UInt16) : List Nat :=
  if version = 1 then [16] else if version = 2 then [4, 8, 4, 4, 4, 12] else []

/-- The boxes inside a sample entry that bring the configuration of a codec. -/
def codecBoxes : MediaType → List FourCc
  | .video => [.ofChars 'a' 'v' 'c' 'C', .ofChars 'h' 'v' 'c' 'C', .ofChars 'e' 's' 'd' 's',
      .ofChars 'a' 'v' '1' 'C', .ofChars 'v' 'p' 'c' 'C']
  | .audio => [.ofChars 'e' 's' 'd' 's', .ofChars 'w' 'a' 'v' 'e', .ofChars 'd' 'O' 'p' 's',
      .ofChars 'd' 'f' 'L' 'a', .ofChars 'a' 'l' 'a' 'c']
  | .subtitle | .data => []

/-- The fields of a sample entry have the length that the type of media asks for. -/
def FieldsFit (media : MediaType) (fields : List UInt8) : Prop :=
  match media with
  | .video => fields.length = 78
  | .audio =>
    fields.length = 28 + (soundExtra (UInt16.ofNat (bigEndian ((fields.drop 8).take 2)))).sum
  | .subtitle | .data => 8 ≤ fields.length

instance (media : MediaType) (fields : List UInt8) : Decidable (FieldsFit media fields) :=
  match media with
  | .video => inferInstanceAs (Decidable (_ = _))
  | .audio => inferInstanceAs (Decidable (_ = _))
  | .subtitle | .data => inferInstanceAs (Decidable (_ ≤ _))

/-- How many samples a chunk has by the runs: a run reaches to the next one. -/
def samplesIn (runs : List ChunkRun) (chunk : Nat) : Nat :=
  ((runs.filter (·.firstChunk.toNat ≤ chunk)).getLast?.map (·.samplesPerChunk.toNat)).getD 0

/-- The parts of a plan go together. -/
structure Valid : Prop where
  /-- The format is a known one, and no box inside the entry brings a configuration. -/
  entry : ∃ codec, SampleFormat.codec? p.format = some codec ∧
    FieldsFit codec.mediaType p.entryFields ∧
    ∀ b ∈ p.entryBoxes, b.type ∉ codecBoxes codec.mediaType
  tables : p.tables.Perm p.allTables
  first : ∀ run ∈ p.runs.head?, run.firstChunk.toNat = 1
  ascending : (p.runs.map (·.firstChunk.toNat)).Pairwise (· < ·)
  within : ∀ span ∈ Span.ofRuns p.chunks.length p.runs,
    span.last ≤ p.chunks.length ∧ span.first ≤ p.chunks.length + 1
  /-- The chunks hold the samples that the runs announce. -/
  covered : ∀ (k : Nat) (c : Chunk), p.chunks[k]? = some c →
    c.samples.length = samplesIn p.runs (k + 1)
  /-- The samples, and the bytes of each, can be counted with four bytes. -/
  counted : p.samples.length < 2 ^ 32 ∧ ∀ s ∈ p.samples, s.length < 2 ^ 32
  uniform : p.fixedSize ≠ 0 → ∀ s ∈ p.samples, s.length = p.fixedSize.toNat
  narrow : p.wide = false → ∀ c ∈ p.chunks, c.start < 2 ^ 32

end TrackPlan

/-! ### Movies -/

/-- The plan of a file. -/
structure Movie where
  brands : FileType
  /-- Ticks per second of the movie's clock. -/
  timescale : UInt32
  plans : List TrackPlan
  /-- What the media data holds where no chunk lies. -/
  filler : List UInt8
  /-- Whether the media data comes before the movie box. -/
  dataFirst : Bool

namespace Movie

variable (m : Movie)

def fileType : Box :=
  ⟨.ofChars 'f' 't' 'y' 'p',
    [m.brands.majorBrand.bytes, numberBytes 4 m.brands.minorVersion.toNat,
      m.brands.compatibleBrands.flatMap FourCc.bytes].flatten⟩

def header : Box :=
  ⟨.ofChars 'm' 'v' 'h' 'd',
    [zeros 4, zeros 4, zeros 4, numberBytes 4 m.timescale.toNat, zeros 4, [0, 1, 0, 0], [1, 0],
      zeros 10, zeros 36, zeros 24, [0, 0, 0, 3]].flatten⟩

def box : Box := .container (.ofChars 'm' 'o' 'o' 'v') (m.header :: m.plans.map TrackPlan.box)

/-- Where the bytes of the media data start in the file. -/
def dataStart : Nat := m.fileType.size + (if m.dataFirst then 0 else m.box.size) + 8

/-- Put a chunk into media data that starts at the given place. -/
def putChunk (dataStart : Nat) (data : List UInt8) (c : Chunk) : List UInt8 :=
  data.take (c.start - dataStart) ++ c.bytes ++ data.drop (c.stop - dataStart)

/-- The chunks of all tracks. -/
def chunks : List Chunk := m.plans.flatMap (·.chunks)

def data : Box := ⟨.ofChars 'm' 'd' 'a' 't', m.chunks.foldl (putChunk m.dataStart) m.filler⟩

def boxes : List Box :=
  if m.dataFirst then [m.fileType, m.data, m.box] else [m.fileType, m.box, m.data]

/-- The bytes of the file. -/
def file : ByteArray := ⟨(Box.allBytes m.boxes).toArray⟩

/-- The parts of a plan go together. -/
structure Valid : Prop where
  nonempty : m.plans ≠ []
  plans : ∀ p ∈ m.plans, p.Valid
  /-- The size of every box can be written. -/
  fits : ∀ b ∈ m.boxes, b.Fits
  /-- Every chunk lies in the media data. -/
  inside : ∀ c ∈ m.chunks, m.dataStart ≤ c.start ∧ c.stop ≤ m.dataStart + m.filler.length
  disjoint : m.chunks.Pairwise Chunk.Disjoint

end Movie

end IsoMedia
