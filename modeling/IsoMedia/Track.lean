import IsoMedia.Box.Media
import IsoMedia.Box.TrackHeader
import IsoMedia.Description.Entry
import IsoMedia.Sample.Index

/-!
# Tracks

A `TrackDraft` gathers the tables of one track while its boxes are read; of a table that comes more
than once the last one counts.  `TrackDraft.build` checks that no required table is missing and makes
the `Track`, whose index never changes afterwards; only its `cursor` moves.
-/

namespace IsoMedia

/-- What is known so far of a track. -/
structure TrackDraft where
  /-- The number of the track, counted from 0 in the order in which tracks start in the file. -/
  number : Nat
  header : Option TrackHeader := none
  handler : Option Handler := none
  mediaHeader : Option MediaHeader := none
  editList : Option EditList := none
  description : Option SampleDescription := none
  times : Option (List TimeRun) := none
  offsets : Option (List OffsetRun) := none
  runs : Option (List ChunkRun) := none
  chunkOffsets : Option (List UInt64) := none
  sizes : Option SampleSizes := none
  /-- In ascending order and without repetitions. -/
  sync : Option (List UInt32) := none
deriving DecidableEq

/-- A track that can be read. -/
structure Track where
  number : Nat
  header : Option TrackHeader
  handlerType : Option FourCc
  metaData : MetaData
  description : SampleDescription
  mediaHeader : MediaHeader
  editList : Option EditList
  times : List TimeRun
  offsets : Option (List OffsetRun)
  runs : List ChunkRun
  chunkOffsets : List UInt64
  sizes : SampleSizes
  sync : Option (List UInt32)
  samples : Array Sample
  /-- The number of the next sample to read. -/
  cursor : Nat
deriving DecidableEq

/-- The sum of the bits whose table is there. -/
def markBits (present : List (Nat × Bool)) : Nat :=
  present.foldr (fun (bit, here) sum => (if here then 1 <<< bit else 0) + sum) 0

namespace TrackDraft

/-- The tables gathered so far, one bit for each. -/
def mark (d : TrackDraft) : Nat :=
  markBits [(0, d.description.isSome), (1, d.times.isSome), (2, d.runs.isSome),
    (3, d.chunkOffsets.isSome), (4, d.sizes.isSome), (5, d.mediaHeader.isSome),
    (6, d.sync.isSome), (7, d.offsets.isSome), (8, d.editList.isSome)]

/-- Note that a table of the given name comes again. -/
def noteRepeated {α : Type} (d : TrackDraft) (name : String) (before : Option α) : Noted Unit :=
  if before.isSome then
    Noted.say .warn .track s!"MP4: 轨道 #{d.number} 出现重复的 {name}, 使用后出现的"
  else pure ()

def setHeader (d : TrackDraft) (h : TrackHeader) : Noted TrackDraft :=
  return { d with header := some h }

/-- A handler for data references says nothing about the track and is passed over. -/
def setHandler (d : TrackDraft) (h : Handler) : Noted TrackDraft :=
  return if h.handlesData then d else { d with handler := some h }

def setMediaHeader (d : TrackDraft) (h : MediaHeader) : Noted TrackDraft := do
  d.noteRepeated "mdhd" d.mediaHeader
  return { d with mediaHeader := some h }

def setEditList (d : TrackDraft) (l : EditList) : Noted TrackDraft := do
  d.noteRepeated "elst" d.editList
  return { d with editList := some l }

def setDescription (d : TrackDraft) (s : SampleDescription) : Noted TrackDraft := do
  d.noteRepeated "stsd" d.description
  return { d with description := some s }

def setTimes (d : TrackDraft) (runs : List TimeRun) : Noted TrackDraft := do
  d.noteRepeated "stts" d.times
  return { d with times := some runs }

def setOffsets (d : TrackDraft) (runs : List OffsetRun) : Noted TrackDraft := do
  d.noteRepeated "ctts" d.offsets
  return { d with offsets := some runs }

def setRuns (d : TrackDraft) (runs : List ChunkRun) : Noted TrackDraft := do
  d.noteRepeated "stsc" d.runs
  return { d with runs := some runs }

def setChunkOffsets (d : TrackDraft) (offsets : List UInt64) : Noted TrackDraft := do
  d.noteRepeated "stco/co64" d.chunkOffsets
  return { d with chunkOffsets := some offsets }

def setSizes (d : TrackDraft) (sizes : SampleSizes) : Noted TrackDraft := do
  d.noteRepeated "stsz/stz2" d.sizes
  return { d with sizes := some sizes }

/-- Key frames are kept in ascending order and without repetitions. -/
def setSync (d : TrackDraft) (numbers : List UInt32) : Noted TrackDraft := do
  d.noteRepeated "stss" d.sync
  return { d with sync := some (numbers.mergeSort fun a b => decide (a ≤ b)).eraseReps }

/-- A table, or the error that it is missing. -/
def require {α : Type} (d : TrackDraft) (missing : RequiredTable) : Option α → Except Error α
  | some a => .ok a
  | none => .error (.incompleteTrack d.number missing)

/-- Data found malformed while building this track; other errors stay as they are. -/
def located (d : TrackDraft) : Error → Error
  | .invalidData fault => .invalidData (.inTrack d.number fault)
  | e => e

/-- The track, if it has every required table and its samples lie within an input of the given
length. -/
def finish (d : TrackDraft) (inputLength : Nat) : Except Error Track := do
  let description ← d.require .sampleDescription d.description
  let times ← d.require .timeToSample d.times
  let runs ← d.require .sampleToChunk d.runs
  let chunkOffsets ← d.require .chunkOffset d.chunkOffsets
  let sizes ← d.require .sampleSize d.sizes
  let mediaHeader ← d.require .mediaHeader d.mediaHeader
  let tables : IndexTables :=
    { times, offsets := d.offsets, runs, chunkOffsets, sizes, sync := d.sync, inputLength }
  let samples ← tables.index.mapError d.located
  match description.metaData? with
  | none => malformed (.inTrack d.number .noSampleEntry)
  | some metaData =>
    return { number := d.number, header := d.header
             handlerType := d.handler.map (·.handlerType)
             metaData, description, mediaHeader, editList := d.editList
             times, offsets := d.offsets, runs, chunkOffsets, sizes, sync := d.sync
             samples, cursor := 0 }

end TrackDraft

namespace Track

def mediaType (t : Track) : MediaType := t.metaData.mediaType
def codec (t : Track) : Codec := t.metaData.codec

/-- The number that the movie gives to the track, 0 without a header. -/
def trackId (t : Track) : UInt32 := (t.header.map (·.trackId)).getD 0

/-- Ticks per second of the track's clock. -/
def timescale (t : Track) : UInt32 := t.mediaHeader.timescale
def duration (t : Track) : UInt64 := t.mediaHeader.duration
def language (t : Track) : String := t.mediaHeader.language
def sampleCount (t : Track) : Nat := t.samples.size
def chunkCount (t : Track) : Nat := t.chunkOffsets.length

/-- The tables of the track, one bit for each. -/
def mark (t : Track) : Nat :=
  markBits [(0, true), (1, true), (2, true), (3, true), (4, true), (5, true),
    (6, t.sync.isSome), (7, t.offsets.isSome), (8, t.editList.isSome)]

/-- The next sample to read. -/
def peek? (t : Track) : Option Sample := t.samples[t.cursor]?

/-- The track with its next sample read. -/
def advance (t : Track) : Track := { t with cursor := t.cursor + 1 }

end Track

/-- The track of a draft, noting what it holds. -/
def TrackDraft.build (d : TrackDraft) (inputLength : Nat) : Checked Track := do
  let t ← Checked.ofExcept (d.finish inputLength)
  Checked.say .debug .track
    s!"MP4: 轨道 #{t.number} {t.mediaType.label} {t.codec.name}, {t.sampleCount} 个采样, {t.chunkCount} 个块"
  return t

end IsoMedia
