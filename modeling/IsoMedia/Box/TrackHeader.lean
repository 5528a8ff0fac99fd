import IsoMedia.Box.Movie

/-!
# Track header and edit list

The boxes that place a track in its movie.
-/

namespace IsoMedia

/-- The header of a track. -/
structure TrackHeader where
  full : VersionFlags
  creationTime : UInt64
  modificationTime : UInt64
  trackId : UInt32
  duration : UInt64
  layer : Int16
  alternateGroup : Int16
  volume : Int16
  matrix : Matrix
  /-- The whole part of the width on screen. -/
  width : UInt32
  /-- The whole part of the height on screen. -/
  height : UInt32
deriving DecidableEq

namespace TrackHeader

def fields : Decode TrackHeader := do
  let full ← Decode.versionFlags
  let creationTime ← Decode.time full
  let modificationTime ← Decode.time full
  let trackId ← Decode.u32
  Decode.skip 4
  let duration ← Decode.time full
  Decode.skip 8
  let layer ← Decode.i16
  let alternateGroup ← Decode.i16
  let volume ← Decode.i16
  Decode.skip 2
  let matrix ← Decode.matrix
  let width ← Decode.u32
  let height ← Decode.u32
  return { full, creationTime, modificationTime, trackId, duration, layer, alternateGroup, volume,
           matrix, width := width >>> 16, height := height >>> 16 }

def ofPayload (payload : List UInt8) : Except Error TrackHeader := fields.parse payload

end TrackHeader

/-- One piece of an edit list. -/
structure Edit where
  /-- How long the piece lasts, on the clock of the movie. -/
  segmentDuration : UInt64
  /-- Where it starts in the media, on the clock of the media; -1 is an empty piece. -/
  mediaTime : Int64
  rateInteger : Int16
  rateFraction : Int16
deriving DecidableEq

/-- The pieces that a track is played in. -/
structure EditList where
  full : VersionFlags
  edits : List Edit
deriving DecidableEq

namespace EditList

/-- One row, whose times are of eight bytes in version 1 and of four bytes otherwise. -/
def row (f : VersionFlags) : Decode Edit := do
  let segmentDuration ← Decode.time f
  let mediaTime ← if f.version = 1 then Decode.i64 else Int32.toInt64 <$> Decode.i32
  let rateInteger ← Decode.i16
  let rateFraction ← Decode.i16
  return ⟨segmentDuration, mediaTime, rateInteger, rateFraction⟩

/-- The bytes that one row takes. -/
def rowWidth (f : VersionFlags) : Nat := if f.version = 1 then 20 else 12

def fields : Decode EditList := do
  let full ← Decode.versionFlags
  let count := (← Decode.u32).toNat
  if (← Decode.left) / rowWidth full < count then Decode.refuse (.invalidData (.editCount count))
  return ⟨full, ← Decode.rows count (row full)⟩

def ofPayload (payload : List UInt8) : Except Error EditList := fields.parse payload

end EditList

end IsoMedia
