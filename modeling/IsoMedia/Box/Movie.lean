import IsoMedia.Bytes.Cursor

/-!
# File type and movie header

The boxes that speak of a file or a movie as a whole.
-/

namespace IsoMedia

/-- The brands of a file. -/
structure FileType where
  majorBrand : FourCc
  minorVersion : UInt32
  compatibleBrands : List FourCc
deriving DecidableEq

namespace FileType

/-- The fields; the compatible brands fill the rest of the box, and an incomplete one at its end is
left out. -/
def fields : Decode FileType := do
  let major ← Decode.fourCc
  let minor ← Decode.u32
  let brands ← Decode.rows ((← Decode.left) / 4) Decode.fourCc
  return ⟨major, minor, brands⟩

def ofPayload (payload : List UInt8) : Except Error FileType := fields.parse payload

end FileType

/-- A time or a duration, of eight bytes in version 1 and of four bytes otherwise. -/
def Decode.time (f : VersionFlags) : Decode UInt64 :=
  if f.version = 1 then Decode.u64 else UInt32.toUInt64 <$> Decode.u32

/-- A transformation matrix, row by row. -/
abbrev Matrix := Vector Int32 9

/-- The nine entries of a matrix. -/
def Decode.matrix : Decode Matrix := do
  return #v[← Decode.i32, ← Decode.i32, ← Decode.i32,
    ← Decode.i32, ← Decode.i32, ← Decode.i32,
    ← Decode.i32, ← Decode.i32, ← Decode.i32]

/-- The header of a movie. -/
structure MovieHeader where
  full : VersionFlags
  creationTime : UInt64
  modificationTime : UInt64
  timescale : UInt32
  duration : UInt64
  /-- The preferred rate, with 16 bits behind the point. -/
  rate : Int32
  /-- The preferred volume, with 8 bits behind the point. -/
  volume : Int16
  matrix : Matrix
  nextTrackId : UInt32
deriving DecidableEq

namespace MovieHeader

def fields : Decode MovieHeader := do
  let full ← Decode.versionFlags
  let creationTime ← Decode.time full
  let modificationTime ← Decode.time full
  let timescale ← Decode.u32
  let duration ← Decode.time full
  let rate ← Decode.i32
  let volume ← Decode.i16
  Decode.skip 10
  let matrix ← Decode.matrix
  Decode.skip 24
  let nextTrackId ← Decode.u32
  return { full, creationTime, modificationTime, timescale, duration, rate, volume, matrix,
           nextTrackId }

def ofPayload (payload : List UInt8) : Except Error MovieHeader := fields.parse payload

end MovieHeader

end IsoMedia
