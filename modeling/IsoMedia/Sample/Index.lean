import IsoMedia.Sample.Tables

/-!
# The sample index

From the tables of a track follows where every sample lies and when it is decoded and shown.
`IndexTables.layout` places the samples, chunk by chunk, and is the only part that can fail;
`decodeTimes`, `compositionOffsets` and `keyFrames` expand the other tables for as many samples as
were placed.
-/

namespace IsoMedia

/-- The least and the greatest time stamp. -/
def leastTime : Int := -0x8000000000000000
def greatestTime : Int := 0x7FFFFFFFFFFFFFFF

/-- The nearest time stamp to a time. -/
def clampTime (t : Int) : Int := max leastTime (min greatestTime t)

/-- Where a sample lies and when it is due, on the clock of its track. -/
structure Sample where
  /-- The place in the file. -/
  pos : Nat
  size : Nat
  decodeTime : Int
  compositionOffset : Int
  keyFrame : Bool
deriving DecidableEq

/-- When a sample is shown. -/
def Sample.presentationTime (s : Sample) : Int := clampTime (s.decodeTime + s.compositionOffset)

/-- The place of a sample in the file. -/
structure Extent where
  pos : Nat
  size : Nat
deriving DecidableEq

/-- The tables that the index of a track is made from. -/
structure IndexTables where
  times : List TimeRun
  offsets : Option (List OffsetRun)
  runs : List ChunkRun
  chunkOffsets : List UInt64
  sizes : SampleSizes
  /-- The numbers of the key frames in ascending order; without them every sample is one. -/
  sync : Option (List UInt32)
  /-- The length of the input, in which every sample has to lie. -/
  inputLength : Nat

/-! ### Expanding runs -/

/-- The values of runs, each repeated as often as its run says and `n` in all at most, put behind
the values already there. -/
def spreadFrom {α : Type} : List (Nat × α) → Nat → Array α → Array α
  | [], _, acc => acc
  | (count, a) :: runs, n, acc =>
    if n ≤ count then acc ++ Array.replicate n a
    else spreadFrom runs (n - count) (acc ++ Array.replicate count a)

/-- `n` values from runs; where the runs end, `filler` goes on. -/
def spread {α : Type} (runs : List (Nat × α)) (filler : α) (n : Nat) : Array α :=
  let given := spreadFrom runs n #[]
  given ++ Array.replicate (n - given.size) filler

/-- The delta of the last run that is not empty. -/
def lastDelta (runs : List TimeRun) : Nat :=
  ((runs.filter (·.count ≠ 0)).getLast?.map (·.delta.toNat)).getD 0

/-- The decoding times of `n` samples: each comes after the one before it by the delta of that
one.  Beyond the runs the last delta goes on. -/
def decodeTimes (runs : List TimeRun) (n : Nat) : Array Int :=
  let deltas := spread (runs.map fun r => (r.count.toNat, r.delta.toNat)) (lastDelta runs) n
  (deltas.foldl (fun (times, t) d => (times.push t, clampTime (t + d))) (#[], (0 : Int))).1

/-- The composition offsets of `n` samples; beyond the runs they are 0. -/
def compositionOffsets (runs : List OffsetRun) (n : Nat) : Array Int :=
  spread (runs.map fun r => (r.count.toNat, r.offset.toInt)) 0 n

/-- Whether each of `n` samples, the first of which has the given number, is a key frame.  The
numbers of key frames are passed over in order. -/
def keyFramesFrom : Nat → Nat → List UInt32 → Array Bool → Array Bool
  | 0, _, _, acc => acc
  | n + 1, number, sync, acc =>
    let sync := sync.dropWhile (·.toNat < number)
    keyFramesFrom n (number + 1) sync (acc.push (sync.head?.any (·.toNat = number)))

/-- Whether each of `n` samples is a key frame. -/
def keyFrames (sync : Option (List UInt32)) (n : Nat) : Array Bool :=
  match sync with
  | none => Array.replicate n true
  | some numbers => keyFramesFrom n 1 numbers #[]

namespace IndexTables

/-! ### Placing samples -/

/-- Place `n` samples of a chunk one behind the other from `pos` on, behind those already
placed. -/
def placeSamples (t : IndexTables) (chunk : Nat) :
    Nat → Nat → Array Extent → Except Error (Array Extent)
  | 0, _, placed => .ok placed
  | n + 1, pos, placed =>
    let sample := placed.size
    if t.sizes.sampleCount.toNat ≤ sample then
      malformed (.moreSamplesThanSizes t.sizes.sampleCount.toNat)
    else match t.sizes.sizeAt sample with
      | .error e => .error e
      | .ok size =>
        let stop := pos + size.toNat
        if t.inputLength < stop then
          malformed (.sampleOutsideInput sample chunk pos size.toNat t.inputLength)
        else t.placeSamples chunk n stop (placed.push ⟨pos, size.toNat⟩)

/-- Place the samples of chunks of `n` samples each, the first of which has the given number. -/
def placeChunks (t : IndexTables) (n : Nat) :
    Nat → List UInt64 → Array Extent → Except Error (Array Extent)
  | _, [], placed => .ok placed
  | chunk, offset :: offsets, placed =>
    match t.placeSamples chunk n offset.toNat placed with
    | .error e => .error e
    | .ok placed => t.placeChunks n (chunk + 1) offsets placed

/-- The last chunk of the run of the given number.  A run reaches to the next one, the last run to
the last chunk. -/
def lastChunk (t : IndexTables) (number : Nat) (run : ChunkRun) (next : Option ChunkRun) :
    Except Error Nat :=
  let first := run.firstChunk.toNat
  let chunks := t.chunkOffsets.length
  let check (last : Nat) : Except Error Nat :=
    if chunks < last ∨ chunks + 1 < first then malformed (.chunkRange first last chunks)
    else .ok last
  if first = 0 then malformed (.chunkNumberZero number)
  else match next with
    | none => check (UInt32.ofNat chunks).toNat
    | some next =>
      if next.firstChunk.toNat ≤ first then
        malformed (.chunkOrder number first next.firstChunk.toNat)
      else check (next.firstChunk.toNat - 1)

/-- Place the samples of runs, the first of which has the given number. -/
def placeRuns (t : IndexTables) :
    Nat → List ChunkRun → Array Extent → Except Error (Array Extent)
  | _, [], placed => .ok placed
  | number, run :: runs, placed =>
    match t.lastChunk number run runs.head? with
    | .error e => .error e
    | .ok last =>
      let first := run.firstChunk.toNat
      let offsets := (t.chunkOffsets.drop (first - 1)).take (last + 1 - first)
      match t.placeChunks run.samplesPerChunk.toNat first offsets placed with
      | .error e => .error e
      | .ok placed => t.placeRuns (number + 1) runs placed

/-- The samples that runs announce, each run reaching to the next and the last one to `stop`. -/
def announced (stop : Nat) : List ChunkRun → Nat
  | [] => 0
  | run :: runs =>
    let next := (runs.head?.map (·.firstChunk.toNat)).getD stop
    (next - run.firstChunk.toNat) * run.samplesPerChunk.toNat + announced stop runs

/-- How many samples to make room for.  A declared count alone takes no room: none is made for more
samples than the runs announce, or than there are sizes or the input could hold side by side. -/
def room (t : IndexTables) : Nat :=
  let fitting :=
    if t.sizes.fixedSize = 0 then t.sizes.sizes.size
    else t.inputLength / t.sizes.fixedSize.toNat
  min (min t.sizes.sampleCount.toNat (announced (t.chunkOffsets.length + 1) t.runs)) fitting

/-- The places of all samples.  There have to be as many as there are sizes. -/
def layout (t : IndexTables) : Except Error (Array Extent) :=
  match t.placeRuns 0 t.runs (Array.emptyWithCapacity t.room) with
  | .error e => .error e
  | .ok placed =>
    let declared := t.sizes.sampleCount.toNat
    if placed.size = declared then .ok placed
    else malformed (.fewerSamplesThanSizes placed.size declared)

/-- The index: every sample in order. -/
def index (t : IndexTables) : Except Error (Array Sample) :=
  t.layout.map fun extents =>
    let n := extents.size
    let times := decodeTimes t.times n
    let offsets := compositionOffsets (t.offsets.getD []) n
    let keys := keyFrames t.sync n
    extents.mapIdx fun k e =>
      { pos := e.pos
        size := e.size
        decodeTime := times.getD k 0
        compositionOffset := offsets.getD k 0
        keyFrame := keys.getD k true }

end IndexTables

end IsoMedia
