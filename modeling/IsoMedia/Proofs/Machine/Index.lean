import IsoMedia.Proofs.Machine.Cursors
import IsoMedia.Proofs.Sample.Placement

/-!
# Making the sample index on a machine

The machine places the samples chunk by chunk, and makes the entry of each at once from what the
cursors of the other tables yield.  Chunk numbers are indices once 1 is taken from them, the place
of a sample is any word of the file, and the end of the sample is only used if it is a word as well.

`Indexing.At` says that the machine has come as far as the layout of the index; each step of the
layout keeps it (`Places`), so the machine makes the index that the tables say (`index_eq`).
-/

namespace IsoMedia

/-- The sample of the given number that lies at an extent. -/
def IndexTables.sampleAt (t : IndexTables) (sample : Nat) (e : Extent) : Sample where
  pos := e.pos
  size := e.size
  decodeTime := clampTime (TimeRun.elapsed t.times sample)
  compositionOffset := OffsetRun.offsetAt (t.offsets.getD []) sample
  keyFrame := t.sync.elim true (Machine.keyAt · sample)

/-- Every entry of an index is that of its sample. -/
theorem IndexTables.index_eq_map (t : IndexTables) :
    t.index = t.layout.map fun extents => extents.mapIdx t.sampleAt := by
  refine congrArg (Except.map · t.layout) (funext fun extents => ?_)
  refine Array.ext (by simp) fun k hk hk' => ?_
  have hsize : k < extents.size := by simpa using hk'
  have htimes := getElem?_decodeTimes t.times hsize
  have hoffsets := getElem?_compositionOffsets (t.offsets.getD []) hsize
  have hkeys : (keyFrames t.sync extents.size)[k]? =
      some (t.sync.elim true (Machine.keyAt · k)) := by
    cases t.sync with
    | none => simp [keyFrames, hsize]
    | some sync => exact Machine.getElem?_keyFrames sync hsize
  simp [sampleAt, htimes, hoffsets, hkeys]

namespace Machine

/-- The tables have no more rows than a word of 32 bits can count, and the input is one that can be
addressed. -/
structure Countable (t : IndexTables) : Prop where
  times : t.times.length < 2 ^ 32
  offsets : ∀ runs ∈ t.offsets, runs.length < 2 ^ 32
  runs : t.runs.length < 2 ^ 32
  chunkOffsets : t.chunkOffsets.length < 2 ^ 32
  sync : ∀ numbers ∈ t.sync, numbers.length < 2 ^ 32
  inputLength : t.inputLength < 2 ^ 64

/-- All rows can be indexed by a word, and the chunks be counted in 32 bits as well. -/
structure Indexable (t : IndexTables) : Prop where
  times : t.times.length < 2 ^ 64
  offsets : ∀ runs ∈ t.offsets, runs.length < 2 ^ 64
  runs : t.runs.length < 2 ^ 64
  chunkOffsets : t.chunkOffsets.length < 2 ^ 32
  sync : ∀ numbers ∈ t.sync, numbers.length < 2 ^ 64
  inputLength : t.inputLength < 2 ^ 64

theorem Countable.indexable {t : IndexTables} (h : Countable t) : Indexable t where
  times := h.times.trans (by decide)
  offsets runs hruns := (h.offsets runs hruns).trans (by decide)
  runs := h.runs.trans (by decide)
  chunkOffsets := h.chunkOffsets
  sync numbers hnumbers := (h.sync numbers hnumbers).trans (by decide)
  inputLength := h.inputLength

/-- A sum, if it is a word. -/
def checkedAdd (width a b : Nat) : Option Nat := if a + b < 2 ^ width then some (a + b) else none

/-- The largest word for what is none. -/
def saturated (n : Nat) : Nat := min n (2 ^ 64 - 1)

/-- What has been reached of an index. -/
structure Indexing where
  entries : Array Sample
  time : TimeCursor
  composition : RunCursor
  /-- The place in the numbers of the key frames. -/
  key : Nat

def Indexing.start (room : Nat) : Indexing :=
  ⟨Array.emptyWithCapacity room, .start, ⟨0, 0⟩, 0⟩

/-- Add what a run announces to what the runs before it announce.  It reaches to the next one, the
last run to the last chunk. -/
def announce (t : IndexTables) (chunkEnd sum : Nat) (numbered : ChunkRun × Nat) : Machine Nat := do
  let (run, number) := numbered
  let next := (t.runs[← add 64 number 1]?.map (·.firstChunk.toNat)).getD chunkEnd
  return saturated (sum +
    saturated ((next - run.firstChunk.toNat) * run.samplesPerChunk.toNat))

/-- How many samples there are sizes for, or the input could hold. -/
def fitting (t : IndexTables) : Machine Nat :=
  if t.sizes.fixedSize = 0 then return t.sizes.sizes.size
  else div t.inputLength t.sizes.fixedSize.toNat

/-- How many entries to make room for. -/
def room (t : IndexTables) : Machine Nat := do
  let chunkEnd ← add 64 t.chunkOffsets.length 1
  let covered ← t.runs.zipIdx.foldlM (announce t chunkEnd) 0
  let fitting ← fitting t
  return min (min t.sizes.sampleCount.toNat covered) fitting

/-- The composition offset of the next sample; without a table it is 0. -/
def offsetFrom (offsets : Option (List OffsetRun)) (c : RunCursor) : Machine (Int × RunCursor) :=
  match offsets with
  | none => return (0, c)
  | some runs => nextOffset runs c

/-- Whether the next sample is a key frame; without a table every sample is one. -/
def keyFrom (sync : Option (List UInt32)) (sample pos : Nat) : Machine (Bool × Nat) :=
  match sync with
  | none => return (true, pos)
  | some numbers => nextKey numbers sample pos

/-- Place one sample, and find where the next one in its chunk starts. -/
def placeSample (t : IndexTables) (chunk pos : Nat) (s : Indexing) : Machine (Nat × Indexing) := do
  let sample := s.entries.size
  if t.sizes.sampleCount.toNat ≤ sample then
    throw (.invalidData (.moreSamplesThanSizes t.sizes.sampleCount.toNat))
  else
    let size ← of (t.sizes.sizeAt sample)
    let (decodeTime, time) ← nextTime t.times s.time
    let (compositionOffset, composition) ← offsetFrom t.offsets s.composition
    let (keyFrame, key) ← keyFrom t.sync sample s.key
    match (checkedAdd 64 pos size.toNat).filter (· ≤ t.inputLength) with
    | none =>
      throw (.invalidData (.sampleOutsideInput sample chunk pos size.toNat t.inputLength))
    | some stop =>
      let entry : Sample := ⟨pos, size.toNat, decodeTime, compositionOffset, keyFrame⟩
      return (stop, ⟨s.entries.push entry, time, composition, key⟩)

def placeSamples (t : IndexTables) (chunk : Nat) : Nat → Nat → Indexing → Machine Indexing
  | 0, _, s => return s
  | n + 1, pos, s => do
    let (stop, s) ← placeSample t chunk pos s
    placeSamples t chunk n stop s

/-- Place the samples of one chunk after the other. -/
def placeChunks (t : IndexTables) (n first count : Nat) (s : Indexing) : Machine Indexing :=
  (List.range' first count).foldlM (fun s chunk => do
    let offset ← item t.chunkOffsets (← sub chunk 1)
    placeSamples t chunk n offset.toNat s) s

/-- The last chunk of a run, if the table of chunks reaches to it. -/
def withinChunks (t : IndexTables) (first last : Nat) : Machine Nat := do
  let chunks := t.chunkOffsets.length
  if chunks < last ∨ (← add 64 chunks 1) < first then
    throw (.invalidData (.chunkRange first last chunks))
  else return last

/-- The last chunk of the run of the given number.  The number of all chunks is cut to 32 bits. -/
def lastChunk (t : IndexTables) (number : Nat) (run : ChunkRun) : Machine Nat := do
  let first := run.firstChunk.toNat
  if first = 0 then throw (.invalidData (.chunkNumberZero number))
  else
    match t.runs[← add 64 number 1]? with
    | some next =>
      if next.firstChunk.toNat ≤ first then
        throw (.invalidData (.chunkOrder number first next.firstChunk.toNat))
      else withinChunks t first (← sub next.firstChunk.toNat 1)
    | none => withinChunks t first (t.chunkOffsets.length % 2 ^ 32)

def placeRuns (t : IndexTables) : Nat → List ChunkRun → Indexing → Machine Indexing
  | _, [], s => return s
  | number, run :: runs, s => do
    let last ← lastChunk t number run
    let first := run.firstChunk.toNat
    let s ← placeChunks t run.samplesPerChunk.toNat first (last + 1 - first) s
    placeRuns t (number + 1) runs s

/-- The index: every sample in order. -/
def index (t : IndexTables) : Machine (Array Sample) := do
  let room ← room t
  let s ← placeRuns t 0 t.runs (.start room)
  let declared := t.sizes.sampleCount.toNat
  if s.entries.size = declared then return s.entries
  else throw (.invalidData (.fewerSamplesThanSizes s.entries.size declared))

/-! ### Coming as far as the layout -/

variable {t : IndexTables}

/-- As many samples have been reached as are placed. -/
structure Indexing.At (t : IndexTables) (placed : Array Extent) (s : Indexing) : Prop where
  entries : s.entries = placed.mapIdx t.sampleAt
  time : s.time.At t.times placed.size
  composition : ∀ runs ∈ t.offsets, OffsetsFrom runs placed.size s.composition
  key : ∀ sync ∈ t.sync, sync.drop s.key = waiting sync placed.size

/-- The machine comes as far as the layout does, or fails with the same error. -/
def Places (t : IndexTables) (m : Machine Indexing) (r : Except Error (Array Extent)) : Prop :=
  (∃ e, r = .error e ∧ m = of (.error e)) ∨
    ∃ placed s, s.At t placed ∧ r = .ok placed ∧ m = of (.ok s)

theorem places_throw (e : Error) : Places t (throw e) (.error e) := .inl ⟨e, rfl, rfl⟩

theorem places_pure {placed : Array Extent} {s : Indexing} (h : s.At t placed) :
    Places t (pure s) (.ok placed) := .inr ⟨placed, s, h, rfl, rfl⟩

theorem Places.bind {m : Machine Indexing} {r : Except Error (Array Extent)}
    {k : Indexing → Machine Indexing} {f : Array Extent → Except Error (Array Extent)}
    (h : Places t m r) (hk : ∀ placed s, s.At t placed → Places t (k s) (f placed)) :
    Places t (m >>= k) (match r with | .error e => .error e | .ok placed => f placed) := by
  rcases h with ⟨e, rfl, rfl⟩ | ⟨placed, s, hs, rfl, rfl⟩
  · exact places_throw e
  · exact hk placed s hs

/-- A place beyond the words is beyond the input. -/
theorem filter_checkedAdd (ht : Indexable t) (pos size : Nat) :
    (checkedAdd 64 pos size).filter (· ≤ t.inputLength) =
      if t.inputLength < pos + size then none else some (pos + size) := by
  have hlength := ht.inputLength
  unfold checkedAdd
  by_cases hstop : t.inputLength < pos + size
  · rw [if_pos hstop]
    split <;> simp [hstop]
  · rw [if_neg hstop, if_pos (by omega)]
    simp [Nat.not_lt.1 hstop]

theorem offsetFrom_eq (ht : Indexable t) {sample : Nat} {c : RunCursor}
    (hc : ∀ runs ∈ t.offsets, OffsetsFrom runs sample c) :
    ∃ c', offsetFrom t.offsets c = pure (OffsetRun.offsetAt (t.offsets.getD []) sample, c') ∧
      ∀ runs ∈ t.offsets, OffsetsFrom runs (sample + 1) c' := by
  have hlength := ht.offsets
  cases hoffsets : t.offsets with
  | none => exact ⟨c, rfl, nofun⟩
  | some runs =>
    rw [hoffsets] at hc hlength
    obtain ⟨c', hnext, hat⟩ := nextOffset_eq (hlength runs rfl) (hc runs rfl)
    refine ⟨c', hnext, fun runs' h => ?_⟩
    cases h
    exact hat

theorem keyFrom_eq (ht : Indexable t) {sample pos : Nat} (hsample : sample + 1 < 2 ^ 32)
    (hpos : ∀ sync ∈ t.sync, sync.drop pos = waiting sync sample) :
    ∃ pos', keyFrom t.sync sample pos = pure (t.sync.elim true (keyAt · sample), pos') ∧
      ∀ sync ∈ t.sync, sync.drop pos' = waiting sync (sample + 1) := by
  have hlength := ht.sync
  cases hsync : t.sync with
  | none => exact ⟨pos, rfl, nofun⟩
  | some sync =>
    rw [hsync] at hpos hlength
    obtain ⟨pos', hnext, hat⟩ := nextKey_eq (hlength sync rfl) hsample (hpos sync rfl)
    refine ⟨pos', hnext, fun sync' h => ?_⟩
    cases h
    exact hat

theorem places_placeSamples (ht : Indexable t) (chunk n pos : Nat) {placed : Array Extent}
    {s : Indexing} (hs : s.At t placed) :
    Places t (placeSamples t chunk n pos s) (t.placeSamples chunk n pos placed) := by
  induction n generalizing pos placed s with
  | zero => exact places_pure hs
  | succ n ih =>
    have hsize : s.entries.size = placed.size := by rw [hs.entries, Array.size_mapIdx]
    rw [placeSamples, placeSample, IndexTables.placeSamples, hsize]
    dsimp only
    by_cases hcount : t.sizes.sampleCount.toNat ≤ placed.size
    · rw [if_pos hcount, if_pos hcount]
      exact places_throw _
    · have hmore : placed.size + 1 < 2 ^ 32 := by
        have := t.sizes.sampleCount.toNat_lt
        omega
      rw [if_neg hcount, if_neg hcount]
      cases t.sizes.sizeAt placed.size with
      | error e => exact places_throw e
      | ok size =>
        obtain ⟨time, htime, hatTime⟩ := nextTime_eq ht.times hs.time
        obtain ⟨composition, hoffset, hatOffset⟩ := offsetFrom_eq ht hs.composition
        obtain ⟨key, hkey, hatKey⟩ := keyFrom_eq ht hmore hs.key
        rw [of_ok, pure_bind, htime, pure_bind, hoffset, pure_bind, hkey, pure_bind,
          filter_checkedAdd ht]
        dsimp only
        -- The end of the sample is compared before it is used, so it need not be a word until then.
        by_cases hstop : t.inputLength < pos + size.toNat
        · rw [if_pos hstop, if_pos hstop]
          exact places_throw _
        · rw [if_neg hstop, if_neg hstop]
          refine ih _ ⟨?_, ?_, ?_, ?_⟩
          · rw [hs.entries, Array.mapIdx_push]
            rfl
          · rwa [Array.size_push]
          · rwa [Array.size_push]
          · rwa [Array.size_push]

theorem drop_eq_cons {α : Type} {l rest : List α} {a : α} {n : Nat} (h : l.drop n = a :: rest) :
    l[n]? = some a ∧ l.drop (n + 1) = rest := by
  rw [← List.head?_drop, ← List.drop_drop, h]
  exact ⟨rfl, rfl⟩

/-- The chunks that are indexed are those whose offsets stand in the table from the first one on. -/
theorem places_placeChunks (ht : Indexable t) {n first : Nat} (hfirst : 1 ≤ first)
    {offsets : List UInt64} (hoffsets : offsets <+: t.chunkOffsets.drop (first - 1))
    {placed : Array Extent} {s : Indexing} (hs : s.At t placed) :
    Places t (placeChunks t n first offsets.length s) (t.placeChunks n first offsets placed) := by
  induction offsets generalizing first placed s with
  | nil => exact places_pure hs
  | cons offset offsets ih =>
    obtain ⟨rest, hrest⟩ := hoffsets
    obtain ⟨hoffset, hbehind⟩ := drop_eq_cons hrest.symm
    have hbehind : offsets <+: t.chunkOffsets.drop (first + 1 - 1) := by
      rw [Nat.add_sub_cancel, ← Nat.sub_add_cancel hfirst, hbehind]
      exact ⟨rest, rfl⟩
    rw [placeChunks, List.length_cons, List.range'_succ, List.foldlM_cons, sub_eq hfirst, pure_bind,
      item_eq hoffset, pure_bind]
    exact (places_placeSamples ht first n offset.toNat hs).bind fun placed s hs =>
      ih (Nat.le_succ_of_le hfirst) hbehind hs

theorem withinChunks_eq (ht : Indexable t) (first last : Nat) :
    withinChunks t first last =
      of (if t.chunkOffsets.length < last ∨ t.chunkOffsets.length + 1 < first then
        malformed (.chunkRange first last t.chunkOffsets.length) else .ok last) := by
  have hchunks := ht.chunkOffsets
  rw [withinChunks, add_eq (by omega), pure_bind]
  split <;> rfl

theorem lastChunk_eq (ht : Indexable t) {number : Nat} {run : ChunkRun} {runs : List ChunkRun}
    (hruns : t.runs.drop number = run :: runs) :
    lastChunk t number run = of (t.lastChunk number run runs.head?) := by
  obtain ⟨hrun, hbehind⟩ := drop_eq_cons hruns
  obtain ⟨hnumber, -⟩ := List.getElem?_eq_some_iff.1 hrun
  have hlength := ht.runs
  unfold lastChunk IndexTables.lastChunk
  dsimp only
  split
  · rfl
  · rw [add_eq (by omega), pure_bind, ← List.head?_drop, hbehind]
    cases runs.head? with
    | none => exact withinChunks_eq ht _ _
    | some next =>
      dsimp only
      split
      · rfl
      · rw [sub_eq (by omega), pure_bind, withinChunks_eq ht]

/-- **The samples of runs are placed without a fault.** -/
theorem places_placeRuns (ht : Indexable t) {number : Nat} {runs : List ChunkRun}
    (hruns : t.runs.drop number = runs) {placed : Array Extent} {s : Indexing}
    (hs : s.At t placed) :
    Places t (placeRuns t number runs s) (t.placeRuns number runs placed) := by
  induction runs generalizing number placed s with
  | nil => exact places_pure hs
  | cons run runs ih =>
    rw [placeRuns, IndexTables.placeRuns, lastChunk_eq ht hruns]
    cases hlast : t.lastChunk number run runs.head? with
    | error e => exact places_throw e
    | ok last =>
      obtain ⟨hfirst, -, -, hle, -⟩ := (IndexTables.lastChunk_eq_ok_iff ht.chunkOffsets).1 hlast
      have hcount : ((t.chunkOffsets.drop (run.firstChunk.toNat - 1)).take
          (last + 1 - run.firstChunk.toNat)).length = last + 1 - run.firstChunk.toNat := by
        rw [List.length_take, List.length_drop]
        omega
      have hchunks := places_placeChunks ht (n := run.samplesPerChunk.toNat) hfirst
        (List.take_prefix (last + 1 - run.firstChunk.toNat) _) hs
      rw [hcount] at hchunks
      exact hchunks.bind fun placed s hs => ih (drop_eq_cons hruns).2 hs

/-! ### Room -/

theorem saturated_add (a b : Nat) : saturated (saturated a + saturated b) = saturated (a + b) := by
  unfold saturated
  omega

theorem foldlM_announce (ht : Indexable t) (chunkEnd number before : Nat) (runs : List ChunkRun)
    (hruns : t.runs.drop number = runs) :
    (runs.zipIdx number).foldlM (announce t chunkEnd) (saturated before) =
      pure (saturated (before + IndexTables.announced chunkEnd runs)) := by
  induction runs generalizing number before with
  | nil => rfl
  | cons run runs ih =>
    obtain ⟨hrun, hbehind⟩ := drop_eq_cons hruns
    obtain ⟨hnumber, -⟩ := List.getElem?_eq_some_iff.1 hrun
    have hlength := ht.runs
    rw [List.zipIdx_cons, List.foldlM_cons, announce, IndexTables.announced]
    dsimp only
    rw [add_eq (by omega), pure_bind, pure_bind, ← List.head?_drop, hbehind, saturated_add,
      ih _ _ hbehind, Nat.add_assoc]

/-- A sum that is no word becomes the largest word, which is no less than the declared count. -/
theorem room_eq (ht : Indexable t) : room t = pure t.room := by
  have hchunks := ht.chunkOffsets
  have hcovered : t.runs.zipIdx.foldlM (announce t (t.chunkOffsets.length + 1)) 0 =
      pure (saturated (IndexTables.announced (t.chunkOffsets.length + 1) t.runs)) := by
    have hfold := foldlM_announce ht (t.chunkOffsets.length + 1) 0 0 t.runs rfl
    rwa [Nat.zero_add] at hfold
  have hfitting : fitting t = pure (if t.sizes.fixedSize = 0 then t.sizes.sizes.size
      else t.inputLength / t.sizes.fixedSize.toNat) := by
    unfold fitting
    split
    · rfl
    · rename_i hfixed
      refine div_eq (Nat.pos_of_ne_zero fun h => hfixed ?_)
      exact UInt32.toNat_inj.1 h
  have hleast (n : Nat) : min t.sizes.sampleCount.toNat (saturated n) =
      min t.sizes.sampleCount.toNat n := by
    have := t.sizes.sampleCount.toNat_lt
    unfold saturated
    omega
  rw [room, add_eq (by omega), pure_bind, hcovered, pure_bind, hfitting, pure_bind, hleast]
  rfl

/-! ### The index -/

theorem indexing_start (room : Nat) :
    Indexing.At t (Array.emptyWithCapacity room) (.start room) :=
  ⟨rfl, timeCursor_start t.times, fun runs _ => offsetsFrom_start runs, fun _ _ => rfl⟩

/-- **The index is made without a fault.** -/
theorem index_eq (ht : Indexable t) : index t = of t.index := by
  have hplaced : Places t (placeRuns t 0 t.runs (.start t.room))
      (t.placeRuns 0 t.runs (Array.emptyWithCapacity t.room)) :=
    places_placeRuns ht rfl (indexing_start t.room)
  rw [index, room_eq ht, pure_bind, IndexTables.index_eq_map, IndexTables.layout]
  rcases hplaced with ⟨e, hlayout, hrun⟩ | ⟨placed, s, hs, hlayout, hrun⟩
  · rw [hlayout, hrun]
    rfl
  · have hsize : s.entries.size = placed.size := by rw [hs.entries, Array.size_mapIdx]
    rw [hlayout, hrun, of_ok, pure_bind]
    dsimp only
    rw [hsize]
    split
    · rw [hs.entries]
      rfl
    · rfl

end Machine

end IsoMedia
