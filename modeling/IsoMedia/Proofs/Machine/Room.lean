import IsoMedia.Proofs.Machine.Index

/-!
# Room for the sample index

Before an index is made, room is made for its entries (`IndexTables.room`).  What the runs announce
is counted in one sum over the runs, for which no chunk is looked up and nothing is checked; this sum
has to agree with the samples that are placed chunk by chunk.

`indexIn` makes the index in an array that cannot grow: the machine halts once an entry is put behind
the last cell.

* `IndexTables.announced_le`, `IndexTables.announced_eq` : what runs announce against the samples that
  they spread over chunks.
* `placeRunsIn_eq` : with a table of sizes, cells for what the runs announce, as far as samples are
  declared and have sizes, are not used up, whether there is an index or not.
* `room_of_index` : the room that is made is that of the index, and no declared number adds to it.
-/

namespace IsoMedia

/-- Without one size for all, only samples in the table have a size. -/
theorem SampleSizes.lt_size_of_sizeAt {s : SampleSizes} {sample : Nat} {size : UInt32}
    (hfixed : s.fixedSize = 0) (h : s.sizeAt sample = .ok size) : sample < s.sizes.size := by
  rw [sizeAt, if_neg (not_not_intro hfixed)] at h
  split at h
  · exact (Array.getElem?_eq_some_iff.1 ‹_›).1
  · cases h

namespace IndexTables

/-- How many samples there are sizes for; with one size for all, how many the input could hold side by
side. -/
def provided (t : IndexTables) : Nat :=
  if t.sizes.fixedSize = 0 then t.sizes.sizes.size else t.inputLength / t.sizes.fixedSize.toNat

/-- The same tables with another number of samples declared. -/
def declaring (t : IndexTables) (count : UInt32) : IndexTables :=
  { t with sizes := { t.sizes with sampleCount := count } }

/-- How many samples all runs announce. -/
def covered (t : IndexTables) : Nat := announced (t.chunkOffsets.length + 1) t.runs

variable {t : IndexTables} {samples : Array Sample}

theorem room_eq_min (t : IndexTables) :
    t.room = min (min t.sizes.sampleCount.toNat t.covered) t.provided := rfl

theorem room_declaring (t : IndexTables) (count : UInt32) :
    (t.declaring count).room = min (min count.toNat t.covered) t.provided := rfl

/-! ### What runs announce -/

theorem length_spots_cons (chunks : Nat) (run : ChunkRun) (runs : List ChunkRun) :
    ((Span.ofRuns chunks (run :: runs)).flatMap Span.spots).length =
      ((runs.head?.map (·.firstChunk.toNat - 1)).getD chunks + 1 - run.firstChunk.toNat) *
          run.samplesPerChunk.toNat +
        ((Span.ofRuns chunks runs).flatMap Span.spots).length := by
  rw [Span.ofRuns, List.flatMap_cons, List.length_append, Span.spots, Span.length_spotsOf,
    Span.chunkCount]

/-- Runs announce no more samples than they have places for. -/
theorem announced_le (chunks : Nat) (runs : List ChunkRun) :
    announced (chunks + 1) runs ≤ ((Span.ofRuns chunks runs).flatMap Span.spots).length := by
  induction runs with
  | nil => exact Nat.zero_le _
  | cons run runs ih =>
    rw [announced, length_spots_cons]
    refine Nat.add_le_add (Nat.mul_le_mul_right _ (Nat.sub_le_sub_right ?_ _)) ih
    cases runs.head? with
    | none => exact Nat.le_refl _
    | some next =>
      simp only [Option.map_some, Option.getD_some]
      omega

/-- If chunks are numbered from 1, they announce as many as they have places for. -/
theorem announced_eq {runs : List ChunkRun} (chunks : Nat)
    (hnumbered : ∀ run ∈ runs, 1 ≤ run.firstChunk.toNat) :
    announced (chunks + 1) runs = ((Span.ofRuns chunks runs).flatMap Span.spots).length := by
  induction runs with
  | nil => rfl
  | cons run runs ih =>
    rw [List.forall_mem_cons] at hnumbered
    rw [announced, length_spots_cons, ih hnumbered.2]
    congr 3
    cases hhead : runs.head? with
    | none => rfl
    | some next =>
      have hnext := hnumbered.2 next (List.mem_of_mem_head? hhead)
      simp only [Option.map_some, Option.getD_some]
      omega

theorem covered_le_spots (t : IndexTables) : t.covered ≤ t.spots.length := announced_le _ _

theorem Coherent.covered_eq (hc : t.Coherent) : t.covered = t.sizes.sampleCount.toNat :=
  (announced_eq _ hc.numbered).trans ((length_spots t).trans hc.covered)

/-- A table of sizes has one for every sample. -/
theorem Coherent.count_le_size (hc : t.Coherent) (hfixed : t.sizes.fixedSize = 0) :
    t.sizes.sampleCount.toNat ≤ t.sizes.sizes.size := by
  by_contra hless
  obtain ⟨size, hsize⟩ := hc.sized t.sizes.sizes.size (Nat.lt_of_not_le hless)
  exact Nat.lt_irrefl _ (SampleSizes.lt_size_of_sizeAt hfixed hsize)

theorem coherent_of_index (h : t.chunkOffsets.length < 2 ^ 32) (hs : t.index = .ok samples) :
    t.Coherent ∧ samples.size = t.sizes.sampleCount.toNat := by
  obtain ⟨extents, hlayout, hsize, -⟩ := index_eq_ok hs
  obtain ⟨hc, rfl⟩ := (layout_eq_ok_iff h).1 hlayout
  refine ⟨hc, ?_⟩
  rw [hsize, List.size_toArray, length_extentsFrom, length_spots, hc.covered]

/-- Room is made for the samples of an index, as far as they are provided for. -/
theorem room_eq_min_size (h : t.chunkOffsets.length < 2 ^ 32) (hs : t.index = .ok samples) :
    t.room = min samples.size t.provided := by
  obtain ⟨hc, hsize⟩ := coherent_of_index h hs
  rw [room_eq_min, hc.covered_eq, Nat.min_self, hsize]

theorem room_eq_size (h : t.chunkOffsets.length < 2 ^ 32) (hs : t.index = .ok samples)
    (hfixed : t.sizes.fixedSize = 0) : t.room = samples.size := by
  obtain ⟨hc, hsize⟩ := coherent_of_index h hs
  rw [room_eq_min_size h hs, provided, if_pos hfixed, hsize,
    Nat.min_eq_left (hc.count_le_size hfixed)]

/-- Another declared number adds nothing to the room for an index that there is. -/
theorem room_declaring_le (h : t.chunkOffsets.length < 2 ^ 32) (hs : t.index = .ok samples)
    (count : UInt32) : (t.declaring count).room ≤ t.room := by
  obtain ⟨hc, -⟩ := coherent_of_index h hs
  rw [room_declaring, room_eq_min, hc.covered_eq, Nat.min_self]
  omega

end IndexTables

namespace Machine

/-! ### An array that cannot grow -/

/-- Place one sample in an array of so many cells; if all of them are filled, the machine halts. -/
def placeSampleIn (cells : Nat) (t : IndexTables) (chunk pos : Nat) (s : Indexing) :
    Machine (Nat × Indexing) := do
  let (stop, s) ← placeSample t chunk pos s
  if s.entries.size ≤ cells then return (stop, s) else halt .outOfRange

def placeSamplesIn (cells : Nat) (t : IndexTables) (chunk : Nat) :
    Nat → Nat → Indexing → Machine Indexing
  | 0, _, s => return s
  | n + 1, pos, s => do
    let (stop, s) ← placeSampleIn cells t chunk pos s
    placeSamplesIn cells t chunk n stop s

def placeChunksIn (cells : Nat) (t : IndexTables) (n first count : Nat) (s : Indexing) :
    Machine Indexing :=
  (List.range' first count).foldlM (fun s chunk => do
    let offset ← item t.chunkOffsets (← sub chunk 1)
    placeSamplesIn cells t chunk n offset.toNat s) s

def placeRunsIn (cells : Nat) (t : IndexTables) : Nat → List ChunkRun → Indexing → Machine Indexing
  | _, [], s => return s
  | number, run :: runs, s => do
    let last ← lastChunk t number run
    let first := run.firstChunk.toNat
    let s ← placeChunksIn cells t run.samplesPerChunk.toNat first (last + 1 - first) s
    placeRunsIn cells t (number + 1) runs s

/-- The index, made in an array of so many cells. -/
def indexIn (cells : Nat) (t : IndexTables) : Machine (Array Sample) := do
  let s ← placeRunsIn cells t 0 t.runs (.start cells)
  let declared := t.sizes.sampleCount.toNat
  if s.entries.size = declared then return s.entries
  else throw (.invalidData (.fewerSamplesThanSizes s.entries.size declared))

variable {t : IndexTables} {s : Indexing} {samples : Array Sample}
  {cells bound chunk n pos first count number : Nat} {run : ChunkRun} {runs : List ChunkRun}

/-! ### How many entries there are -/

/-- One entry is put behind the others, if it is declared and, in a table of sizes, has one. -/
theorem returns_placeSample :
    Returns (placeSample t chunk pos s) fun (_, s') =>
      s'.entries.size = s.entries.size + 1 ∧ s'.entries.size ≤ t.sizes.sampleCount.toNat ∧
        (t.sizes.fixedSize = 0 → s'.entries.size ≤ t.sizes.sizes.size) := by
  unfold placeSample
  dsimp only
  split
  · exact .throw _
  · rename_i hdeclared
    refine .step fun size hsize => .step fun _ _ => .step fun _ _ => .step fun _ _ => ?_
    split
    · exact .throw _
    · refine .pure ⟨Array.size_push _, ?_, fun hfixed => ?_⟩
      · rw [Array.size_push]
        omega
      · rw [Array.size_push]
        exact SampleSizes.lt_size_of_sizeAt hfixed (Except.ok.inj hsize)

theorem returns_placeSamples :
    Returns (placeSamples t chunk n pos s) fun s' => s'.entries.size = s.entries.size + n := by
  induction n generalizing pos s with
  | zero => exact .pure rfl
  | succ n ih =>
    refine returns_placeSample.bind ?_
    rintro ⟨stop, s'⟩ ⟨hsize, -⟩ s'' hs''
    rw [ih s'' hs'', hsize, Nat.add_assoc, Nat.add_comm 1]

theorem returns_placeChunks :
    Returns (placeChunks t n first count s) fun s' =>
      s'.entries.size = s.entries.size + count * n := by
  unfold placeChunks
  induction count generalizing first s with
  | zero => exact .pure (by rw [Nat.zero_mul, Nat.add_zero])
  | succ count ih =>
    rw [List.range'_succ, List.foldlM_cons]
    refine Returns.bind (.step fun _ _ => .step fun _ _ => returns_placeSamples)
      fun s' hsize s'' hs'' => ?_
    rw [ih s'' hs'', hsize, Nat.succ_mul]
    omega

/-- A run has no more chunks than it announces. -/
theorem returns_lastChunk (hruns : t.runs.drop number = run :: runs) :
    Returns (lastChunk t number run) fun last =>
      last + 1 ≤ (runs.head?.map (·.firstChunk.toNat)).getD (t.chunkOffsets.length + 1) := by
  have hwithin (first last : Nat) : Returns (withinChunks t first last) fun stop => stop = last := by
    unfold withinChunks
    refine .step fun _ _ => ?_
    split
    · exact .throw _
    · exact .pure rfl
  unfold lastChunk
  dsimp only
  split
  · exact .throw _
  · refine .step fun next hnext => ?_
    obtain ⟨-, rfl⟩ := add_eq_pure_iff.1 hnext
    rw [← List.head?_drop, (drop_eq_cons hruns).2]
    cases runs.head? with
    | none =>
      -- The number of all chunks is cut to 32 bits, which does not make it larger.
      refine fun last hlast => ?_
      rw [hwithin _ _ last hlast]
      exact Nat.succ_le_succ (Nat.mod_le _ _)
    | some next =>
      dsimp only
      split
      · exact .throw _
      · rename_i hbehind
        rw [sub_eq (by omega), pure_bind]
        refine fun last hlast => ?_
        rw [hwithin _ _ last hlast, Option.map_some, Option.getD_some]
        omega

/-! ### Enough cells -/

section Enough

variable (hfixed : t.sizes.fixedSize = 0)
  (hcells : min (min t.sizes.sampleCount.toNat bound) t.sizes.sizes.size ≤ cells)

include hfixed hcells

theorem placeSampleIn_eq (hs : s.entries.size < bound) :
    placeSampleIn cells t chunk pos s = placeSample t chunk pos s := by
  conv_rhs => rw [← bind_pure (placeSample t chunk pos s)]
  refine bind_congr_of_pure ?_
  rintro ⟨stop, s'⟩ hs'
  obtain ⟨hsize, hdeclared, hsized⟩ := returns_placeSample _ hs'
  have hsized := hsized hfixed
  exact if_pos (by omega)

theorem placeSamplesIn_eq (hs : s.entries.size + n ≤ bound) :
    placeSamplesIn cells t chunk n pos s = placeSamples t chunk n pos s := by
  induction n generalizing pos s with
  | zero => rfl
  | succ n ih =>
    rw [placeSamplesIn, placeSampleIn_eq hfixed hcells (by omega), placeSamples]
    refine bind_congr_of_pure ?_
    rintro ⟨stop, s'⟩ hs'
    obtain ⟨hsize, -⟩ := returns_placeSample _ hs'
    exact ih (by omega)

theorem placeChunksIn_eq (hs : s.entries.size + count * n ≤ bound) :
    placeChunksIn cells t n first count s = placeChunks t n first count s := by
  unfold placeChunksIn placeChunks
  induction count generalizing first s with
  | zero => rfl
  | succ count ih =>
    rw [Nat.succ_mul] at hs
    have hone (offset : UInt64) : placeSamplesIn cells t first n offset.toNat s =
        placeSamples t first n offset.toNat s := placeSamplesIn_eq hfixed hcells (by omega)
    rw [List.range'_succ, List.foldlM_cons, List.foldlM_cons]
    simp only [hone]
    refine bind_congr_of_pure fun s' hs' => ih ?_
    obtain ⟨place, -, hs'⟩ := bind_eq_pure_iff.1 hs'
    obtain ⟨offset, -, hs'⟩ := bind_eq_pure_iff.1 hs'
    rw [returns_placeSamples s' hs']
    omega

/-- **Cells for what the runs announce are not used up.** -/
theorem placeRunsIn_eq (hruns : t.runs.drop number = runs)
    (hs : s.entries.size + IndexTables.announced (t.chunkOffsets.length + 1) runs ≤ bound) :
    placeRunsIn cells t number runs s = placeRuns t number runs s := by
  induction runs generalizing number s with
  | nil => rfl
  | cons run runs ih =>
    rw [placeRunsIn, placeRuns]
    rw [IndexTables.announced] at hs
    refine bind_congr_of_pure fun last hlast => ?_
    have hcount : (last + 1 - run.firstChunk.toNat) * run.samplesPerChunk.toNat ≤ _ :=
      Nat.mul_le_mul_right _ (Nat.sub_le_sub_right (returns_lastChunk hruns last hlast) _)
    dsimp only
    rw [placeChunksIn_eq hfixed hcells (by omega)]
    refine bind_congr_of_pure fun s' hs' => ih (drop_eq_cons hruns).2 ?_
    rw [returns_placeChunks s' hs']
    omega

end Enough

/-- **The room that is made is enough**, whether there is an index or not. -/
theorem indexIn_eq (ht : Indexable t) (hfixed : t.sizes.fixedSize = 0) (hcells : t.room ≤ cells) :
    indexIn cells t = of t.index := by
  rw [IndexTables.room_eq_min, IndexTables.provided, if_pos hfixed] at hcells
  -- Both start with no entries, wherever the room for them is.
  have hruns : placeRunsIn cells t 0 t.runs (.start cells) =
      placeRuns t 0 t.runs (.start t.room) := by
    refine placeRunsIn_eq hfixed hcells rfl ?_
    exact Nat.le_of_eq (Nat.zero_add _)
  rw [← index_eq ht, indexIn, index, room_eq ht, pure_bind, hruns]

/-! ### No fewer cells -/

theorem returns_placeSamplesIn (hs : s.entries.size ≤ cells) :
    Returns (placeSamplesIn cells t chunk n pos s) fun s' => s'.entries.size ≤ cells := by
  induction n generalizing pos s with
  | zero => exact .pure hs
  | succ n ih =>
    have hone : Returns (placeSampleIn cells t chunk pos s) fun (_, s') =>
        s'.entries.size ≤ cells := by
      refine .step ?_
      rintro ⟨stop, s'⟩ -
      dsimp only
      split
      · exact .pure ‹_›
      · exact .halt _
    refine hone.bind ?_
    rintro ⟨stop, s'⟩ hs'
    exact ih hs'

theorem returns_placeChunksIn (hs : s.entries.size ≤ cells) :
    Returns (placeChunksIn cells t n first count s) fun s' => s'.entries.size ≤ cells := by
  unfold placeChunksIn
  induction count generalizing first s with
  | zero => exact .pure hs
  | succ count ih =>
    rw [List.range'_succ, List.foldlM_cons]
    exact Returns.bind (.step fun _ _ => .step fun _ _ => returns_placeSamplesIn hs)
      fun s' hs' => ih hs'

theorem returns_placeRunsIn (hs : s.entries.size ≤ cells) :
    Returns (placeRunsIn cells t number runs s) fun s' => s'.entries.size ≤ cells := by
  induction runs generalizing number s with
  | nil => exact .pure hs
  | cons run runs ih =>
    exact .step fun last _ => (returns_placeChunksIn hs).bind fun s' hs' => ih hs'

/-- An index that is made has found a cell for every sample. -/
theorem returns_indexIn : Returns (indexIn cells t) fun samples => samples.size ≤ cells := by
  refine (returns_placeRunsIn (Nat.zero_le _)).bind fun s hs => ?_
  dsimp only
  split
  · exact .pure hs
  · exact .throw _

/-! ### The room that is made -/

/-- **As much room is made as the index takes.**  There is never more room than samples are declared,
and, whatever number is declared, no more than the runs have places for and than is provided for.  If
there is an index, no other declared number would have made more room, and with a table of sizes there
is room for its samples and no more.

All this holds on a machine too, which has the largest word for a sum that is none: it makes the same
room, and with a table of sizes an array with this room is never used up, whether there is an index or
not; if there is one, it can be made in as many cells as there is room, but not in fewer. -/
theorem room_of_index (t : IndexTables) (h : t.chunkOffsets.length < 2 ^ 32) :
    t.room ≤ t.sizes.sampleCount.toNat ∧ t.room ≤ t.provided ∧
    (∀ count, (t.declaring count).room ≤ t.spots.length ∧
      (t.declaring count).room ≤ t.provided) ∧
    (∀ samples, t.index = .ok samples →
      (∀ count, (t.declaring count).room ≤ t.room) ∧
      (t.sizes.fixedSize = 0 → t.room = samples.size)) ∧
    (Indexable t → room t = pure t.room ∧
      (t.sizes.fixedSize = 0 → indexIn t.room t = of t.index ∧
        ∀ samples, t.index = .ok samples →
          ∀ cells, indexIn cells t = of t.index ↔ samples.size ≤ cells)) := by
  have hspots := t.covered_le_spots
  refine ⟨?_, ?_, fun count => ?_, fun samples hs => ?_, fun ht => ⟨room_eq ht, fun hfixed => ?_⟩⟩
  · rw [t.room_eq_min]
    omega
  · exact Nat.min_le_right _ _
  · rw [t.room_declaring]
    omega
  · exact ⟨IndexTables.room_declaring_le h hs, IndexTables.room_eq_size h hs⟩
  · refine ⟨indexIn_eq ht hfixed (Nat.le_refl _), fun samples hs cells => ?_⟩
    constructor
    · intro hin
      rw [hs] at hin
      exact returns_indexIn samples hin
    · intro hle
      exact indexIn_eq ht hfixed (IndexTables.room_eq_size h hs hfixed ▸ hle)

/-- Two samples in the first of three chunks and one in the last; a run without samples lies between
them, and another run starts right behind the last chunk. -/
def gappedRuns : IndexTables where
  times := [⟨3, 1⟩]
  offsets := none
  runs := [⟨1, 2, 1⟩, ⟨2, 0, 1⟩, ⟨3, 1, 1⟩, ⟨4, 7, 1⟩]
  chunkOffsets := [100, 200, 300]
  sizes := ⟨0, 3, #[10, 20, 30]⟩
  sync := none
  inputLength := 330

/-- There is room for three samples, also if the largest number is declared; two cells are too few. -/
theorem gappedRuns_room :
    gappedRuns.chunkOffsets.length < 2 ^ 32 ∧ Indexable gappedRuns ∧
      ∃ samples, gappedRuns.index = .ok samples ∧ samples.size = 3 ∧
        room gappedRuns = pure 3 ∧ (gappedRuns.declaring 0xFFFFFFFF).room ≤ 3 ∧
        indexIn 3 gappedRuns = of (.ok samples) ∧ indexIn 2 gappedRuns ≠ of (.ok samples) := by
  have hlength : gappedRuns.chunkOffsets.length < 2 ^ 32 := by decide
  have hwords : Indexable gappedRuns :=
    ⟨by decide, nofun, by decide, by decide, nofun, by decide⟩
  obtain ⟨-, -, -, hindex, hmachine⟩ := room_of_index gappedRuns hlength
  obtain ⟨hroom, henough⟩ := hmachine hwords
  obtain ⟨hin, hleast⟩ := henough rfl
  exact ⟨hlength, hwords, _, rfl, rfl, hroom, (hindex _ rfl).1 _, hin,
    fun htwo => absurd ((hleast _ rfl 2).1 htwo) (by decide)⟩

/-- With one size for all, chunks may share bytes, and then there are more samples than room. -/
example :
    let t : IndexTables :=
      ⟨[⟨2, 1⟩], none, [⟨1, 1, 1⟩], [0, 0], ⟨10, 2, #[]⟩, none, 10⟩
    t.room = 1 ∧ ∃ samples, t.index = .ok samples ∧ samples.size = 2 :=
  ⟨rfl, _, rfl, rfl⟩

end Machine

end IsoMedia
