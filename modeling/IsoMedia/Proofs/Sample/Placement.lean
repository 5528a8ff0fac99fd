import IsoMedia.Sample.Index
import Mathlib.Algebra.Ring.Nat
import Mathlib.Data.List.Chain

/-!
# Where the sample index places samples

The runs of a track spread its samples over chunks: `IndexTables.spots` lists, sample by sample, the
chunk it lies in and how many samples precede it there, and `IndexTables.extentAt` says where a
sample with such a spot lies in the file.  `IndexTables.Coherent` collects what the tables have to
satisfy.

`IndexTables.index_iff_coherent` proves that an index is made exactly from coherent tables, and that
it then places every sample at its spot.
-/

namespace IsoMedia

/-- Where a sample lies among the chunks of its track. -/
structure Spot where
  /-- The number of the chunk, counted from 1. -/
  chunk : Nat
  /-- How many samples precede it in the chunk. -/
  before : Nat
deriving DecidableEq

/-- The chunks that one run describes. -/
structure Span where
  first : Nat
  last : Nat
  /-- How many samples each chunk holds. -/
  perChunk : Nat
deriving DecidableEq

namespace Span

/-- The number of chunks. -/
def chunkCount (s : Span) : Nat := s.last + 1 - s.first

/-- The samples of consecutive chunks, chunk by chunk. -/
def spotsOf (perChunk first count : Nat) : List Spot :=
  (List.range' first count).flatMap fun c => (List.range' 0 perChunk).map (Spot.mk c)

/-- The samples of the run, chunk by chunk. -/
def spots (s : Span) : List Spot := spotsOf s.perChunk s.first s.chunkCount

theorem length_spotsOf (perChunk first count : Nat) :
    (spotsOf perChunk first count).length = count * perChunk := by
  simp only [spotsOf, List.length_flatMap, List.length_map, List.length_range', List.map_const',
    List.sum_replicate_nat]

theorem spotsOf_succ (perChunk first count : Nat) :
    spotsOf perChunk first (count + 1) =
      (List.range' 0 perChunk).map (Spot.mk first) ++ spotsOf perChunk (first + 1) count := by
  simp [spotsOf, List.range'_succ]

/-- A run reaches to the chunk before the next run, the last run to the last of `chunks`. -/
def ofRuns (chunks : Nat) : List ChunkRun → List Span
  | [] => []
  | run :: runs =>
    ⟨run.firstChunk.toNat, (runs.head?.map (·.firstChunk.toNat - 1)).getD chunks,
      run.samplesPerChunk.toNat⟩ :: ofRuns chunks runs

end Span

namespace IndexTables

/-- The chunks that each run describes. -/
def spans (t : IndexTables) : List Span := Span.ofRuns t.chunkOffsets.length t.runs

/-- The place of every sample among the chunks, in the order of the samples. -/
def spots (t : IndexTables) : List Spot := t.spans.flatMap Span.spots

/-- The size of the sample of the given number, 0 if the table of sizes has none for it. -/
def sizeOf (t : IndexTables) (sample : Nat) : Nat :=
  match t.sizes.sizeAt sample with
  | .ok size => size.toNat
  | .error _ => 0

/-- What `count` samples take from the given one on. -/
def totalSize (t : IndexTables) (sample count : Nat) : Nat :=
  ((List.range' sample count).map t.sizeOf).sum

/-- Where the sample of the given number lies if it has the given spot: behind the samples that
precede it in its chunk. -/
def extentAt (t : IndexTables) (sample : Nat) (spot : Spot) : Extent :=
  ⟨(t.chunkOffsets.getD (spot.chunk - 1) 0).toNat
      + t.totalSize (sample - spot.before) spot.before,
    t.sizeOf sample⟩

/-- The tables of a track go together. -/
structure Coherent (t : IndexTables) : Prop where
  /-- Chunks are numbered from 1. -/
  numbered : ∀ run ∈ t.runs, 1 ≤ run.firstChunk.toNat
  ascending : (t.runs.map (·.firstChunk.toNat)).Pairwise (· < ·)
  /-- No run goes beyond the table of chunks. -/
  within : ∀ span ∈ t.spans,
    span.last ≤ t.chunkOffsets.length ∧ span.first ≤ t.chunkOffsets.length + 1
  /-- The runs describe as many samples as there are sizes. -/
  covered : (t.spans.map fun span => (span.last + 1 - span.first) * span.perChunk).sum =
    t.sizes.sampleCount.toNat
  sized : ∀ sample < t.sizes.sampleCount.toNat, ∃ size, t.sizes.sizeAt sample = .ok size
  /-- Every sample ends within the input. -/
  inside : ∀ sample spot, t.spots[sample]? = some spot →
    (t.extentAt sample spot).pos + (t.extentAt sample spot).size ≤ t.inputLength

variable {t : IndexTables}

theorem sizeOf_eq {sample : Nat} {size : UInt32} (h : t.sizes.sizeAt sample = .ok size) :
    t.sizeOf sample = size.toNat := by
  simp only [sizeOf, h]

theorem totalSize_succ (sample count : Nat) :
    t.totalSize sample (count + 1) = t.totalSize sample count + t.sizeOf (sample + count) := by
  simp [totalSize, List.range'_1_concat]

/-! ### Spots one after the other -/

/-- A sample may be placed at a spot. -/
def Fits (t : IndexTables) (sample : Nat) (spot : Spot) : Prop :=
  sample < t.sizes.sampleCount.toNat ∧ (∃ size, t.sizes.sizeAt sample = .ok size) ∧
    (t.extentAt sample spot).pos + (t.extentAt sample spot).size ≤ t.inputLength

/-- The samples from the given number on may be placed at spots. -/
def FitFrom (t : IndexTables) : Nat → List Spot → Prop
  | _, [] => True
  | sample, spot :: spots => t.Fits sample spot ∧ t.FitFrom (sample + 1) spots

/-- Where the samples from the given number on lie at spots. -/
def extentsFrom (t : IndexTables) : Nat → List Spot → List Extent
  | _, [] => []
  | sample, spot :: spots => t.extentAt sample spot :: t.extentsFrom (sample + 1) spots

theorem length_extentsFrom (sample : Nat) (spots : List Spot) :
    (t.extentsFrom sample spots).length = spots.length := by
  induction spots generalizing sample with
  | nil => rfl
  | cons spot spots ih => simp [extentsFrom, ih]

theorem fitFrom_append (sample : Nat) (a b : List Spot) :
    t.FitFrom sample (a ++ b) ↔ t.FitFrom sample a ∧ t.FitFrom (sample + a.length) b := by
  induction a generalizing sample with
  | nil => simp [FitFrom]
  | cons spot a ih =>
    simp only [List.cons_append, FitFrom, ih, List.length_cons, and_assoc,
      Nat.add_assoc, Nat.add_comm 1]

theorem extentsFrom_append (sample : Nat) (a b : List Spot) :
    t.extentsFrom sample (a ++ b) =
      t.extentsFrom sample a ++ t.extentsFrom (sample + a.length) b := by
  induction a generalizing sample with
  | nil => simp [extentsFrom]
  | cons spot a ih =>
    simp only [List.cons_append, extentsFrom, ih, List.length_cons, Nat.add_assoc, Nat.add_comm 1]

theorem getElem?_extentsFrom (sample : Nat) (spots : List Spot) (k : Nat) :
    (t.extentsFrom sample spots)[k]? = spots[k]?.map (t.extentAt (sample + k)) := by
  induction spots generalizing sample k with
  | nil => simp [extentsFrom]
  | cons spot spots ih =>
    cases k with
    | zero => simp [extentsFrom]
    | succ k =>
      simp only [extentsFrom, List.getElem?_cons_succ, ih]
      rw [show sample + 1 + k = sample + (k + 1) by omega]

theorem fitFrom_iff (sample : Nat) (spots : List Spot) :
    t.FitFrom sample spots ↔
      ∀ (k : Nat) (spot : Spot), spots[k]? = some spot → t.Fits (sample + k) spot := by
  induction spots generalizing sample with
  | nil => simp [FitFrom]
  | cons spot spots ih =>
    constructor
    · rintro ⟨h0, h⟩ k s hs
      cases k with
      | zero =>
        simp only [List.getElem?_cons_zero, Option.some.injEq] at hs
        subst hs
        exact h0
      | succ k =>
        have := (ih (sample + 1)).1 h k s (by simpa using hs)
        rwa [show sample + 1 + k = sample + (k + 1) by omega] at this
    · intro h
      refine ⟨h 0 spot rfl, (ih (sample + 1)).2 fun k s hs => ?_⟩
      have := h (k + 1) s (by simpa using hs)
      rwa [show sample + (k + 1) = sample + 1 + k by omega] at this

/-! ### Placing -/

theorem append_push_toArray (placed : Array Extent) (e : Extent) (es : List Extent) :
    placed.push e ++ es.toArray = placed ++ (e :: es).toArray := by
  apply Array.toList_inj.1
  simp

/-- The samples of one chunk are placed one behind the other.  `b` of them were placed before, so
that the next one starts at `pos`. -/
theorem placeSamples_eq_ok_iff {chunk n b pos : Nat} {placed placed' : Array Extent}
    (hb : b ≤ placed.size)
    (hpos : pos = (t.chunkOffsets.getD (chunk - 1) 0).toNat + t.totalSize (placed.size - b) b) :
    t.placeSamples chunk n pos placed = .ok placed' ↔
      t.FitFrom placed.size ((List.range' b n).map (Spot.mk chunk)) ∧
        placed' = placed ++
          (t.extentsFrom placed.size ((List.range' b n).map (Spot.mk chunk))).toArray := by
  induction n generalizing b pos placed with
  | zero => simp [placeSamples, FitFrom, extentsFrom, eq_comm]
  | succ n ih =>
    rw [List.range'_succ, List.map_cons]
    simp only [placeSamples, FitFrom, extentsFrom, Fits]
    split
    · rename_i hcount
      constructor
      · intro h; cases h
      · rintro ⟨⟨⟨h, -⟩, -⟩, -⟩; omega
    · rename_i hcount
      split
      · rename_i e he
        constructor
        · intro h; cases h
        · rintro ⟨⟨⟨-, ⟨size, hs⟩, -⟩, -⟩, -⟩
          rw [he] at hs; cases hs
      · rename_i size hsize
        have hsz := sizeOf_eq hsize
        have hext : t.extentAt placed.size ⟨chunk, b⟩ = ⟨pos, size.toNat⟩ := by
          simp only [extentAt, ← hpos, hsz]
        rw [hext]
        split
        · rename_i hlt
          constructor
          · intro h; cases h
          · rintro ⟨⟨⟨-, -, h⟩, -⟩, -⟩
            simp only at h
            omega
        · rename_i hle
          have hnext : pos + size.toNat = (t.chunkOffsets.getD (chunk - 1) 0).toNat +
              t.totalSize ((placed.push ⟨pos, size.toNat⟩).size - (b + 1)) (b + 1) := by
            rw [Array.size_push, Nat.add_sub_add_right, totalSize_succ, hpos,
              Nat.sub_add_cancel hb, hsz]
            omega
          rw [ih (b := b + 1) (by simp; omega) hnext, Array.size_push, append_push_toArray]
          constructor
          · rintro ⟨h, rfl⟩
            exact ⟨⟨⟨by omega, ⟨size, hsize⟩, by simp only; omega⟩, h⟩, rfl⟩
          · rintro ⟨⟨-, h⟩, rfl⟩
            exact ⟨h, rfl⟩

/-- Two placements one after the other place the spots of both. -/
theorem placed_append {first second : List Spot} {placed middle last : Array Extent} :
    (t.FitFrom placed.size first ∧
        middle = placed ++ (t.extentsFrom placed.size first).toArray) ∧
      (t.FitFrom middle.size second ∧
        last = middle ++ (t.extentsFrom middle.size second).toArray) ↔
    middle = placed ++ (t.extentsFrom placed.size first).toArray ∧
      t.FitFrom placed.size (first ++ second) ∧
        last = placed ++ (t.extentsFrom placed.size (first ++ second)).toArray := by
  have hsize : middle = placed ++ (t.extentsFrom placed.size first).toArray →
      middle.size = placed.size + first.length := by
    rintro rfl
    simp [length_extentsFrom]
  constructor
  · rintro ⟨⟨hf, hm⟩, hs, hl⟩
    rw [hsize hm] at hs hl
    refine ⟨hm, (fitFrom_append _ _ _).2 ⟨hf, hs⟩, ?_⟩
    rw [hl, hm, extentsFrom_append, ← List.append_toArray, Array.append_assoc]
  · rintro ⟨hm, h, hl⟩
    obtain ⟨hf, hs⟩ := (fitFrom_append _ _ _).1 h
    rw [hsize hm]
    refine ⟨⟨hf, hm⟩, hs, ?_⟩
    rw [hl, hm, extentsFrom_append, ← List.append_toArray, Array.append_assoc]

/-- The samples of consecutive chunks, whose offsets stand in the table from the first of them
on. -/
theorem placeChunks_eq_ok_iff {n chunk : Nat} {offsets : List UInt64}
    {placed placed' : Array Extent}
    (h : ∀ k, k < offsets.length → t.chunkOffsets[chunk - 1 + k]? = offsets[k]?) (hc : 1 ≤ chunk) :
    t.placeChunks n chunk offsets placed = .ok placed' ↔
      t.FitFrom placed.size (Span.spotsOf n chunk offsets.length) ∧
        placed' =
          placed ++ (t.extentsFrom placed.size (Span.spotsOf n chunk offsets.length)).toArray := by
  induction offsets generalizing chunk placed with
  | nil => simp [placeChunks, Span.spotsOf, FitFrom, extentsFrom, eq_comm]
  | cons offset offsets ih =>
    have hoffset : t.chunkOffsets.getD (chunk - 1) 0 = offset := by
      have h0 := h 0 (by simp)
      rw [Nat.add_zero, List.getElem?_cons_zero] at h0
      rw [List.getD_eq_getElem?_getD, h0, Option.getD_some]
    have hrest : ∀ k, k < offsets.length → t.chunkOffsets[chunk + 1 - 1 + k]? = offsets[k]? := by
      intro k hk
      have := h (k + 1) (by simpa using hk)
      rwa [List.getElem?_cons_succ, show chunk - 1 + (k + 1) = chunk + 1 - 1 + k by omega] at this
    have hfirst : ∀ middle, t.placeSamples chunk n offset.toNat placed = .ok middle ↔ _ := fun _ =>
      placeSamples_eq_ok_iff (Nat.zero_le _) (by rw [hoffset]; rfl)
    rw [List.length_cons, Span.spotsOf_succ]
    constructor
    · intro hok
      simp only [placeChunks] at hok
      split at hok
      · cases hok
      · rename_i middle hm
        exact (placed_append.1 ⟨(hfirst middle).1 hm, (ih hrest (by omega)).1 hok⟩).2
    · intro hfit
      obtain ⟨hm, hl⟩ := placed_append.2 ⟨rfl, hfit⟩
      simp only [placeChunks, (hfirst _).2 hm]
      exact (ih hrest (by omega)).2 hl

/-- What a run has to satisfy, given the next one. -/
theorem lastChunk_eq_ok_iff {number last : Nat} {run : ChunkRun} {next : Option ChunkRun}
    (h : t.chunkOffsets.length < 2 ^ 32) :
    t.lastChunk number run next = .ok last ↔
      1 ≤ run.firstChunk.toNat ∧
        (∀ n ∈ next, run.firstChunk.toNat < n.firstChunk.toNat) ∧
        last = (next.map (·.firstChunk.toNat - 1)).getD t.chunkOffsets.length ∧
        last ≤ t.chunkOffsets.length ∧ run.firstChunk.toNat ≤ t.chunkOffsets.length + 1 := by
  have hnat : (UInt32.ofNat t.chunkOffsets.length).toNat = t.chunkOffsets.length :=
    UInt32.toNat_ofNat_of_lt' h
  cases next with
  | none =>
    simp only [lastChunk, hnat, Option.map_none, Option.getD_none, Option.not_mem_none,
      false_implies, implies_true, true_and]
    split
    · exact ⟨nofun, fun h => by omega⟩
    · split
      · exact ⟨nofun, fun h => by omega⟩
      · rw [Except.ok.injEq]
        omega
  | some next =>
    simp only [lastChunk, Option.map_some, Option.getD_some, Option.mem_def, Option.some.injEq,
      forall_eq']
    split
    · exact ⟨nofun, fun h => by omega⟩
    · split
      · exact ⟨nofun, fun h => by omega⟩
      · split
        · exact ⟨nofun, fun h => by omega⟩
        · rw [Except.ok.injEq]
          omega

/-- What runs have to satisfy for their chunks to be found, one run after the other. -/
def RunsFit (chunks : Nat) : List ChunkRun → Prop
  | [] => True
  | run :: runs =>
    1 ≤ run.firstChunk.toNat ∧ (∀ n ∈ runs.head?, run.firstChunk.toNat < n.firstChunk.toNat) ∧
      (runs.head?.map (·.firstChunk.toNat - 1)).getD chunks ≤ chunks ∧
      run.firstChunk.toNat ≤ chunks + 1 ∧ RunsFit chunks runs

theorem placeRuns_eq_ok_iff {number : Nat} {runs : List ChunkRun} {placed placed' : Array Extent}
    (h : t.chunkOffsets.length < 2 ^ 32) :
    t.placeRuns number runs placed = .ok placed' ↔
      RunsFit t.chunkOffsets.length runs ∧
        t.FitFrom placed.size
          ((Span.ofRuns t.chunkOffsets.length runs).flatMap Span.spots) ∧
        placed' = placed ++ (t.extentsFrom placed.size
          ((Span.ofRuns t.chunkOffsets.length runs).flatMap Span.spots)).toArray := by
  induction runs generalizing number placed with
  | nil => simp [placeRuns, RunsFit, Span.ofRuns, FitFrom, extentsFrom, eq_comm]
  | cons run runs ih =>
    have hlast (last : Nat) : t.lastChunk number run runs.head? = .ok last ↔ _ :=
      lastChunk_eq_ok_iff h
    simp only [Span.ofRuns, List.flatMap_cons, RunsFit, placeRuns]
    generalize (runs.head?.map (·.firstChunk.toNat - 1)).getD t.chunkOffsets.length = stop at hlast
    split
    · rename_i e he
      constructor
      · intro h; cases h
      · rintro ⟨⟨h1, h2, h3, h4, -⟩, -⟩
        have := (hlast stop).2 ⟨h1, h2, rfl, h3, h4⟩
        rw [he] at this
        cases this
    · rename_i last hok
      obtain ⟨h1, h2, rfl, h3, h4⟩ := (hlast last).1 hok
      generalize hoffsets : (t.chunkOffsets.drop (run.firstChunk.toNat - 1)).take
        (last + 1 - run.firstChunk.toNat) = offsets
      have hlen : offsets.length = last + 1 - run.firstChunk.toNat := by
        rw [← hoffsets, List.length_take, List.length_drop]
        omega
      have hget : ∀ k, k < offsets.length →
          t.chunkOffsets[run.firstChunk.toNat - 1 + k]? = offsets[k]? := by
        intro k hk
        rw [← hoffsets, List.getElem?_take_of_lt (by omega), List.getElem?_drop]
      have hchunks (middle : Array Extent) : t.placeChunks run.samplesPerChunk.toNat
          run.firstChunk.toNat offsets placed = .ok middle ↔ _ := placeChunks_eq_ok_iff hget h1
      rw [hlen] at hchunks
      constructor
      · intro hok
        split at hok
        · cases hok
        · rename_i middle hm
          obtain ⟨hruns, hrest⟩ := ih.1 hok
          exact ⟨⟨h1, h2, h3, h4, hruns⟩, (placed_append.1 ⟨(hchunks middle).1 hm, hrest⟩).2⟩
      · rintro ⟨⟨-, -, -, -, hruns⟩, hfit⟩
        obtain ⟨hm, hl⟩ := placed_append.2 ⟨rfl, hfit⟩
        simp only [(hchunks _).2 hm]
        exact ih.2 ⟨hruns, hl⟩

/-! ### Coherent tables -/

theorem runsFit_iff {chunks : Nat} {runs : List ChunkRun} :
    RunsFit chunks runs ↔
      (∀ run ∈ runs, 1 ≤ run.firstChunk.toNat) ∧
        (runs.map (·.firstChunk.toNat)).Pairwise (· < ·) ∧
        ∀ span ∈ Span.ofRuns chunks runs, span.last ≤ chunks ∧ span.first ≤ chunks + 1 := by
  rw [← List.isChain_iff_pairwise]
  induction runs with
  | nil => simp [RunsFit, Span.ofRuns]
  | cons run runs ih =>
    simp only [RunsFit, ih, Span.ofRuns, List.map_cons, List.isChain_cons, List.forall_mem_cons,
      List.head?_map, Option.mem_def, Option.map_eq_some_iff, forall_exists_index, and_imp,
      forall_apply_eq_imp_iff₂]
    constructor
    · rintro ⟨h1, h2, h3, h4, h5, h6, h7⟩
      exact ⟨⟨h1, h5⟩, ⟨h2, h6⟩, ⟨h3, h4⟩, h7⟩
    · rintro ⟨⟨h1, h5⟩, ⟨h2, h6⟩, ⟨h3, h4⟩, h7⟩
      exact ⟨h1, h2, h3, h4, h5, h6, h7⟩

theorem length_spots (t : IndexTables) :
    t.spots.length =
      (t.spans.map fun span => (span.last + 1 - span.first) * span.perChunk).sum := by
  simp only [spots, List.length_flatMap, Span.spots, Span.length_spotsOf, Span.chunkCount]

theorem layout_eq_ok_iff {extents : Array Extent} (h : t.chunkOffsets.length < 2 ^ 32) :
    t.layout = .ok extents ↔
      t.Coherent ∧ extents = (t.extentsFrom 0 t.spots).toArray := by
  have hempty : Array.emptyWithCapacity t.room = (#[] : Array Extent) := rfl
  have hplace (placed : Array Extent) : t.placeRuns 0 t.runs #[] = .ok placed ↔ _ :=
    placeRuns_eq_ok_iff h
  simp only [Array.empty_append, Array.size_empty, runsFit_iff, fitFrom_iff, Nat.zero_add] at hplace
  constructor
  · intro hok
    simp only [layout, hempty] at hok
    split at hok
    · cases hok
    · rename_i placed hp
      obtain ⟨⟨h1, h2, h3⟩, hfit, rfl⟩ := (hplace placed).1 hp
      split at hok
      · rename_i hsize
        cases hok
        have hlen : t.spots.length = t.sizes.sampleCount.toNat := by
          rw [← hsize, List.size_toArray, length_extentsFrom]
          rfl
        refine ⟨⟨h1, h2, h3, by rw [← hlen, length_spots], fun k hk => ?_,
          fun k spot hs => (hfit k spot hs).2.2⟩, rfl⟩
        rw [← hlen] at hk
        exact (hfit k _ (List.getElem?_eq_getElem hk)).2.1
      · cases hok
  · rintro ⟨hc, rfl⟩
    have hlen : t.spots.length = t.sizes.sampleCount.toNat := by rw [length_spots, hc.covered]
    have hfit : ∀ k spot, t.spots[k]? = some spot → t.Fits k spot := by
      intro k spot hs
      have hk : k < t.sizes.sampleCount.toNat :=
        hlen ▸ (List.getElem?_eq_some_iff.1 hs).1
      exact ⟨hk, hc.sized k hk, hc.inside k spot hs⟩
    have hp := (hplace _).2 ⟨⟨hc.numbered, hc.ascending, hc.within⟩, hfit, rfl⟩
    have hsize : (t.extentsFrom 0 t.spots).toArray.size = t.sizes.sampleCount.toNat := by
      rw [List.size_toArray, length_extentsFrom, hlen]
    simp only [layout, hempty, hp]
    exact if_pos hsize

/-- Every sample lies in a chunk of the table. -/
theorem Coherent.chunk_mem (hc : t.Coherent) {spot : Spot} (h : spot ∈ t.spots) :
    1 ≤ spot.chunk ∧ spot.chunk ≤ t.chunkOffsets.length := by
  obtain ⟨span, hspan, hs⟩ := List.mem_flatMap.1 h
  obtain ⟨c, hcm, hb⟩ := List.mem_flatMap.1 hs
  obtain ⟨b, -, rfl⟩ := List.mem_map.1 hb
  have hfirst : 1 ≤ span.first := by
    have := runsFit_iff.2 ⟨hc.numbered, hc.ascending, hc.within⟩
    revert hspan this
    unfold spans
    induction t.runs with
    | nil => simp [Span.ofRuns]
    | cons run runs ih =>
      rintro hmem ⟨h1, -, -, -, hruns⟩
      rcases List.mem_cons.1 hmem with rfl | hmem
      · exact h1
      · exact ih hmem hruns
  have hlast := (hc.within span hspan).1
  rw [List.mem_range'_1, Span.chunkCount] at hcm
  show 1 ≤ c ∧ c ≤ t.chunkOffsets.length
  omega

/-! ### Samples of one chunk -/

/-- The samples that precede a sample in its chunk stand right before it. -/
def Grouped (spots : List Spot) : Prop :=
  ∀ (k : Nat) (spot : Spot), spots[k]? = some spot →
    spot.before ≤ k ∧ ∀ i ≤ spot.before, spots[k - spot.before + i]? = some ⟨spot.chunk, i⟩

theorem grouped_chunk (chunk n : Nat) : Grouped ((List.range' 0 n).map (Spot.mk chunk)) := by
  intro k spot hs
  rw [List.getElem?_map, Option.map_eq_some_iff] at hs
  obtain ⟨b, hb, rfl⟩ := hs
  obtain ⟨hk, rfl⟩ := List.getElem?_eq_some_iff.1 hb
  rw [List.length_range'] at hk
  simp only [List.getElem_range', Nat.zero_add, Nat.one_mul, Nat.sub_self]
  refine ⟨Nat.le_refl k, fun i hi => ?_⟩
  rw [List.getElem?_map, List.getElem?_range' (by omega), Option.map_some, Nat.zero_add,
    Nat.one_mul]

theorem Grouped.append {a b : List Spot} (ha : Grouped a) (hb : Grouped b) : Grouped (a ++ b) := by
  intro k spot hs
  by_cases hk : k < a.length
  · rw [List.getElem?_append_left hk] at hs
    obtain ⟨hle, h⟩ := ha k spot hs
    refine ⟨hle, fun i hi => ?_⟩
    rw [List.getElem?_append_left (by omega)]
    exact h i hi
  · rw [List.getElem?_append_right (by omega)] at hs
    obtain ⟨hle, h⟩ := hb _ spot hs
    refine ⟨by omega, fun i hi => ?_⟩
    rw [List.getElem?_append_right (by omega),
      show k - spot.before + i - a.length = k - a.length - spot.before + i by omega]
    exact h i hi

theorem grouped_flatMap {α : Type} {f : α → List Spot} {l : List α}
    (h : ∀ a ∈ l, Grouped (f a)) : Grouped (l.flatMap f) := by
  induction l with
  | nil => exact nofun
  | cons a l ih =>
    rw [List.forall_mem_cons] at h
    rw [List.flatMap_cons]
    exact h.1.append (ih h.2)

theorem grouped_spots (t : IndexTables) : Grouped t.spots :=
  grouped_flatMap fun _ _ => grouped_flatMap fun chunk _ => grouped_chunk chunk _

/-! ### Within the input -/

/-- Every extent placed so far ends within the input. -/
def Inside (t : IndexTables) (placed : Array Extent) : Prop :=
  ∀ e ∈ placed, e.pos + e.size ≤ t.inputLength

theorem placeSamples_inside {chunk n pos : Nat} {placed placed' : Array Extent}
    (h : t.placeSamples chunk n pos placed = .ok placed') (hp : t.Inside placed) :
    t.Inside placed' := by
  induction n generalizing pos placed with
  | zero =>
    cases h
    exact hp
  | succ n ih =>
    simp only [placeSamples] at h
    split at h
    · cases h
    · split at h
      · cases h
      · split at h
        · cases h
        · rename_i size _ hstop
          refine ih h fun e he => ?_
          rcases Array.mem_push.1 he with he | rfl
          · exact hp e he
          · exact Nat.le_of_not_lt hstop

theorem placeChunks_inside {n chunk : Nat} {offsets : List UInt64} {placed placed' : Array Extent}
    (h : t.placeChunks n chunk offsets placed = .ok placed') (hp : t.Inside placed) :
    t.Inside placed' := by
  induction offsets generalizing chunk placed with
  | nil =>
    cases h
    exact hp
  | cons offset offsets ih =>
    simp only [placeChunks] at h
    split at h
    · cases h
    · rename_i middle hm
      exact ih h (placeSamples_inside hm hp)

theorem placeRuns_inside {number : Nat} {runs : List ChunkRun} {placed placed' : Array Extent}
    (h : t.placeRuns number runs placed = .ok placed') (hp : t.Inside placed) :
    t.Inside placed' := by
  induction runs generalizing number placed with
  | nil =>
    cases h
    exact hp
  | cons run runs ih =>
    simp only [placeRuns] at h
    split at h
    · cases h
    · split at h
      · cases h
      · rename_i middle hm
        exact ih h (placeChunks_inside hm hp)

theorem layout_inside {extents : Array Extent} (h : t.layout = .ok extents) :
    t.Inside extents := by
  unfold layout at h
  split at h
  · cases h
  · rename_i placed hplaced
    dsimp only at h
    split at h
    · cases h
      exact placeRuns_inside hplaced fun e he => absurd he (Array.not_mem_empty e)
    · cases h

/-! ### The index -/

/-- The samples of an index are those placed, each with its times. -/
theorem index_eq_ok {samples : Array Sample} (h : t.index = .ok samples) :
    ∃ extents, t.layout = .ok extents ∧ samples.size = extents.size ∧
      ∀ (k : Nat) (s : Sample), samples[k]? = some s →
        extents[k]? = some ⟨s.pos, s.size⟩ ∧
        s.decodeTime = (decodeTimes t.times samples.size).getD k 0 ∧
        s.compositionOffset = (compositionOffsets (t.offsets.getD []) samples.size).getD k 0 := by
  unfold index at h
  cases hl : t.layout with
  | error e => rw [hl] at h; cases h
  | ok extents =>
    rw [hl] at h
    simp only [Except.map, Except.ok.injEq] at h
    subst h
    refine ⟨extents, rfl, Array.size_mapIdx, fun k s hs => ?_⟩
    rw [Array.getElem?_mapIdx, Option.map_eq_some_iff] at hs
    obtain ⟨e, he, rfl⟩ := hs
    exact ⟨he, by rw [Array.size_mapIdx], by rw [Array.size_mapIdx]⟩

/-- Every sample of an index lies within the input. -/
theorem index_inside {samples : Array Sample} (h : t.index = .ok samples) {s : Sample}
    (hs : s ∈ samples) : s.pos + s.size ≤ t.inputLength := by
  obtain ⟨extents, hlayout, -, hget⟩ := index_eq_ok h
  obtain ⟨k, hk, rfl⟩ := Array.mem_iff_getElem.1 hs
  obtain ⟨hextent, -⟩ := hget k _ (Array.getElem?_eq_getElem hk)
  exact layout_inside hlayout _ (Array.mem_of_getElem? hextent)

theorem exists_index_eq_ok_iff :
    (∃ samples, t.index = .ok samples) ↔ ∃ extents, t.layout = .ok extents := by
  unfold index
  cases t.layout <;> simp [Except.map]

/-- **Coherent tables, and no others, make an index, and it places every sample at its spot.**  An
input shorter than `2 ^ 64` bytes keeps the place and the end of every sample below `2 ^ 64`. -/
theorem index_iff_coherent (t : IndexTables) (h : t.chunkOffsets.length < 2 ^ 32) :
    ((∃ samples, t.index = .ok samples) ↔ t.Coherent) ∧
      ∀ samples, t.index = .ok samples →
        samples.size = t.sizes.sampleCount.toNat ∧ samples.size = t.spots.length ∧
          ∀ k s, samples[k]? = some s → ∃ spot offset size,
            t.spots[k]? = some spot ∧ spot.before ≤ k ∧
            (∀ i ≤ spot.before, t.spots[k - spot.before + i]? = some ⟨spot.chunk, i⟩) ∧
            t.chunkOffsets[spot.chunk - 1]? = some offset ∧
            t.sizes.sizeAt k = .ok size ∧ s.size = size.toNat ∧
            s.pos = offset.toNat + t.totalSize (k - spot.before) spot.before := by
  refine ⟨?_, fun samples hs => ?_⟩
  · rw [exists_index_eq_ok_iff]
    constructor
    · rintro ⟨extents, hl⟩
      exact ((layout_eq_ok_iff h).1 hl).1
    · intro hc
      exact ⟨_, (layout_eq_ok_iff h).2 ⟨hc, rfl⟩⟩
  · obtain ⟨extents, hl, hsize, hget⟩ := index_eq_ok hs
    obtain ⟨hc, rfl⟩ := (layout_eq_ok_iff h).1 hl
    have hlen : samples.size = t.spots.length := by
      rw [hsize, List.size_toArray, length_extentsFrom]
    have hcount : t.spots.length = t.sizes.sampleCount.toNat := by rw [length_spots, hc.covered]
    refine ⟨hlen.trans hcount, hlen, fun k s hk => ?_⟩
    have hextent := (hget k s hk).1
    rw [List.getElem?_toArray, getElem?_extentsFrom, Option.map_eq_some_iff, Nat.zero_add]
      at hextent
    obtain ⟨spot, hspot, heq⟩ := hextent
    obtain ⟨h1, h2⟩ := hc.chunk_mem (List.mem_of_getElem? hspot)
    obtain ⟨hk', -⟩ := List.getElem?_eq_some_iff.1 hspot
    obtain ⟨size, hsz⟩ := hc.sized k (hcount ▸ hk')
    have hoffset := List.getElem?_eq_getElem (l := t.chunkOffsets) (i := spot.chunk - 1) (by omega)
    simp only [extentAt, List.getD_eq_getElem?_getD, hoffset, Option.getD_some, sizeOf_eq hsz,
      Extent.mk.injEq] at heq
    obtain ⟨hbefore, hgroup⟩ := t.grouped_spots k spot hspot
    exact ⟨spot, _, size, hspot, hbefore, hgroup, hoffset, hsz, heq.2.symm, heq.1.symm⟩

/-- Two chunks of two samples, and then two chunks of one. -/
def fourChunks : IndexTables where
  times := [⟨6, 100⟩]
  offsets := none
  runs := [⟨1, 2, 1⟩, ⟨3, 1, 1⟩]
  chunkOffsets := [1000, 2000, 3000, 4000]
  sizes := ⟨0, 6, #[10, 20, 30, 40, 50, 60]⟩
  sync := none
  inputLength := 0x100000

/-- The third sample opens the second chunk, and the fourth stands behind it there. -/
theorem fourChunks_coherent :
    fourChunks.chunkOffsets.length < 2 ^ 32 ∧ fourChunks.Coherent ∧
      ∃ samples, fourChunks.index = .ok samples ∧ samples.size = 6 ∧
        (samples.map fun s => (s.pos, s.size)) =
          #[(1000, 10), (1010, 20), (2000, 30), (2030, 40), (3000, 50), (4000, 60)] := by
  have hlength : fourChunks.chunkOffsets.length < 2 ^ 32 := by decide
  obtain ⟨hiff, hspec⟩ := index_iff_coherent fourChunks hlength
  exact ⟨hlength, hiff.1 ⟨_, rfl⟩, _, rfl, (hspec _ rfl).1, by decide +kernel⟩

end IndexTables

end IsoMedia
