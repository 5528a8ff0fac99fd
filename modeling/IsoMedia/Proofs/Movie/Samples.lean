import IsoMedia.Proofs.Movie.Writer

/-!
# Placing the samples of a written track

The runs of a valid plan say for each chunk how many samples it has (`TrackPlan.spots_ofRuns`), so
that the sample index finds the samples where the chunks were written
(`TrackPlan.Valid.exists_index`).
-/

namespace IsoMedia

namespace TrackPlan

/-! ### Chunks by the runs -/

theorem samplesIn_cons_of_lt {run : ChunkRun} {runs : List ChunkRun} {chunk : Nat}
    (hrun : run.firstChunk.toNat ≤ chunk)
    (hruns : ∀ next ∈ runs, chunk < next.firstChunk.toNat) :
    samplesIn (run :: runs) chunk = run.samplesPerChunk.toNat := by
  have hnone : runs.filter (·.firstChunk.toNat ≤ chunk) = [] := by
    rw [List.filter_eq_nil_iff]
    intro next hnext
    have := hruns next hnext
    simp only [decide_eq_true_eq]
    omega
  unfold samplesIn
  rw [List.filter_cons_of_pos (by simpa using hrun), hnone]
  rfl

theorem samplesIn_cons_of_le {run next : ChunkRun} {runs : List ChunkRun} {chunk : Nat}
    (hnext : next.firstChunk.toNat ≤ chunk) :
    samplesIn (run :: next :: runs) chunk = samplesIn (next :: runs) chunk := by
  have hsome : (next :: runs).filter (·.firstChunk.toNat ≤ chunk) ≠ [] := by
    rw [List.filter_cons_of_pos (by simpa using hnext)]
    exact List.cons_ne_nil _ _
  unfold samplesIn
  rw [List.filter_cons]
  split
  · rw [List.getLast?_cons, List.getLast?_eq_some_getLast hsome]
    rfl
  · rfl

/-- The samples of a chunk, in order. -/
def chunkSpots (runs : List ChunkRun) (chunk : Nat) : List Spot :=
  (List.range' 0 (samplesIn runs chunk)).map (Spot.mk chunk)

/-- Runs with ascending first chunks say for each chunk how many samples it has. -/
theorem spots_ofRuns {chunks : Nat} {run : ChunkRun} {runs : List ChunkRun}
    (hasc : ((run :: runs).map (·.firstChunk.toNat)).Pairwise (· < ·))
    (hwithin : ∀ span ∈ Span.ofRuns chunks (run :: runs), span.first ≤ chunks + 1) :
    (Span.ofRuns chunks (run :: runs)).flatMap Span.spots =
      (List.range' run.firstChunk.toNat (chunks + 1 - run.firstChunk.toNat)).flatMap
        (chunkSpots (run :: runs)) := by
  induction runs generalizing run with
  | nil =>
    simp only [Span.ofRuns, List.flatMap_cons, List.flatMap_nil, List.append_nil]
    refine List.flatMap_congr fun c hc => ?_
    rw [chunkSpots, samplesIn_cons_of_lt (List.mem_range'_1.1 hc).1 (List.forall_mem_nil _)]
  | cons next runs ih =>
    rw [List.map_cons, List.pairwise_cons] at hasc
    rw [Span.ofRuns, List.forall_mem_cons] at hwithin
    have hnext : run.firstChunk.toNat < next.firstChunk.toNat := hasc.1 _ List.mem_cons_self
    have hle : next.firstChunk.toNat ≤ chunks + 1 := hwithin.2 _ List.mem_cons_self
    have hsplit : List.range' run.firstChunk.toNat (chunks + 1 - run.firstChunk.toNat) =
        List.range' run.firstChunk.toNat (next.firstChunk.toNat - 1 + 1 - run.firstChunk.toNat) ++
          List.range' next.firstChunk.toNat (chunks + 1 - next.firstChunk.toNat) := by
      obtain ⟨count, hcount⟩ := Nat.exists_eq_add_of_lt hnext
      have hreach : next.firstChunk.toNat - 1 + 1 - run.firstChunk.toNat = count + 1 := by omega
      have hall : count + 1 + (chunks + 1 - next.firstChunk.toNat) =
          chunks + 1 - run.firstChunk.toNat := by omega
      rw [hreach, ← hall, ← List.range'_append_1, ← Nat.add_assoc, ← hcount]
    rw [Span.ofRuns, List.flatMap_cons, ih hasc.2 hwithin.2, hsplit, List.flatMap_append]
    congr 1
    · -- No later run has reached the chunks before the next one.
      refine List.flatMap_congr fun c hc => ?_
      have hlt : c < next.firstChunk.toNat := by
        have : c < run.firstChunk.toNat + (next.firstChunk.toNat - 1 + 1 - run.firstChunk.toNat) :=
          (List.mem_range'_1.1 hc).2
        omega
      rw [chunkSpots, samplesIn_cons_of_lt (List.mem_range'_1.1 hc).1 fun later hlater => ?_]
      have hasc' := List.pairwise_cons.1 hasc.2
      rcases List.mem_cons.1 hlater with rfl | hlater
      · exact hlt
      · exact Nat.lt_trans hlt (hasc'.1 _ (List.mem_map_of_mem hlater))
    · refine List.flatMap_congr fun c hc => ?_
      rw [chunkSpots, chunkSpots, samplesIn_cons_of_le (List.mem_range'_1.1 hc).1]

end TrackPlan

/-! ### Samples in their chunks -/

namespace IndexTables

variable {t : IndexTables}

/-- The samples of a chunk lie where the chunk was written, if the table of sizes has their lengths.
`before` of the chunk's samples precede the given ones. -/
theorem extentsFrom_chunk {samples : List (List UInt8)} {chunk sample before pos : Nat}
    (hsizes : ∀ k s, samples[k]? = some s → t.sizeOf (sample + k) = s.length)
    (hbefore : before ≤ sample)
    (hpos : pos =
      (t.chunkOffsets.getD (chunk - 1) 0).toNat + t.totalSize (sample - before) before) :
    t.extentsFrom sample ((List.range' before samples.length).map (Spot.mk chunk)) =
      Chunk.extentsFrom pos samples := by
  induction samples generalizing sample before pos with
  | nil => rfl
  | cons s samples ih =>
    have hsize : t.sizeOf sample = s.length := hsizes 0 s rfl
    have htotal := t.totalSize_succ (sample - before) before
    rw [Nat.sub_add_cancel hbefore, hsize] at htotal
    rw [List.length_cons, List.range'_succ, List.map_cons, extentsFrom, Chunk.extentsFrom]
    congr 1
    · rw [extentAt, hsize, hpos]
    · refine ih (fun k r hr => ?_) (by omega) ?_
      · rw [Nat.add_assoc, Nat.add_comm 1]
        exact hsizes (k + 1) r hr
      · rw [Nat.succ_sub_succ, htotal, hpos, Nat.add_assoc]

end IndexTables

namespace TrackPlan

variable {p : TrackPlan}

/-- The tables that the sample index of the track is made from. -/
def indexTables (p : TrackPlan) (inputLength : Nat) : IndexTables :=
  { times := p.times, offsets := p.offsets, runs := p.runs, chunkOffsets := p.chunkOffsets
    sizes := p.sizes, sync := p.sync.map Table.keyNumbers, inputLength }

theorem Valid.sizeAt (hp : p.Valid) {k : Nat} {s : List UInt8} (hs : p.samples[k]? = some s) :
    ∃ size, p.sizes.sizeAt k = .ok size ∧ size.toNat = s.length := by
  have hmem := List.mem_of_getElem? hs
  unfold SampleSizes.sizeAt sizes
  dsimp only
  by_cases hfixed : p.fixedSize = 0
  · rw [if_neg (not_not.2 hfixed), if_pos hfixed, List.getElem?_toArray, List.getElem?_map, hs]
    exact ⟨_, rfl, UInt32.toNat_ofNat_of_lt' (hp.counted.2 s hmem)⟩
  · rw [if_pos hfixed]
    exact ⟨_, rfl, (hp.uniform hfixed s hmem).symm⟩

/-- The spots of the samples, chunk by chunk. -/
theorem Valid.spots_eq (hp : p.Valid) (inputLength : Nat) :
    (p.indexTables inputLength).spots =
      (List.range' 1 p.chunks.length).flatMap (chunkSpots p.runs) := by
  have hchunks : p.chunkOffsets.length = p.chunks.length := List.length_map _
  have hfirst := hp.first
  have hasc := hp.ascending
  have hwithin := hp.within
  unfold IndexTables.spots IndexTables.spans indexTables
  dsimp only
  rw [hchunks]
  cases hruns : p.runs with
  | nil => simp [Span.ofRuns, chunkSpots, samplesIn]
  | cons run runs =>
    rw [hruns] at hfirst hasc hwithin
    rw [spots_ofRuns hasc fun span hspan => (hwithin span hspan).2, hfirst run rfl,
      Nat.add_sub_cancel]

/-- From a chunk on, the samples lie where the chunks were written.  The samples of the chunks
before it are numbered first. -/
theorem Valid.extentsFrom_chunks (hp : p.Valid) (inputLength : Nat) {before after : List Chunk}
    (h : p.chunks = before ++ after) :
    (p.indexTables inputLength).extentsFrom (before.flatMap (·.samples)).length
        ((List.range' (before.length + 1) after.length).flatMap (chunkSpots p.runs)) =
      after.flatMap (·.extents) := by
  induction after generalizing before with
  | nil => rfl
  | cons c after ih =>
    have hc : p.chunks[before.length]? = some c := by
      rw [h, List.getElem?_append_right (Nat.le_refl _), Nat.sub_self]
      rfl
    have hcount := hp.covered before.length c hc
    have hsamples : p.samples =
        before.flatMap (·.samples) ++ (c.samples ++ after.flatMap (·.samples)) := by
      rw [samples, h, List.flatMap_append, List.flatMap_cons]
    rw [List.length_cons, List.range'_succ, List.flatMap_cons, List.flatMap_cons,
      IndexTables.extentsFrom_append]
    congr 1
    · -- The samples of the chunk itself, of which none precede the first.
      rw [chunkSpots, ← hcount]
      refine IndexTables.extentsFrom_chunk (fun k s hs => ?_) (Nat.zero_le _) ?_
      · have hk : k < c.samples.length := (List.getElem?_eq_some_iff.1 hs).1
        have hget : p.samples[(before.flatMap (·.samples)).length + k]? = some s := by
          rw [hsamples, List.getElem?_append_right (Nat.le_add_right _ _), Nat.add_sub_cancel_left,
            List.getElem?_append_left hk, hs]
        obtain ⟨size, hsize, hlength⟩ := hp.sizeAt hget
        rw [IndexTables.sizeOf_eq hsize, hlength]
      · have hoffset : p.chunkOffsets[before.length]? = some c.offset := by
          rw [chunkOffsets, List.getElem?_map, hc]
          rfl
        show c.start = (p.chunkOffsets.getD (before.length + 1 - 1) 0).toNat + 0
        rw [Nat.add_sub_cancel, List.getD_eq_getElem?_getD, hoffset]
        rfl
    · have hrest := @ih (before ++ [c]) (by rw [h, List.append_assoc]; rfl)
      have hspots : (chunkSpots p.runs (before.length + 1)).length = c.samples.length := by
        rw [chunkSpots, List.length_map, List.length_range', hcount]
      rw [List.flatMap_append, List.flatMap_singleton, List.length_append,
        List.length_append] at hrest
      rw [hspots]
      exact hrest

theorem Valid.extentsFrom_spots (hp : p.Valid) (inputLength : Nat) :
    (p.indexTables inputLength).extentsFrom 0 (p.indexTables inputLength).spots = p.extents := by
  rw [hp.spots_eq]
  exact @Valid.extentsFrom_chunks p hp inputLength [] p.chunks rfl

end TrackPlan

/-! ### Extents and the bytes there -/

namespace Chunk

/-- The sample is among the bytes of the chunk, at the extent. -/
def Holds (c : Chunk) (e : Extent) (s : List UInt8) : Prop :=
  ∃ before after, c.bytes = before ++ s ++ after ∧ e = ⟨c.start + before.length, s.length⟩

theorem Holds.inside {c : Chunk} {e : Extent} {s : List UInt8} (h : c.Holds e s) :
    c.start ≤ e.pos ∧ e.pos + e.size ≤ c.stop := by
  obtain ⟨before, after, hbytes, rfl⟩ := h
  rw [stop, hbytes]
  simp only [List.length_append]
  omega

theorem length_extentsFrom (pos : Nat) (samples : List (List UInt8)) :
    (extentsFrom pos samples).length = samples.length := by
  induction samples generalizing pos with
  | nil => rfl
  | cons s samples ih => rw [extentsFrom, List.length_cons, List.length_cons, ih]

theorem exists_sample {pos k : Nat} {samples : List (List UInt8)} {e : Extent}
    (h : (extentsFrom pos samples)[k]? = some e) :
    ∃ s before after, samples[k]? = some s ∧ samples.flatten = before ++ s ++ after ∧
      e = ⟨pos + before.length, s.length⟩ := by
  induction samples generalizing pos k with
  | nil => cases h
  | cons s samples ih =>
    cases k with
    | zero =>
      cases h
      exact ⟨s, [], samples.flatten, rfl, rfl, rfl⟩
    | succ k =>
      obtain ⟨r, before, after, hr, hflatten, rfl⟩ := ih h
      refine ⟨r, s ++ before, after, hr, ?_, ?_⟩
      · rw [List.flatten_cons, hflatten]
        simp only [List.append_assoc]
      · rw [List.length_append, Nat.add_assoc]

end Chunk

theorem Chunk.pairwise_extentsFrom (pos : Nat) (samples : List (List UInt8)) :
    (Chunk.extentsFrom pos samples).Pairwise (·.pos ≤ ·.pos) := by
  induction samples generalizing pos with
  | nil => exact .nil
  | cons s samples ih =>
    refine .cons (fun e he => ?_) (ih _)
    obtain ⟨k, hk⟩ := List.mem_iff_getElem?.1 he
    obtain ⟨r, before, after, -, -, rfl⟩ := Chunk.exists_sample hk
    dsimp only
    omega

/-- The extents of chunks, one after the other, are those of their samples. -/
theorem exists_chunk_holds {chunks : List Chunk} {k : Nat} {e : Extent}
    (h : (chunks.flatMap (·.extents))[k]? = some e) :
    ∃ c ∈ chunks, ∃ s, (chunks.flatMap (·.samples))[k]? = some s ∧ c.Holds e s := by
  induction chunks generalizing k with
  | nil => cases h
  | cons c chunks ih =>
    have hlength : c.extents.length = c.samples.length := Chunk.length_extentsFrom _ _
    rw [List.flatMap_cons] at h ⊢
    by_cases hk : k < c.extents.length
    · rw [List.getElem?_append_left hk] at h
      obtain ⟨s, before, after, hs, hbytes, he⟩ := Chunk.exists_sample h
      refine ⟨c, List.mem_cons_self, s, ?_, before, after, hbytes, he⟩
      rw [List.getElem?_append_left (hlength ▸ hk), hs]
    · have hle := Nat.le_of_not_lt hk
      rw [List.getElem?_append_right hle] at h
      obtain ⟨d, hd, s, hs, hholds⟩ := ih h
      refine ⟨d, List.mem_cons_of_mem _ hd, s, ?_, hholds⟩
      rw [List.getElem?_append_right (hlength ▸ hle), ← hlength, hs]

namespace TrackPlan

variable {p : TrackPlan}

theorem length_extents (p : TrackPlan) : p.extents.length = p.samples.length := by
  simp [extents, samples, List.length_flatMap, Chunk.extents, Chunk.length_extentsFrom]

theorem Valid.numbered (hp : p.Valid) {run : ChunkRun} (h : run ∈ p.runs) :
    1 ≤ run.firstChunk.toNat := by
  have hfirst := hp.first
  have hasc := hp.ascending
  cases hruns : p.runs with
  | nil =>
    rw [hruns] at h
    cases h
  | cons start runs =>
    rw [hruns] at h hfirst hasc
    have hone : start.firstChunk.toNat = 1 := hfirst start rfl
    rcases List.mem_cons.1 h with rfl | hmem
    · exact Nat.le_of_eq hone.symm
    · rw [List.map_cons, List.pairwise_cons] at hasc
      have := hasc.1 _ (List.mem_map_of_mem hmem)
      omega

/-- Where every chunk starts behind the one before it, so does every sample. -/
theorem pairwise_extents (hdisjoint : p.chunks.Pairwise Chunk.Disjoint)
    (hasc : (p.chunks.map Chunk.start).Pairwise (· < ·)) : p.extents.Pairwise (·.pos ≤ ·.pos) := by
  rw [List.pairwise_map] at hasc
  refine List.pairwise_flatMap.2 ⟨fun c _ => Chunk.pairwise_extentsFrom _ _, ?_⟩
  refine (hdisjoint.and hasc).imp fun {c d} h e he f hf => ?_
  obtain ⟨j, hj⟩ := List.mem_iff_getElem?.1 he
  obtain ⟨k, hk⟩ := List.mem_iff_getElem?.1 hf
  obtain ⟨r, rbefore, rafter, -, hr, rfl⟩ := Chunk.exists_sample hj
  obtain ⟨s, sbefore, safter, -, hs, rfl⟩ := Chunk.exists_sample hk
  have hc := Chunk.Holds.inside ⟨rbefore, rafter, hr, rfl⟩
  have hd := Chunk.Holds.inside ⟨sbefore, safter, hs, rfl⟩
  have hd' : d.start ≤ d.stop := Nat.le_add_right _ _
  obtain ⟨hbefore | hbehind, hlt⟩ := h
  · dsimp only at hc hd ⊢
    omega
  · omega

/-- The tables of a valid plan go together if its chunks lie in the input. -/
theorem Valid.coherent (hp : p.Valid) {inputLength : Nat}
    (hinside : ∀ c ∈ p.chunks, c.stop ≤ inputLength) : (p.indexTables inputLength).Coherent := by
  have hchunks : (p.indexTables inputLength).chunkOffsets.length = p.chunks.length :=
    List.length_map _
  have hspots := hp.extentsFrom_spots inputLength
  have hcount : (p.indexTables inputLength).sizes.sampleCount.toNat = p.samples.length :=
    UInt32.toNat_ofNat_of_lt' hp.counted.1
  refine ⟨fun run hrun => ?_, hp.ascending, fun span hspan => ?_, ?_, fun k hk => ?_,
    fun k spot hspot => ?_⟩
  · exact hp.numbered hrun
  · rw [IndexTables.spans, hchunks] at hspan
    rw [hchunks]
    exact hp.within span hspan
  · rw [← IndexTables.length_spots, hcount, ← length_extents, ← hspots,
      IndexTables.length_extentsFrom]
  · rw [hcount] at hk
    obtain ⟨size, hsize, -⟩ := hp.sizeAt (List.getElem?_eq_getElem hk)
    exact ⟨size, hsize⟩
  · have hextent : p.extents[k]? = some ((p.indexTables inputLength).extentAt k spot) := by
      rw [← hspots, IndexTables.getElem?_extentsFrom, hspot, Nat.zero_add]
      rfl
    obtain ⟨c, hc, s, -, hholds⟩ := exists_chunk_holds hextent
    exact Nat.le_trans hholds.inside.2 (hinside c hc)

/-- The sample index has every sample where it was written, with the times that the plan says. -/
theorem Valid.exists_index (hp : p.Valid) {inputLength : Nat}
    (hinside : ∀ c ∈ p.chunks, c.stop ≤ inputLength) (hchunks : p.chunks.length < 2 ^ 32) :
    ∃ samples, (p.indexTables inputLength).index = .ok samples ∧
      samples.size = p.samples.length ∧
      ∀ (k : Nat) (s : Sample), samples[k]? = some s →
        p.extents[k]? = some ⟨s.pos, s.size⟩ ∧ s.decodeTime = p.decodeTime k ∧
        s.presentationTime = p.presentationTime k := by
  have hlength : (p.indexTables inputLength).chunkOffsets.length < 2 ^ 32 := by
    rwa [show (p.indexTables inputLength).chunkOffsets.length = _ from List.length_map _]
  have hlayout := (IndexTables.layout_eq_ok_iff hlength).2 ⟨hp.coherent hinside, rfl⟩
  rw [hp.extentsFrom_spots] at hlayout
  obtain ⟨samples, hindex⟩ := IndexTables.exists_index_eq_ok_iff.2 ⟨_, hlayout⟩
  obtain ⟨extents, hlayout', hsize, hget⟩ := IndexTables.index_eq_ok hindex
  cases hlayout.symm.trans hlayout'
  refine ⟨samples, hindex, hsize.trans p.length_extents, fun k s hs => ?_⟩
  obtain ⟨hextent, hdecode, hoffset⟩ := hget k s hs
  have hk : k < samples.size := (Array.getElem?_eq_some_iff.1 hs).1
  have htime : s.decodeTime = p.decodeTime k := by
    rw [hdecode, Array.getD_eq_getD_getElem?]
    show (decodeTimes p.times _)[k]?.getD 0 = _
    rw [getElem?_decodeTimes p.times hk]
    rfl
  refine ⟨by rwa [List.getElem?_toArray] at hextent, htime, ?_⟩
  have hcomposition : s.compositionOffset = OffsetRun.offsetAt (p.offsets.getD []) k := by
    rw [hoffset, Array.getD_eq_getD_getElem?]
    show (compositionOffsets (p.offsets.getD []) _)[k]?.getD 0 = _
    rw [getElem?_compositionOffsets _ hk]
    rfl
  rw [Sample.presentationTime, htime, hcomposition]
  rfl

end TrackPlan

end IsoMedia
