import IsoMedia.Proofs.Sample.Placement

/-!
# Where runs of chunks start

Every run of an accepted table of runs starts at a chunk of the track, except that the last one may
start right behind the last chunk.  Such a run has no chunks, and no bearing on the index.

* `IndexTables.start_of_lastChunk`, `IndexTables.starts_of_placeRuns` : where one run starts, and where
  all of them do.
* `IndexTables.placeRuns_concat` : a run that starts right behind the last chunk places nothing.
* `IndexTables.starts_of_index` : both of these, about the index.
-/

namespace IsoMedia

namespace IndexTables

variable {t : IndexTables} {number last : Nat} {run : ChunkRun} {runs : List ChunkRun}
  {placed placed' : Array Extent} {samples : Array Sample}

/-- A run starts at a chunk, or is the last one and starts right behind the last chunk. -/
def StartsAt (chunks : Nat) (run : ChunkRun) (isLast : Prop) : Prop :=
  1 ≤ run.firstChunk.toNat ∧
    (run.firstChunk.toNat ≤ chunks ∨ isLast ∧ run.firstChunk.toNat = chunks + 1)

/-- A run that another one follows starts before that one, and so at a chunk. -/
theorem start_of_lastChunk {next : Option ChunkRun} (h : t.lastChunk number run next = .ok last) :
    StartsAt t.chunkOffsets.length run (next = none) := by
  unfold StartsAt
  cases next with
  | none =>
    simp only [lastChunk] at h
    split at h
    · cases h
    · split at h
      · cases h
      · refine ⟨by omega, ?_⟩
        simp only [true_and]
        omega
  | some next =>
    simp only [lastChunk] at h
    split at h
    · cases h
    · split at h
      · cases h
      · split at h
        · cases h
        · exact ⟨by omega, .inl (by omega)⟩

theorem starts_of_placeRuns (h : t.placeRuns number runs placed = .ok placed') :
    ∀ k run, runs[k]? = some run →
      StartsAt t.chunkOffsets.length run (k + 1 = runs.length) := by
  induction runs generalizing number placed with
  | nil => exact nofun
  | cons first runs ih =>
    simp only [placeRuns] at h
    split at h
    · cases h
    · rename_i last hlast
      split at h
      · cases h
      · intro k run hrun
        cases k with
        | zero =>
          obtain rfl := Option.some.inj hrun
          obtain ⟨hone, hstart⟩ := start_of_lastChunk hlast
          refine ⟨hone, hstart.imp_right (And.imp_left fun hnone => ?_)⟩
          rw [List.head?_eq_none_iff.1 hnone]
          rfl
        | succ k =>
          obtain ⟨hone, hstart⟩ := ih h k run hrun
          refine ⟨hone, hstart.imp_right (And.imp_left fun hlength => ?_)⟩
          rw [List.length_cons, ← hlength]

/-! ### A run right behind the last chunk -/

/-- A run reaches to the last chunk whether it is the last one or a run behind that chunk follows. -/
theorem lastChunk_behind (hrun : run.firstChunk.toNat = t.chunkOffsets.length + 1)
    {before : ChunkRun} (hbefore : before.firstChunk.toNat ≤ t.chunkOffsets.length) :
    t.lastChunk number before (some run) = t.lastChunk number before none := by
  have hnat : (UInt32.ofNat t.chunkOffsets.length).toNat = t.chunkOffsets.length := by
    have := run.firstChunk.toNat_lt
    exact UInt32.toNat_ofNat_of_lt' (show t.chunkOffsets.length < 2 ^ 32 by omega)
  -- The end comes from the start of the next run here, and from the number of chunks there.
  simp only [lastChunk, hnat, hrun, Nat.add_sub_cancel]
  rw [if_neg (show ¬ t.chunkOffsets.length + 1 ≤ before.firstChunk.toNat by omega)]

theorem placeRuns_behind (hrun : run.firstChunk.toNat = t.chunkOffsets.length + 1) :
    t.placeRuns number [run] placed = .ok placed := by
  have hlast : t.lastChunk number run none = .ok t.chunkOffsets.length := by
    have := run.firstChunk.toNat_lt
    simp only [lastChunk, UInt32.toNat_ofNat_of_lt' (show t.chunkOffsets.length < 2 ^ 32 by omega)]
    rw [if_neg (by omega), if_neg (by omega)]
  simp only [placeRuns, List.head?_nil, hlast, hrun, Nat.sub_self, List.take_zero, placeChunks]

/-- **A run that starts right behind the last chunk places nothing, and does not change what the runs
before it do.** -/
theorem placeRuns_concat (hrun : run.firstChunk.toNat = t.chunkOffsets.length + 1)
    (hruns : ∀ r ∈ runs, r.firstChunk.toNat ≤ t.chunkOffsets.length) :
    t.placeRuns number (runs ++ [run]) placed = t.placeRuns number runs placed := by
  induction runs generalizing number placed with
  | nil => exact placeRuns_behind hrun
  | cons first runs ih =>
    rw [List.forall_mem_cons] at hruns
    have hlast : t.lastChunk number first (runs ++ [run]).head? =
        t.lastChunk number first runs.head? := by
      cases runs with
      | nil => exact lastChunk_behind hrun hruns.1
      | cons second runs => rfl
    simp only [List.cons_append, placeRuns, hlast, ih hruns.2]

/-! ### The same tables with other runs -/

theorem placeSamples_runs (chunk n pos : Nat) :
    { t with runs }.placeSamples chunk n pos placed = t.placeSamples chunk n pos placed := by
  induction n generalizing pos placed with
  | zero => rfl
  | succ n ih => simp only [placeSamples, ih]

theorem placeChunks_runs (n chunk : Nat) (offsets : List UInt64) :
    { t with runs }.placeChunks n chunk offsets placed = t.placeChunks n chunk offsets placed := by
  induction offsets generalizing chunk placed with
  | nil => rfl
  | cons offset offsets ih => simp only [placeChunks, placeSamples_runs, ih]

theorem placeRuns_runs (rs : List ChunkRun) :
    { t with runs }.placeRuns number rs placed = t.placeRuns number rs placed := by
  induction rs generalizing number placed with
  | nil => rfl
  | cons r rs ih =>
    simp only [placeRuns, placeChunks_runs, ih]
    rfl

theorem index_concat (hrun : run.firstChunk.toNat = t.chunkOffsets.length + 1)
    (hruns : ∀ r ∈ t.runs, r.firstChunk.toNat ≤ t.chunkOffsets.length) :
    { t with runs := t.runs ++ [run] }.index = t.index := by
  have hplace : ∀ placed, { t with runs := t.runs ++ [run] }.placeRuns 0 (t.runs ++ [run]) placed =
      t.placeRuns 0 t.runs placed := fun placed =>
    (placeRuns_runs _).trans (placeRuns_concat hrun hruns)
  simp only [index, layout, hplace]
  rfl

/-! ### The index -/

theorem starts_of_layout {extents : Array Extent} (h : t.layout = .ok extents) :
    ∀ k run, t.runs[k]? = some run →
      StartsAt t.chunkOffsets.length run (k + 1 = t.runs.length) := by
  unfold layout at h
  split at h
  · cases h
  · rename_i placed hplaced
    exact starts_of_placeRuns hplaced

/-- **If there is an index, every run starts at a chunk, except that the last one may start right behind
the last chunk; and a run put there, behind runs that start at chunks, does not change the index or
whether there is one.** -/
theorem starts_of_index (t : IndexTables) :
    (∀ samples, t.index = .ok samples →
      (∀ k run, t.runs[k]? = some run →
        StartsAt t.chunkOffsets.length run (k + 1 = t.runs.length)) ∧
      ((∀ run ∈ t.runs, 1 ≤ run.firstChunk.toNat ∧
          run.firstChunk.toNat ≤ t.chunkOffsets.length) ↔
        ∀ run ∈ t.runs.getLast?, run.firstChunk.toNat ≠ t.chunkOffsets.length + 1)) ∧
    ∀ run : ChunkRun, run.firstChunk.toNat = t.chunkOffsets.length + 1 →
      (∀ r ∈ t.runs, r.firstChunk.toNat ≤ t.chunkOffsets.length) →
      { t with runs := t.runs ++ [run] }.index = t.index := by
  refine ⟨fun samples h => ?_, fun run hrun hruns => index_concat hrun hruns⟩
  obtain ⟨extents, hlayout⟩ := exists_index_eq_ok_iff.1 ⟨samples, h⟩
  have hstarts := starts_of_layout hlayout
  refine ⟨hstarts, fun hall run hlast => ?_, fun hlast run hmem => ?_⟩
  · have := (hall run (List.mem_of_getLast? hlast)).2
    omega
  · obtain ⟨k, hk, rfl⟩ := List.getElem_of_mem hmem
    obtain ⟨hone, hstart⟩ := hstarts k _ (List.getElem?_eq_getElem hk)
    refine ⟨hone, hstart.resolve_right fun ⟨hlength, hbehind⟩ => hlast _ ?_ hbehind⟩
    rw [List.getLast?_eq_getElem?, ← hlength, Nat.add_sub_cancel]
    exact List.getElem?_eq_getElem hk

/-- One chunk of one sample. -/
def oneChunk : IndexTables where
  times := [⟨1, 1⟩]
  offsets := none
  runs := [⟨1, 1, 1⟩]
  chunkOffsets := [0]
  sizes := ⟨0, 1, #[1]⟩
  sync := none
  inputLength := 100

/-- A run of five samples for each chunk, from the second chunk on. -/
def runBehind : ChunkRun := ⟨2, 5, 1⟩

/-- The run starts at no chunk, and there is the same index with it. -/
theorem runBehind_accepted :
    (∃ samples, { oneChunk with runs := oneChunk.runs ++ [runBehind] }.index = .ok samples ∧
      oneChunk.index = .ok samples ∧ samples.size = 1) ∧
    oneChunk.chunkOffsets.length < runBehind.firstChunk.toNat ∧
    ¬ ∀ run ∈ ({ oneChunk with runs := oneChunk.runs ++ [runBehind] } : IndexTables).runs,
      1 ≤ run.firstChunk.toNat ∧ run.firstChunk.toNat ≤ oneChunk.chunkOffsets.length := by
  have hsame := (starts_of_index oneChunk).2 runBehind rfl (by decide)
  refine ⟨⟨_, hsame.trans rfl, rfl, rfl⟩, by decide, fun hall => ?_⟩
  have hlast := (((starts_of_index _).1 _ (hsame.trans rfl)).2.1 hall) runBehind rfl
  exact hlast rfl

end IndexTables

end IsoMedia
