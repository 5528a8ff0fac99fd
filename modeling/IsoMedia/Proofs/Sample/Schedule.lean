import IsoMedia.Proofs.Machine.Index

/-!
# The runs in which samples lie

The runs of a table describe samples one behind the other.  `LiesIn` says which run describes the
sample of a given number; a run without samples describes none.  `TimeRun.Lasts` says from that how
long a sample lasts, and `OffsetRun.Delays` how much later than it is decoded it is shown.

* `IndexTables.decodeTime_of_index` : a sample is decoded once all samples before it have lasted.
-/

namespace IsoMedia

variable {ρ α : Type} {count : ρ → UInt32} {runs : List ρ} {sample : Nat}

/-- How many samples runs describe. -/
def described (count : ρ → UInt32) (runs : List ρ) : Nat := (runs.map fun r => (count r).toNat).sum

/-- The sample of the given number lies in the run. -/
def LiesIn (count : ρ → UInt32) (runs : List ρ) (sample : Nat) (run : ρ) : Prop :=
  ∃ before after, runs = before ++ run :: after ∧ described count before ≤ sample ∧
    sample < described count before + (count run).toNat

theorem LiesIn.mem {run : ρ} (h : LiesIn count runs sample run) : run ∈ runs := by
  obtain ⟨before, after, rfl, -⟩ := h
  simp

/-- No sample lies in a run without samples. -/
theorem LiesIn.count_ne_zero {run : ρ} (h : LiesIn count runs sample run) : count run ≠ 0 := by
  obtain ⟨before, after, -, hstart, hstop⟩ := h
  intro hzero
  rw [hzero, UInt32.toNat_zero] at hstop
  omega

/-- The first run describes the first samples, and the others those behind them. -/
theorem liesIn_cons_iff {first run : ρ} :
    LiesIn count (first :: runs) sample run ↔
      (sample < (count first).toNat ∧ run = first) ∨
        ((count first).toNat ≤ sample ∧ LiesIn count runs (sample - (count first).toNat) run) := by
  constructor
  · rintro ⟨before, after, hsplit, hstart, hstop⟩
    rcases List.cons_eq_append_iff.1 hsplit with ⟨rfl, hhead⟩ | ⟨before, rfl, rfl⟩
    · cases hhead
      simp only [described, List.map_nil, List.sum_nil] at hstop
      exact .inl ⟨by omega, rfl⟩
    · simp only [described, List.map_cons, List.sum_cons] at hstart hstop
      exact .inr ⟨by omega, before, after, rfl, by unfold described; omega,
        by unfold described; omega⟩
  · rintro (⟨hstop, rfl⟩ | ⟨hle, before, after, rfl, hstart, hstop⟩)
    · exact ⟨[], runs, rfl, Nat.zero_le _, by simpa [described] using hstop⟩
    · refine ⟨first :: before, after, rfl, ?_, ?_⟩ <;>
        · simp only [described, List.map_cons, List.sum_cons] at hstart hstop ⊢
          omega

theorem length_written (count : ρ → UInt32) (value : ρ → α) (runs : List ρ) :
    (written (runs.map fun r => ((count r).toNat, value r))).length = described count runs := by
  simp [written, described, List.flatMap_map, List.length_flatMap]

/-- The value at a place of the runs written out is that of the run which the place lies in. -/
theorem getElem?_written_eq_some_iff {value : ρ → α} {a : α} :
    (written (runs.map fun r => ((count r).toNat, value r)))[sample]? = some a ↔
      ∃ run, LiesIn count runs sample run ∧ value run = a := by
  induction runs generalizing sample with
  | nil =>
    constructor
    · exact nofun
    · rintro ⟨run, ⟨before, after, hsplit, -⟩, -⟩
      exact absurd hsplit.symm (by simp)
  | cons first runs ih =>
    have hwritten : written ((first :: runs).map fun r => ((count r).toNat, value r)) =
        List.replicate (count first).toNat (value first) ++
          written (runs.map fun r => ((count r).toNat, value r)) := rfl
    rw [hwritten, List.getElem?_append, List.length_replicate]
    simp only [liesIn_cons_iff]
    by_cases hfirst : sample < (count first).toNat
    · rw [if_pos hfirst, List.getElem?_replicate_of_lt hfirst]
      simp [hfirst, Nat.not_le.2 hfirst, eq_comm]
    · rw [if_neg hfirst, ih]
      simp [hfirst, Nat.not_lt.1 hfirst]

/-- Behind all runs nothing is written. -/
theorem getElem?_written_of_le (value : ρ → α) (h : described count runs ≤ sample) :
    (written (runs.map fun r => ((count r).toNat, value r)))[sample]? = none := by
  rw [List.getElem?_eq_none_iff, length_written]
  exact h

theorem le_of_getElem?_written {value : ρ → α}
    (h : (written (runs.map fun r => ((count r).toNat, value r)))[sample]? = none) :
    described count runs ≤ sample := by
  rw [List.getElem?_eq_none_iff, length_written] at h
  exact h

/-! ### How long samples last -/

namespace TimeRun

/-- How long the sample of the given number lasts. -/
inductive Lasts (runs : List TimeRun) (sample : Nat) : Nat → Prop
  /-- The run in which it lies says so. -/
  | inside {run : TimeRun} (h : LiesIn (·.count) runs sample run) :
    Lasts runs sample run.delta.toNat
  /-- Behind all runs, the last one that describes any samples says so. -/
  | behind {before after : List TimeRun} {run : TimeRun} (h : described (·.count) runs ≤ sample)
    (split : runs = before ++ run :: after) (describes : run.count ≠ 0)
    (last : ∀ r ∈ after, r.count = 0) : Lasts runs sample run.delta.toNat
  /-- No run describes any samples. -/
  | never (h : ∀ r ∈ runs, r.count = 0) : Lasts runs sample 0

variable {runs : List TimeRun} {sample : Nat}

theorem lastDelta_of_last {before after : List TimeRun} {run : TimeRun} (describes : run.count ≠ 0)
    (last : ∀ r ∈ after, r.count = 0) :
    lastDelta (before ++ run :: after) = run.delta.toNat := by
  have hafter : after.filter (·.count ≠ 0) = [] :=
    List.filter_eq_nil_iff.2 fun r hr => by simp [last r hr]
  have hrun : (run :: after).filter (·.count ≠ 0) = [run] := by
    rw [List.filter_cons_of_pos (by simpa using describes), hafter]
  rw [lastDelta, List.filter_append, hrun, List.getLast?_concat]
  rfl

/-- Behind all runs, the last delta is that of the last run with samples, if there is one. -/
theorem lasts_lastDelta (h : described (·.count) runs ≤ sample) :
    Lasts runs sample (lastDelta runs) := by
  cases hlast : (runs.filter (·.count ≠ 0)).getLast? with
  | none =>
    rw [List.getLast?_eq_none_iff, List.filter_eq_nil_iff] at hlast
    have hzero : lastDelta runs = 0 := by
      rw [lastDelta, List.filter_eq_nil_iff.2 hlast]
      rfl
    rw [hzero]
    exact .never fun r hr => by simpa using hlast r hr
  | some run =>
    have hdelta : lastDelta runs = run.delta.toNat := by
      rw [lastDelta, hlast]
      rfl
    rw [List.getLast?_filter, List.find?_eq_some_iff_append] at hlast
    obtain ⟨describes, after, before, hreverse, last⟩ := hlast
    have hsplit : runs = before.reverse ++ run :: after.reverse := by
      rw [← List.reverse_reverse runs, hreverse]
      simp
    rw [hdelta]
    refine .behind h hsplit (by simpa using describes) fun r hr => ?_
    simpa using last r (List.mem_reverse.1 hr)

/-- **Every sample lasts for one time.** -/
theorem lasts_iff {d : Nat} : Lasts runs sample d ↔ d = deltaAt runs sample := by
  constructor
  · rintro (h | ⟨h, rfl, describes, last⟩ | h)
    · rw [deltaAt, getElem?_written_eq_some_iff.2 ⟨_, h, rfl⟩]
      rfl
    · rw [deltaAt, getElem?_written_of_le _ h, lastDelta_of_last describes last]
      rfl
    · have hfilter : runs.filter (·.count ≠ 0) = [] :=
        List.filter_eq_nil_iff.2 fun r hr => by simp [h r hr]
      have hnone : (written (runs.map fun r => (r.count.toNat, r.delta.toNat)))[sample]? = none := by
        rw [Option.eq_none_iff_forall_ne_some]
        intro d hd
        obtain ⟨run, hlies, -⟩ := getElem?_written_eq_some_iff.1 hd
        exact hlies.count_ne_zero (h run hlies.mem)
      rw [deltaAt, hnone, lastDelta, hfilter]
      rfl
  · rintro rfl
    unfold deltaAt
    cases hwritten : (written (runs.map fun r => (r.count.toNat, r.delta.toNat)))[sample]? with
    | none => exact lasts_lastDelta (le_of_getElem?_written hwritten)
    | some d =>
      obtain ⟨run, hlies, rfl⟩ := getElem?_written_eq_some_iff.1 hwritten
      exact .inside hlies

theorem elapsed_mono (runs : List TimeRun) {i j : Nat} (h : i ≤ j) :
    elapsed runs i ≤ elapsed runs j := by
  induction h with
  | refl => exact Nat.le_refl _
  | step _ ih => exact Nat.le_trans ih (Machine.elapsed_succ runs _ ▸ Nat.le_add_right _ _)

end TimeRun

/-! ### How much later samples are shown -/

namespace OffsetRun

/-- How much later than it is decoded the sample of the given number is shown. -/
inductive Delays (runs : List OffsetRun) (sample : Nat) : Int → Prop
  /-- The run in which it lies says so. -/
  | inside {run : OffsetRun} (h : LiesIn (·.count) runs sample run) :
    Delays runs sample run.offset.toInt
  /-- Behind all runs, samples are shown when they are decoded. -/
  | behind (h : described (·.count) runs ≤ sample) : Delays runs sample 0

/-- **Every sample has one offset.** -/
theorem delays_iff {runs : List OffsetRun} {sample : Nat} {offset : Int} :
    Delays runs sample offset ↔ offset = offsetAt runs sample := by
  constructor
  · rintro (h | h)
    · rw [offsetAt, getElem?_written_eq_some_iff.2 ⟨_, h, rfl⟩]
      rfl
    · rw [offsetAt, getElem?_written_of_le _ h]
      rfl
  · rintro rfl
    unfold offsetAt
    cases hwritten : (written (runs.map fun r => (r.count.toNat, r.offset.toInt)))[sample]? with
    | none => exact .behind (le_of_getElem?_written hwritten)
    | some offset =>
      obtain ⟨run, hlies, rfl⟩ := getElem?_written_eq_some_iff.1 hwritten
      exact .inside hlies

end OffsetRun

/-! ### The samples of an index -/

theorem clampTime_of_nonneg {t : Int} (h : 0 ≤ t) : clampTime t = min greatestTime t := by
  unfold clampTime leastTime greatestTime
  omega

namespace IndexTables

variable {t : IndexTables} {samples : Array Sample}

/-- An entry of an index is that of the sample of its number. -/
theorem exists_sampleAt (h : t.index = .ok samples) {k : Nat} {s : Sample}
    (hs : samples[k]? = some s) : ∃ e, s = t.sampleAt k e := by
  rw [index_eq_map] at h
  cases hlayout : t.layout with
  | error e =>
    rw [hlayout] at h
    cases h
  | ok extents =>
    rw [hlayout] at h
    cases h
    rw [Array.getElem?_mapIdx, Option.map_eq_some_iff] at hs
    obtain ⟨e, -, rfl⟩ := hs
    exact ⟨e, rfl⟩

/-- A sample is decoded when those before it have lasted, or at the greatest time. -/
theorem decodeTime_eq (h : t.index = .ok samples) {k : Nat} {s : Sample}
    (hs : samples[k]? = some s) :
    s.decodeTime = min greatestTime (TimeRun.elapsed t.times k) := by
  obtain ⟨e, rfl⟩ := exists_sampleAt h hs
  exact clampTime_of_nonneg (Int.natCast_nonneg _)

/-- **When samples are decoded.**  Every sample of an index lasts as long as the run in which it lies
says, or, behind all runs, as long as the last run with samples says.  A sample is decoded when those
before it have lasted, but at the greatest time at the latest; so the first is decoded at 0, and none
before one that precedes it. -/
theorem decodeTime_of_index (h : t.index = .ok samples) :
    ∃ duration : Nat → Nat, (∀ sample d, TimeRun.Lasts t.times sample d ↔ d = duration sample) ∧
      (∀ (k : Nat) (s : Sample), samples[k]? = some s →
        s.decodeTime = min greatestTime (((List.range k).map duration).sum : Nat)) ∧
      (∀ s : Sample, samples[0]? = some s → s.decodeTime = 0) ∧
      ∀ (i j : Nat) (s s' : Sample), i ≤ j → samples[i]? = some s → samples[j]? = some s' →
        s.decodeTime ≤ s'.decodeTime := by
  refine ⟨TimeRun.deltaAt t.times, fun _ _ => TimeRun.lasts_iff, fun k s => decodeTime_eq h,
    fun s hs => ?_, fun i j s s' hij hs hs' => ?_⟩
  · rw [decodeTime_eq h hs]
    rfl
  · have helapsed := TimeRun.elapsed_mono t.times hij
    rw [decodeTime_eq h hs, decodeTime_eq h hs']
    omega

/-- Six samples in one chunk, with empty runs before, between and behind those that describe three
of them. -/
def sparseTimes : IndexTables where
  times := [⟨0, 9⟩, ⟨2, 3⟩, ⟨0, 7⟩, ⟨1, 5⟩, ⟨0, 4⟩]
  offsets := none
  runs := [⟨1, 6, 1⟩]
  chunkOffsets := [100]
  sizes := ⟨1, 6, #[]⟩
  sync := none
  inputLength := 106

/-- The last three samples last as long as the third, in whose run the runs with samples end. -/
theorem sparseTimes_decoded :
    ∃ samples duration, sparseTimes.index = .ok samples ∧
      (∀ sample d, TimeRun.Lasts sparseTimes.times sample d ↔ d = duration sample) ∧
      (List.range 6).map duration = [3, 3, 5, 5, 5, 5] ∧
      samples.map (·.decodeTime) = #[0, 3, 6, 11, 16, 21] := by
  obtain ⟨duration, hlasts, -⟩ := decodeTime_of_index (t := sparseTimes) rfl
  obtain rfl : duration = TimeRun.deltaAt sparseTimes.times :=
    funext fun sample => (hlasts sample _).1 (TimeRun.lasts_iff.2 rfl) ▸ rfl
  exact ⟨_, _, rfl, hlasts, by decide, by decide +kernel⟩

end IndexTables

end IsoMedia
