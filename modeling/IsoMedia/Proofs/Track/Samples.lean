import IsoMedia.Proofs.Demuxer.Opening
import IsoMedia.Proofs.Sample.Schedule
import IsoMedia.Proofs.Track.Gathering

/-!
# The samples of a track

What was put into a draft decides when the samples of its track are shown and which of them are key
frames.

* `TrackDraft.compositionOffset_of_build` : the last composition offsets count, if there are any.
* `TrackDraft.keyFrame_of_build` : the last numbers of key frames count, in whatever order they came.
-/

namespace IsoMedia

/-! ### Key frames -/

namespace Machine

variable {sync : List UInt32}

/-- In numbers that are in order, passing over the small ones leaves no other than those that are
not small. -/
theorem dropWhile_eq_filter (h : sync.Pairwise fun a b => a.toNat ≤ b.toNat) (n : Nat) :
    sync.dropWhile (·.toNat < n) = sync.filter (n ≤ ·.toNat) := by
  induction h with
  | nil => rfl
  | @cons a rest hle _ ih =>
    by_cases hsmall : a.toNat < n
    · rw [List.dropWhile_cons_of_pos (by simpa using hsmall),
        List.filter_cons_of_neg (by simpa using hsmall), ih]
    · have hall : ∀ b ∈ rest, n ≤ b.toNat := fun b hb =>
        Nat.le_trans (Nat.not_lt.1 hsmall) (hle b hb)
      rw [List.dropWhile_cons_of_neg (by simpa using hsmall),
        List.filter_cons_of_pos (by simpa using hsmall),
        List.filter_eq_self.2 fun b hb => decide_eq_true (hall b hb)]

theorem waiting_eq_filter (h : sync.Pairwise fun a b => a.toNat ≤ b.toNat) (sample : Nat) :
    waiting sync sample = sync.filter (sample ≤ ·.toNat) := by
  induction sample with
  | zero => simp [waiting]
  | succ sample ih =>
    rw [waiting, ih, dropWhile_eq_filter (h.filter _), List.filter_filter]
    refine List.filter_congr fun a _ => ?_
    grind

/-- The first of the numbers that are left is the least of them, so a key frame is not missed. -/
theorem keyAt_iff (h : sync.Pairwise fun a b => a.toNat ≤ b.toNat) {sample : Nat} :
    keyAt sync sample = true ↔ ∃ a ∈ sync, a.toNat = sample + 1 := by
  have hordered := h.filter (fun a => decide (sample + 1 ≤ a.toNat))
  have hmem (a : UInt32) : a ∈ sync.filter (fun a => decide (sample + 1 ≤ a.toNat)) ↔
      a ∈ sync ∧ sample + 1 ≤ a.toNat := by
    rw [List.mem_filter, decide_eq_true_iff]
  rw [keyAt, waiting_eq_filter h]
  cases hleft : sync.filter (fun a => decide (sample + 1 ≤ a.toNat)) with
  | nil =>
    constructor
    · intro hkey
      cases hkey
    · rintro ⟨a, ha, hnumber⟩
      have hnil : a ∈ ([] : List UInt32) := hleft ▸ (hmem a).2 ⟨ha, hnumber.ge⟩
      exact absurd hnil List.not_mem_nil
  | cons first rest =>
    rw [hleft] at hordered
    simp only [hleft] at hmem
    obtain ⟨hfirst, hge⟩ := (hmem first).1 (.head rest)
    rw [List.head?_cons, Option.any_some, decide_eq_true_iff]
    constructor
    · exact fun hkey => ⟨first, hfirst, hkey⟩
    · rintro ⟨a, ha, hnumber⟩
      rcases List.mem_cons.1 ((hmem a).2 ⟨ha, hnumber.ge⟩) with rfl | hlater
      · exact hnumber
      · have hle : first.toNat ≤ a.toNat := List.rel_of_pairwise_cons hordered hlater
        omega

end Machine

/-! ### The track of a draft -/

namespace TrackDraft

variable {number inputLength : Nat} {settings : List Setting} {t : Track}

/-- The samples of a track are the index that the tables of its draft make. -/
theorem exists_index_of_build {d : TrackDraft} (h : (d.build inputLength).result = .ok t) :
    ∃ tables : IndexTables, tables.index = .ok t.samples ∧ tables.offsets = d.offsets ∧
      tables.sync = d.sync := by
  rw [Opened.result_build, finish_eq_ok_iff] at h
  obtain ⟨c, samples, hindex, rfl⟩ := h
  exact ⟨c.tables inputLength, hindex, rfl, rfl⟩

/-- A track of five samples of one byte each, and whatever else is put into it. -/
def fiveSamples (others : List Setting) : List Setting :=
  [.mediaHeader ⟨⟨0, 0⟩, 0, 0, 1000, 50, "und"⟩,
    .description ⟨⟨0, 0⟩, [⟨⟨0x6D, 0x70, 0x34, 0x61⟩, 1, .data .binData []⟩]⟩,
    .times [⟨5, 10⟩], .runs [⟨1, 5, 1⟩], .chunkOffsets [8], .sizes ⟨1, 5, #[]⟩] ++ others

/-- **When samples are shown.**  Without composition offsets every sample is shown when it is
decoded.  Otherwise the last ones that were put into the draft say by how much later each sample is
shown, and the time is the nearest time stamp. -/
theorem compositionOffset_of_build
    (h : ((gather number settings).value.build inputLength).result = .ok t) :
    ∀ (k : Nat) (s : Sample), t.samples[k]? = some s →
      match (settings.filterMap Setting.offsets?).getLast? with
      | none => s.compositionOffset = 0 ∧ s.presentationTime = s.decodeTime
      | some runs => (∀ offset, OffsetRun.Delays runs k offset ↔ offset = s.compositionOffset) ∧
        s.presentationTime =
          max leastTime (min greatestTime (s.decodeTime + s.compositionOffset)) := by
  obtain ⟨tables, hindex, hoffsets, -⟩ := exists_index_of_build h
  rw [offsets_gather] at hoffsets
  intro k s hs
  have hdecode := IndexTables.decodeTime_eq hindex hs
  have hoffset : s.compositionOffset = OffsetRun.offsetAt (tables.offsets.getD []) k := by
    obtain ⟨e, rfl⟩ := IndexTables.exists_sampleAt hindex hs
    rfl
  rw [hoffsets] at hoffset
  cases hlast : (settings.filterMap Setting.offsets?).getLast? with
  | none =>
    rw [hlast] at hoffset
    have hzero : s.compositionOffset = 0 := hoffset
    refine ⟨hzero, ?_⟩
    rw [Sample.presentationTime, hzero, hdecode, Int.add_zero]
    unfold clampTime leastTime greatestTime
    omega
  | some runs =>
    rw [hlast] at hoffset
    refine ⟨fun offset => ?_, rfl⟩
    rw [hoffset]
    exact OffsetRun.delays_iff

/-- The second offsets count.  Their first and third runs have no samples, and the last two samples
lie behind all runs. -/
theorem fiveSamples_shown :
    ∃ t, ((gather 0 (fiveSamples [.offsets [⟨5, 1⟩], .offsets
        [⟨0, 7⟩, ⟨1, -15⟩, ⟨0, 9⟩, ⟨2, 4⟩]])).value.build 13).result = .ok t ∧
      t.samples.map (fun s => (s.compositionOffset, s.presentationTime)) =
        #[(-15, -15), (4, 14), (4, 24), (0, 30), (0, 40)] ∧
      ∀ offset, OffsetRun.Delays [⟨0, 7⟩, ⟨1, -15⟩, ⟨0, 9⟩, ⟨2, 4⟩] 1 offset ↔ offset = 4 := by
  obtain ⟨t, ht, hsamples⟩ : ∃ t, ((gather 0 (fiveSamples [.offsets [⟨5, 1⟩], .offsets
      [⟨0, 7⟩, ⟨1, -15⟩, ⟨0, 9⟩, ⟨2, 4⟩]])).value.build 13).result = .ok t ∧
      t.samples = #[⟨8, 1, 0, -15, true⟩, ⟨9, 1, 10, 4, true⟩, ⟨10, 1, 20, 4, true⟩,
        ⟨11, 1, 30, 0, true⟩, ⟨12, 1, 40, 0, true⟩] := ⟨_, rfl, by decide +kernel⟩
  refine ⟨t, ht, by rw [hsamples]; decide +kernel, ?_⟩
  exact (compositionOffset_of_build ht 1 ⟨9, 1, 10, 4, true⟩ (by rw [hsamples]; rfl)).1

/-- **Which samples are key frames.**  Without numbers of key frames every sample is one.  Otherwise
a sample is one if its number, counted from 1, is among the last numbers that were put into the
draft. -/
theorem keyFrame_of_build
    (h : ((gather number settings).value.build inputLength).result = .ok t) :
    ∀ (k : Nat) (s : Sample), t.samples[k]? = some s →
      match (settings.filterMap Setting.sync?).getLast? with
      | none => s.keyFrame = true
      | some numbers => s.keyFrame = true ↔ ∃ a ∈ numbers, a.toNat = k + 1 := by
  obtain ⟨tables, hindex, -, hsync⟩ := exists_index_of_build h
  rw [sync_gather] at hsync
  intro k s hs
  have hkey : s.keyFrame = tables.sync.elim true (Machine.keyAt · k) := by
    obtain ⟨e, rfl⟩ := IndexTables.exists_sampleAt hindex hs
    rfl
  rw [hsync] at hkey
  cases hlast : (settings.filterMap Setting.sync?).getLast? with
  | none => rwa [hlast] at hkey
  | some numbers =>
    rw [hlast] at hkey
    show s.keyFrame = true ↔ _
    rw [hkey]
    show Machine.keyAt (ascending numbers) k = true ↔ _
    rw [Machine.keyAt_iff (pairwise_ascending numbers)]
    simp only [mem_ascending]

/-- The second numbers count, of which 0 and 9 are those of no sample. -/
theorem fiveSamples_keyFrame :
    ∃ t, ((gather 0 (fiveSamples [.sync [5], .sync [4, 0, 9, 2, 4]])).value.build 13).result =
        .ok t ∧
      t.samples.size = 5 ∧
      ∀ k s, t.samples[k]? = some s → (s.keyFrame = true ↔ k = 1 ∨ k = 3) := by
  obtain ⟨t, ht, hsize⟩ : ∃ t, ((gather 0 (fiveSamples
      [.sync [5], .sync [4, 0, 9, 2, 4]])).value.build 13).result = .ok t ∧
      t.samples.size = 5 := ⟨_, rfl, rfl⟩
  refine ⟨t, ht, hsize, fun k s hs => ?_⟩
  have hkey : s.keyFrame = true ↔ ∃ a ∈ ([4, 0, 9, 2, 4] : List UInt32), a.toNat = k + 1 :=
    keyFrame_of_build ht k s hs
  have hk : k < 5 := hsize ▸ (Array.getElem?_eq_some_iff.1 hs).1
  rw [hkey]
  simp
  omega

end TrackDraft

end IsoMedia
