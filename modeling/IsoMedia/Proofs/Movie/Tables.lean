import IsoMedia.Proofs.Movie.Writer
import IsoMedia.Proofs.Tree.Runs

/-!
# Reading the tables of a written track

A table is read as it was written, and goes into the draft of the track in which it stands
(`Table.enters`).
-/

namespace IsoMedia

open IsoMedia.Tree

theorem length_zeros (n : Nat) : (zeros n).length = n := List.length_replicate

namespace Table

/-- The kind of the box of a table. -/
def kind : Table → BoxKind
  | times _ => .stts
  | offsets _ => .ctts
  | runs _ => .stsc
  | sizes _ => .stsz
  | narrowOffsets _ => .stco
  | wideOffsets _ => .co64
  | sync _ => .stss

theorem kind_box (t : Table) : BoxKind.ofFourCc? t.box.type = some t.kind := by
  cases t <;> rfl

/-- Narrow chunk offsets are written with four bytes, which have to be enough. -/
def Narrow : Table → Prop
  | narrowOffsets os => ∀ o ∈ os, o.toNat < 2 ^ 32
  | _ => True

/-- A table of sizes has one size for all samples or one for each. -/
def Sized : Table → Prop
  | sizes s => if s.fixedSize = 0 then s.sizes.size = s.sampleCount.toNat else s.sizes = #[]
  | _ => True

/-! ### The payloads of tables -/

theorem length_timeRow (r : TimeRun) : (timeRow r).length = 8 := by simp [timeRow]

theorem length_offsetRow (r : OffsetRun) : (offsetRow r).length = 8 := by simp [offsetRow]

theorem length_runRow (r : ChunkRun) : (runRow r).length = 12 := by simp [runRow]

theorem reads_timeRow (r : TimeRun) : Decode.Reads TimeRun.row (timeRow r) r :=
  (Decode.reads_u32 r.count).bind ((Decode.reads_u32 r.delta).bind (.pure _))

theorem reads_offsetRow (r : OffsetRun) : Decode.Reads OffsetRun.row (offsetRow r) r :=
  (Decode.reads_u32 r.count).bind ((Decode.reads_i32 r.offset).bind (.pure _))

theorem reads_runRow (r : ChunkRun) : Decode.Reads ChunkRun.row (runRow r) r :=
  (Decode.reads_u32 r.firstChunk).bind
    ((Decode.reads_u32 r.samplesPerChunk).bind
      ((Decode.reads_u32 r.descriptionIndex).bind (.pure _)))

theorem reads_narrow {o : UInt64} (h : o.toNat < 2 ^ 32) :
    Decode.Reads (UInt32.toUInt64 <$> Decode.u32) (numberBytes 4 o.toNat) o := by
  have hread := (Decode.reads_count h).map UInt32.toUInt64
  have ho : (UInt32.ofNat o.toNat).toUInt64 = o := by
    apply UInt64.toNat_inj.1
    rw [UInt32.toNat_toUInt64, UInt32.toNat_ofNat_of_lt' h]
  rwa [ho] at hread

theorem parse_times {rs : List TimeRun} (h : rs.length < 2 ^ 32) :
    TimeRun.ofPayload (Decode.tableBytes (zeros 4) timeRow rs) = .ok rs :=
  Decode.parse_fullTable _ (by decide) length_timeRow (length_zeros 4)
    (fun r _ => reads_timeRow r) h

theorem parse_offsets {rs : List OffsetRun} (h : rs.length < 2 ^ 32) :
    OffsetRun.ofPayload (Decode.tableBytes [1, 0, 0, 0] offsetRow rs) = .ok rs :=
  Decode.parse_fullTable _ (by decide) length_offsetRow rfl (fun r _ => reads_offsetRow r) h

theorem parse_runs {rs : List ChunkRun} (h : rs.length < 2 ^ 32) :
    ChunkRun.ofPayload (Decode.tableBytes (zeros 4) runRow rs) = .ok rs :=
  Decode.parse_fullTable _ (by decide) length_runRow (length_zeros 4)
    (fun r _ => reads_runRow r) h

theorem parse_narrowOffsets {os : List UInt64} (h : os.length < 2 ^ 32)
    (hnarrow : ∀ o ∈ os, o.toNat < 2 ^ 32) :
    ChunkOffsets.ofNarrow (Decode.tableBytes (zeros 4) (fun o => numberBytes 4 o.toNat) os) =
      .ok os :=
  Decode.parse_fullTable _ (by decide) (fun _ => length_numberBytes 4 _) (length_zeros 4)
    (fun o ho => reads_narrow (hnarrow o ho)) h

theorem parse_wideOffsets {os : List UInt64} (h : os.length < 2 ^ 32) :
    ChunkOffsets.ofWide (Decode.tableBytes (zeros 4) (fun o => numberBytes 8 o.toNat) os) =
      .ok os :=
  Decode.parse_fullTable _ (by decide) (fun _ => length_numberBytes 8 _) (length_zeros 4)
    (fun o _ => Decode.reads_u64 o) h

theorem parse_sync {numbers : List UInt32} (h : numbers.length < 2 ^ 32) :
    SyncSamples.ofPayload
      (Decode.tableBytes (zeros 4) (fun n => numberBytes 4 n.toNat) numbers) = .ok numbers :=
  Decode.parse_fullTable _ (by decide) (fun _ => length_numberBytes 4 _) (length_zeros 4)
    (fun n _ => Decode.reads_u32 n) h

theorem parse_sizes {s : SampleSizes}
    (h : if s.fixedSize = 0 then s.sizes.size = s.sampleCount.toNat else s.sizes = #[]) :
    SampleSizes.ofWide (sizesBytes s) = .ok s := by
  obtain ⟨fixedSize, sampleCount, sizes⟩ := s
  have hread : Decode.Reads SampleSizes.wideFields (sizesBytes ⟨fixedSize, sampleCount, sizes⟩)
      ⟨fixedSize, sampleCount, sizes⟩ := by
    refine (Decode.reads_versionFlags (length_zeros 4)).bind ?_
    refine (Decode.reads_u32 fixedSize).bind ((Decode.reads_u32 sampleCount).bind ?_)
    dsimp only at h ⊢
    by_cases hfixed : fixedSize = 0
    · rw [if_pos hfixed] at h ⊢
      have hrows : Decode.Reads (Decode.rows sizes.toList.length Decode.u32) _ sizes.toList :=
        Decode.reads_rows fun n _ => Decode.reads_u32 n
      rw [Array.length_toList, h] at hrows
      refine (hrows.bind (.pure _)).room _ (by decide) ?_
      rw [List.flatten_cons, List.flatten_nil, List.append_nil,
        Decode.length_flatMap_rows fun _ => length_numberBytes 4 _, Array.length_toList, h]
    · rw [if_neg hfixed] at h ⊢
      subst h
      exact .pure _
  exact hread.parse_all

/-- A table that can be read, and belongs to the track that is walked, goes into the draft. -/
theorem result_tableForTrack {α : Type} {f : Frame} {d : TrackDraft} {parsed : Except Error α}
    {value : α} (hparsed : parsed = .ok value) {full : VersionFlags}
    (hfull : Decode.versionFlags.parse f.payload = .ok full) (entryCount : α → Nat)
    (set : TrackDraft → α → Noted TrackDraft) :
    ∃ reading, (Payload.tableForTrack f (some d) parsed entryCount set).result = .ok reading ∧
      reading.draft = some (set d value).value := by
  subst hparsed
  unfold Payload.tableForTrack Payload.forTrack
  rw [Checked.result_bind, Checked.result_ofExcept, hfull]
  exact ⟨_, rfl, rfl⟩

/-- A table is not longer than its box is large. -/
theorem length_lt_of_fits {α : Type} {type : FourCc} {full : List UInt8} {write : α → List UInt8}
    {width : Nat} (hwidth : 0 < width) (hlength : ∀ a, (write a).length = width) {as : List α}
    (h : (Box.mk type (Decode.tableBytes full write as)).Fits) : as.length < 2 ^ 32 := by
  have hrows := Decode.length_flatMap_rows hlength as
  have hle := Nat.le_mul_of_pos_right as.length hwidth
  simp only [Box.Fits, Box.size, Decode.tableBytes, List.flatten_cons, List.flatten_nil,
    List.append_nil, List.length_append, length_numberBytes] at h
  omega

/-- The payload of a table is read as the table. -/
theorem exists_reading {t : Table} (hfits : t.box.Fits) (hnarrow : t.Narrow) (hsized : t.Sized)
    (d : TrackDraft) (offset : Nat) :
    ∃ reading, (Payload.interpret t.kind (t.box.frame offset) (some d)).result = .ok reading ∧
      reading.draft = some (t.enter d) := by
  have hversion {full rest : List UInt8} (hfull : full.length = 4) :
      ∃ v, Decode.versionFlags.parse (full ++ rest) = .ok v :=
    ⟨_, (Decode.reads_versionFlags hfull).parse rest⟩
  cases t with
  | times rs =>
    obtain ⟨v, hv⟩ := hversion (length_zeros 4)
    have hlength := length_lt_of_fits (by decide) length_timeRow hfits
    exact result_tableForTrack (parse_times hlength) hv _ TrackDraft.setTimes
  | offsets rs =>
    obtain ⟨v, hv⟩ := hversion (rfl : ([1, 0, 0, 0] : List UInt8).length = 4)
    have hlength := length_lt_of_fits (by decide) length_offsetRow hfits
    exact result_tableForTrack (parse_offsets hlength) hv _ TrackDraft.setOffsets
  | runs rs =>
    obtain ⟨v, hv⟩ := hversion (length_zeros 4)
    have hlength := length_lt_of_fits (by decide) length_runRow hfits
    exact result_tableForTrack (parse_runs hlength) hv _ TrackDraft.setRuns
  | sizes s =>
    obtain ⟨v, hv⟩ := hversion (length_zeros 4)
    exact result_tableForTrack (parse_sizes hsized) hv _ TrackDraft.setSizes
  | narrowOffsets os =>
    obtain ⟨v, hv⟩ := hversion (length_zeros 4)
    have hlength := length_lt_of_fits (by decide) (fun _ => length_numberBytes 4 _) hfits
    exact result_tableForTrack (parse_narrowOffsets hlength hnarrow) hv _
      TrackDraft.setChunkOffsets
  | wideOffsets os =>
    obtain ⟨v, hv⟩ := hversion (length_zeros 4)
    have hlength := length_lt_of_fits (by decide) (fun _ => length_numberBytes 8 _) hfits
    exact result_tableForTrack (parse_wideOffsets hlength) hv _ TrackDraft.setChunkOffsets
  | sync numbers =>
    obtain ⟨v, hv⟩ := hversion (length_zeros 4)
    have hlength := length_lt_of_fits (by decide) (fun _ => length_numberBytes 4 _) hfits
    exact result_tableForTrack (parse_sync hlength) hv _ TrackDraft.setSync

/-- Every table is entered into the draft of its track. -/
theorem enters {t : Table} (hfits : t.box.Fits) (hnarrow : t.Narrow) (hsized : t.Sized)
    (d : TrackDraft) : Enters t.box t.kind (some d) (some (t.enter d)) :=
  ⟨t.kind_box, by cases t <;> nofun, by cases t <;> rfl,
    exists_reading hfits hnarrow hsized d⟩

end Table

end IsoMedia
