import IsoMedia.Demuxer
import IsoMedia.Proofs.Journal
import Mathlib.Data.List.Forall2

/-!
# When a file opens

`Demuxer.openInput_eq_ok_iff` takes the opening of a file apart into what is read, the walk of its
boxes and the building of its tracks, and `TrackDraft.finish_eq_ok_iff` says which drafts become
tracks.
-/

namespace IsoMedia

/-- A draft with every required table, and the tables themselves. -/
structure TrackDraft.Complete (d : TrackDraft) where
  description : SampleDescription
  metaData : MetaData
  times : List TimeRun
  runs : List ChunkRun
  chunkOffsets : List UInt64
  sizes : SampleSizes
  mediaHeader : MediaHeader
  description_eq : d.description = some description
  metaData_eq : description.metaData? = some metaData
  times_eq : d.times = some times
  runs_eq : d.runs = some runs
  chunkOffsets_eq : d.chunkOffsets = some chunkOffsets
  sizes_eq : d.sizes = some sizes
  mediaHeader_eq : d.mediaHeader = some mediaHeader

namespace TrackDraft

variable {d : TrackDraft}

/-- The tables that the index of the track is made from. -/
def Complete.tables (c : d.Complete) (inputLength : Nat) : IndexTables :=
  { times := c.times, offsets := d.offsets, runs := c.runs, chunkOffsets := c.chunkOffsets
    sizes := c.sizes, sync := d.sync, inputLength }

/-- The track with the given samples. -/
def Complete.track (c : d.Complete) (samples : Array Sample) : Track :=
  { number := d.number, header := d.header
    handlerType := d.handler.map (·.handlerType)
    metaData := c.metaData, description := c.description, mediaHeader := c.mediaHeader
    editList := d.editList
    times := c.times, offsets := d.offsets, runs := c.runs, chunkOffsets := c.chunkOffsets
    sizes := c.sizes, sync := d.sync
    samples, cursor := 0 }

theorem require_eq_ok_iff {α : Type} {missing : RequiredTable} {table : Option α} {a : α} :
    d.require missing table = .ok a ↔ table = some a := by
  cases table <;> simp [require]

/-- A draft becomes a track if it has every required table and its samples can be placed. -/
theorem finish_eq_ok_iff {inputLength : Nat} {t : Track} :
    d.finish inputLength = .ok t ↔
      ∃ (c : d.Complete) (samples : Array Sample),
        (c.tables inputLength).index = .ok samples ∧ t = c.track samples := by
  unfold finish
  simp only [bind_eq_ok_iff, require_eq_ok_iff, mapError_eq_ok_iff]
  constructor
  · rintro ⟨description, hdescription, times, htimes, runs, hruns, chunkOffsets, hchunkOffsets,
      sizes, hsizes, mediaHeader, hmediaHeader, samples, hsamples, ht⟩
    split at ht
    · cases ht
    · rename_i metaData hmetaData
      cases ht
      exact ⟨⟨description, metaData, times, runs, chunkOffsets, sizes, mediaHeader, hdescription,
        hmetaData, htimes, hruns, hchunkOffsets, hsizes, hmediaHeader⟩, samples, hsamples, rfl⟩
  · rintro ⟨c, samples, hindex, rfl⟩
    refine ⟨_, c.description_eq, _, c.times_eq, _, c.runs_eq, _, c.chunkOffsets_eq, _, c.sizes_eq,
      _, c.mediaHeader_eq, samples, hindex, ?_⟩
    rw [c.metaData_eq]
    rfl

end TrackDraft

namespace Opened

theorem result_build (d : TrackDraft) (inputLength : Nat) :
    (d.build inputLength).result = d.finish inputLength := by
  unfold TrackDraft.build
  rw [Checked.result_bind, Checked.result_ofExcept]
  cases d.finish inputLength <;> rfl

/-- Each draft becomes the track at its place. -/
theorem buildTracks_eq_ok_iff {inputLength : Nat} {drafts : List TrackDraft}
    {tracks : List Track} :
    (buildTracks inputLength drafts).result = .ok tracks ↔
      List.Forall₂ (fun d t => d.finish inputLength = .ok t) drafts tracks := by
  induction drafts generalizing tracks with
  | nil =>
    rw [List.forall₂_nil_left_iff]
    exact ⟨fun h => by cases h; rfl, fun h => by rw [h]; rfl⟩
  | cons d ds ih =>
    simp only [buildTracks, Checked.result_bind, bind_eq_ok_iff, result_build,
      Checked.result_pure, Except.ok.injEq, List.forall₂_cons_left_iff, ih]
    constructor
    · rintro ⟨t, ht, ts, hts, rfl⟩
      exact ⟨t, ts, ht, hts, rfl⟩
    · rintro ⟨t, ts, ht, hts, rfl⟩
      exact ⟨t, ht, ts, hts, rfl⟩

/-- Every track was made from a draft. -/
theorem exists_finish_of_mem {inputLength : Nat} {drafts : List TrackDraft} {tracks : List Track}
    (h : List.Forall₂ (fun d t => d.finish inputLength = .ok t) drafts tracks) {t : Track}
    (ht : t ∈ tracks) : ∃ d : TrackDraft, d.finish inputLength = .ok t := by
  induction h with
  | nil => cases ht
  | cons hfinish _ ih =>
    rcases List.mem_cons.1 ht with rfl | ht
    · exact ⟨_, hfinish⟩
    · exact ih ht

theorem ofBytes_eq_ok_iff {policy : UnknownBoxPolicy} {bytes : List UInt8} {input : Input}
    {o : Opened} {warnings : Array ParseWarning} :
    (ofBytes policy bytes input).result = .ok (o, warnings) ↔
      ∃ parsed tracks, (Tree.build policy bytes).result = .ok parsed ∧
        List.Forall₂ (fun d t => d.finish bytes.length = .ok t) parsed.drafts.toList tracks ∧
        tracks ≠ [] ∧ o = ⟨parsed.root, tracks, input, formatOf parsed.root, #[]⟩ ∧
        warnings = parsed.warnings := by
  unfold ofBytes
  simp only [Checked.result_bind, bind_eq_ok_iff, buildTracks_eq_ok_iff]
  constructor
  · rintro ⟨parsed, hparsed, tracks, htracks, hrest⟩
    split at hrest
    · cases hrest
    · rename_i hsome
      simp only [Checked.result_bind, Checked.result_say] at hrest
      cases hrest
      refine ⟨parsed, tracks, hparsed, htracks, ?_, rfl, rfl⟩
      rintro rfl
      exact hsome rfl
  · rintro ⟨parsed, tracks, hparsed, htracks, hsome, rfl, rfl⟩
    refine ⟨parsed, hparsed, tracks, htracks, ?_⟩
    rw [if_neg (by rwa [List.isEmpty_iff])]
    rfl

/-- The input is only kept for the readings: what else is opened does not depend on it. -/
theorem result_ofBytes_input (policy : UnknownBoxPolicy) (bytes : List UInt8)
    (input input' : Input) :
    (ofBytes policy bytes input').result =
      (ofBytes policy bytes input).result.map fun r => ({ r.1 with input := input' }, r.2) := by
  unfold ofBytes
  rw [Checked.result_bind, Checked.result_bind]
  cases (Tree.build policy bytes).result with
  | error e => rfl
  | ok parsed =>
    show Checked.result (buildTracks bytes.length parsed.drafts.toList >>= _) =
      Except.map _ (Checked.result (buildTracks bytes.length parsed.drafts.toList >>= _))
    rw [Checked.result_bind, Checked.result_bind]
    cases (buildTracks bytes.length parsed.drafts.toList).result with
    | error e => rfl
    | ok tracks =>
      show Checked.result (ite _ _ _) = Except.map _ (Checked.result (ite _ _ _))
      split <;> rfl

end Opened

namespace Demuxer

/-- What comes of an input that could be read to its end is decided by the bytes. -/
theorem value_openInput {d : Demuxer} {input input' : Input} {content : ByteArray}
    (h : input.readAll = (.ok content, input')) :
    (d.openInput input).value =
      match (Opened.ofBytes d.options.unknownBoxes content.data.toList input').result with
      | .error e => (.error e, d)
      | .ok (o, warnings) => (.ok (), { d with opened := some o, warnings }) := by
  unfold openInput
  rw [h]
  dsimp only
  rw [Noted.value_bind, show (Checked.attempt _).value =
    (Opened.ofBytes d.options.unknownBoxes content.data.toList input').result from rfl]
  cases (Opened.ofBytes d.options.unknownBoxes content.data.toList input').result with
  | error e => rfl
  | ok opened => rfl

/-- An opening that succeeds has read everything, found the boxes in order and built every track. -/
theorem openInput_eq_ok_iff {d d' : Demuxer} {input : Input} :
    (d.openInput input).value = (.ok (), d') ↔
      ∃ content input' o warnings, input.readAll = (.ok content, input') ∧
        (Opened.ofBytes d.options.unknownBoxes content.data.toList input').result =
          .ok (o, warnings) ∧
        d' = { d with opened := some o, warnings } := by
  unfold openInput
  constructor
  · intro h
    split at h
    · cases h
    · rename_i content input' hread
      rw [Noted.value_bind] at h
      split at h
      · cases h
      · rename_i o warnings hopen
        cases h
        exact ⟨content, input', o, warnings, hread, hopen, rfl⟩
  · rintro ⟨content, input', o, warnings, hread, hopen, rfl⟩
    rw [hread]
    dsimp only
    rw [Noted.value_bind, show (Checked.attempt _).value = _ from hopen]
    rfl

end Demuxer

end IsoMedia
