import IsoMedia.Proofs.Movie.Headers

/-!
# Reading the sample description of a written track

The fields of a sample entry have a layout for each type of media.  An entry with a known format
whose fields fit, and in which no box brings a configuration, is read as one of the codec that its
format names (`SampleEntry.result_ofPayload`).
-/

namespace IsoMedia

open IsoMedia.Tree

namespace SampleEntry

/-- The bytes in front of `inner` are read as the value, and `inner` is handed over. -/
theorem result_readFrom {α : Type} {inner bs : List UInt8} {p : Decode α} {a : α}
    (h : Decode.ReadsBefore inner p bs a) (pos : Nat) :
    (readFrom p ⟨bs ++ inner, pos⟩).result = .ok a := by
  obtain ⟨c, hc⟩ := h pos
  unfold readFrom
  rw [Checked.result_ofExcept, StateT.run, hc]
  rfl

/-- What is read behind a field may depend on it. -/
theorem exists_before {α β γ : Type} {inner bs : List UInt8} {fields : List (List UInt8)}
    {p : Decode α} {f : α → Decode β} {a : α} {value : γ → β} (hp : Decode.Reads p bs a)
    (hf : ∃ c, Decode.ReadsBefore inner (f a) fields.flatten (value c)) :
    ∃ c, Decode.ReadsBefore inner (p >>= f) (bs :: fields).flatten (value c) := by
  obtain ⟨c, hc⟩ := hf
  exact ⟨c, hp.before hc⟩

theorem reads_videoFields {bs inner : List UInt8} (h : bs.length = 70) :
    ∃ width height, Decode.ReadsBefore inner videoFields bs (width, height, inner) := by
  rw [← Decode.flatten_cut [16, 2, 2, 50] h]
  exact ⟨_, _, (Decode.reads_skip (by simp [h])).before ((Decode.reads_u16 (by simp [h])).before
    ((Decode.reads_u16 (by simp [h])).before ((Decode.reads_skip (by simp [h])).before
    (Decode.readsBefore_rest inner _))))⟩

/-- A sound entry has as many more fields as its version asks for. -/
theorem reads_audioFields {bs inner : List UInt8}
    (h : bs.length = 20 + (TrackPlan.soundExtra (UInt16.ofNat (bigEndian (bs.take 2)))).sum) :
    ∃ sound, Decode.ReadsBefore inner audioFields bs (sound, inner) := by
  generalize hversion : UInt16.ofNat (bigEndian (bs.take 2)) = version at h
  have hlength : bs.length = ([2, 6, 2, 2, 4, 4] ++ TrackPlan.soundExtra version).sum := by
    rw [List.sum_append, h]
    rfl
  rw [← Decode.flatten_cut _ hlength]
  -- The fields of version 0 are there in every version.
  refine exists_before (Decode.reads_u16 (by simp; omega)) ?_
  refine exists_before (Decode.reads_skip (by simp; omega)) ?_
  refine exists_before (Decode.reads_u16 (by simp; omega)) ?_
  refine exists_before (Decode.reads_u16 (by simp; omega)) ?_
  refine exists_before (Decode.reads_skip (by simp; omega)) ?_
  refine exists_before (Decode.reads_word (by simp; omega)) ?_
  rw [hversion]
  unfold TrackPlan.soundExtra at h ⊢
  by_cases h1 : version = 1
  · rw [if_pos h1] at h ⊢
    rw [if_pos h1]
    exact ⟨_, (Decode.reads_skip (by simp [h])).before (Decode.readsBefore_rest inner _)⟩
  · rw [if_neg h1] at h ⊢
    rw [if_neg h1]
    by_cases h2 : version = 2
    · rw [if_pos h2] at h ⊢
      rw [if_pos h2]
      exact ⟨_, (Decode.reads_skip (by simp [h])).before
        ((Decode.reads_number (by simp [h])).map UInt64.ofNat |>.before
        ((Decode.reads_word (by simp [h])).before ((Decode.reads_skip (by simp [h])).before
        ((Decode.reads_word (by simp [h])).before ((Decode.reads_skip (by simp [h])).before
        (Decode.readsBefore_rest inner _))))))⟩
    · rw [if_neg h2] at h ⊢
      rw [if_neg h2]
      exact ⟨_, Decode.readsBefore_rest inner _⟩

/-! ### Boxes inside an entry -/

/-- Boxes that change nothing leave what they are taken into as it is. -/
theorem result_foldlM_frames {α : Type} {step : α → Frame → Checked α} {a : α} {boxes : List Box}
    (h : ∀ b ∈ boxes, ∀ offset, (step a (b.frame offset)).result = .ok a) (offset : Nat) :
    ((Box.frames offset boxes).foldlM step a).result = .ok a := by
  induction boxes generalizing offset with
  | nil => rfl
  | cons b boxes ih =>
    rw [List.forall_mem_cons] at h
    rw [Box.frames, List.foldlM_cons, Checked.result_bind, h.1]
    exact ih h.2 _

theorem result_children {boxes : List Box} (h : ∀ b ∈ boxes, b.Fits) :
    (children (Box.allBytes boxes)).result = .ok (Box.frames 0 boxes) := by
  unfold children
  rw [Frame.all_bytes h]
  rfl

/-- Metadata from fields alone: the boxes behind them change nothing. -/
theorem result_fold_children {α : Type} {step : α → Frame → Checked α} {a : α} {boxes : List Box}
    (toMetaData : α → MetaData) (hfits : ∀ b ∈ boxes, b.Fits)
    (h : ∀ b ∈ boxes, ∀ offset, (step a (b.frame offset)).result = .ok a) :
    (children (Box.allBytes boxes) >>= fun frames =>
      frames.foldlM step a >>= fun last => pure (toMetaData last)).result = .ok (toMetaData a) := by
  rw [Checked.result_bind, result_children hfits]
  dsimp only [Bind.bind, Except.bind]
  exact (Checked.result_bind _ _).trans (by rw [result_foldlM_frames h]; rfl)

theorem result_videoChild {b : Box} (h : b.type ∉ TrackPlan.codecBoxes .video) (v : VideoData)
    (offset : Nat) : (videoChild v (b.frame offset)).result = .ok v := by
  simp only [TrackPlan.codecBoxes, List.mem_cons, List.not_mem_nil, or_false, not_or] at h
  obtain ⟨havc, hhvc, hesds, hav1, hvpc⟩ := h
  unfold videoChild esds
  simp only [Box.type_frame, havc, hhvc, hesds, hav1, hvpc, or_self, if_false]
  rfl

theorem result_audioChild {b : Box} (h : b.type ∉ TrackPlan.codecBoxes .audio) (c : Coding)
    (offset : Nat) : (audioChild c (b.frame offset)).result = .ok c := by
  simp only [TrackPlan.codecBoxes, List.mem_cons, List.not_mem_nil, or_false, not_or] at h
  obtain ⟨hesds, hwave, hops, hfla, halac⟩ := h
  unfold audioChild esds
  simp only [Box.type_frame, hesds, hwave, hops, hfla, halac, or_self, if_false]
  rfl

/-- The metadata of an entry is of the codec that its format names. -/
theorem result_metaDataFrom {codec : Codec} {bs : List UInt8} {boxes : List Box}
    (hfields : TrackPlan.FieldsFit codec.mediaType bs)
    (hboxes : ∀ b ∈ boxes, b.Fits ∧ b.type ∉ TrackPlan.codecBoxes codec.mediaType) :
    ∃ metaData, (metaDataFrom codec ⟨bs.drop 8 ++ Box.allBytes boxes, 8⟩).result = .ok metaData ∧
      metaData.codec = codec ∧ metaData.mediaType = codec.mediaType := by
  have hfits : ∀ b ∈ boxes, b.Fits := fun b hb => (hboxes b hb).1
  unfold metaDataFrom
  split
  · rename_i hmedia
    rw [hmedia] at hfields hboxes ⊢
    obtain ⟨width, height, hread⟩ := @reads_videoFields (bs.drop 8) (Box.allBytes boxes)
      (by rw [List.length_drop, show bs.length = 78 from hfields])
    refine ⟨.video { codec, width, height, extraData := [], lengthSize := none }, ?_, rfl, rfl⟩
    rw [Checked.result_bind, result_readFrom hread]
    exact result_fold_children .video hfits fun b hb => result_videoChild (hboxes b hb).2 _
  · rename_i hmedia
    rw [hmedia] at hfields hboxes ⊢
    obtain ⟨sound, hread⟩ := @reads_audioFields (bs.drop 8) (Box.allBytes boxes)
      (by rw [List.length_drop, show bs.length = _ from hfields]; omega)
    refine ⟨.audio ⟨codec, sound.sampleRate, sound.sampleBits, sound.channelCount, []⟩, ?_, rfl,
      rfl⟩
    rw [Checked.result_bind, result_readFrom hread]
    exact result_fold_children
      (fun coding => .audio ⟨coding.codec, sound.sampleRate, sound.sampleBits, sound.channelCount,
        coding.extraData⟩)
      hfits fun b hb => result_audioChild (hboxes b hb).2 _
  · rename_i hmedia
    exact ⟨_, rfl, rfl, hmedia.symm⟩
  · rename_i hmedia
    exact ⟨_, rfl, rfl, hmedia.symm⟩

/-- The length that fields of an entry have to have is at least that of the common ones. -/
theorem le_length_of_fieldsFit {media : MediaType} {bs : List UInt8}
    (h : TrackPlan.FieldsFit media bs) : 8 ≤ bs.length := by
  cases media with
  | video =>
    have : bs.length = 78 := h
    omega
  | audio =>
    have : bs.length = 28 + _ := h
    omega
  | subtitle => exact h
  | data => exact h

/-- The eight bytes that all entries start with are passed over. -/
theorem run_commonFields {bs : List UInt8} (h : 8 ≤ bs.length) (rest : List UInt8) :
    ∃ reference, commonFields.run ⟨bs ++ rest, 0⟩ = .ok (reference, ⟨bs.drop 8 ++ rest, 8⟩) := by
  have hlength : (bs.take 8).length = [6, 2].sum := List.length_take_of_le h
  have hread : Decode.Reads commonFields (Decode.cut [6, 2] (bs.take 8)).flatten _ :=
    (Decode.reads_skip (by simp; omega)).bind (Decode.reads_u16 (by simp; omega)).last
  have hrun := hread (bs.drop 8 ++ rest) 0
  rw [Decode.flatten_cut _ hlength, ← List.append_assoc, List.take_append_drop, hlength] at hrun
  exact ⟨_, hrun⟩

theorem result_ofPayload {format : FourCc} {codec : Codec} {bs : List UInt8} {boxes : List Box}
    (hcodec : SampleFormat.codec? format = some codec)
    (hfields : TrackPlan.FieldsFit codec.mediaType bs)
    (hboxes : ∀ b ∈ boxes, b.Fits ∧ b.type ∉ TrackPlan.codecBoxes codec.mediaType) :
    ∃ entry, (ofPayload format (bs ++ Box.allBytes boxes)).result = .ok entry ∧
      entry.metaData.codec = codec ∧ entry.metaData.mediaType = codec.mediaType := by
  obtain ⟨metaData, hmeta, hof, hmedia⟩ := result_metaDataFrom hfields hboxes
  have hlength := le_length_of_fieldsFit hfields
  obtain ⟨reference, hcommon⟩ := run_commonFields hlength (Box.allBytes boxes)
  refine ⟨⟨format, reference, metaData⟩, ?_, hof, hmedia⟩
  unfold ofPayload
  rw [Checked.result_bind, Checked.result_ofExcept, hcommon]
  dsimp only [Bind.bind, Except.bind]
  rw [hcodec]
  exact (Checked.result_bind _ _).trans (by rw [hmeta]; rfl)

end SampleEntry

/-- A description with one entry is read as that entry. -/
theorem SampleDescription.result_ofPayload {b : Box} (hfits : b.Fits) {entry : SampleEntry}
    (hentry : (SampleEntry.ofPayload b.type b.payload).result = .ok entry) :
    ∃ full, (ofPayload [zeros 4, numberBytes 4 1, b.bytes].flatten).result =
      .ok ⟨full, [entry]⟩ := by
  have hread : ∃ full, Decode.ReadsBefore b.bytes fields [zeros 4, numberBytes 4 1].flatten
      (full, 1, b.bytes) :=
    ⟨_, (Decode.reads_versionFlags (length_zeros 4)).before ((Decode.reads_u32 1).before
      (Decode.readsBefore_rest b.bytes _))⟩
  obtain ⟨full, hread⟩ := hread
  have hparse := hread.parse
  rw [← List.flatten_concat] at hparse
  have hframes := Frame.all_bytes (List.forall_mem_singleton.2 hfits) .nested 0
  rw [Box.allBytes_cons, Box.allBytes_nil, List.append_nil] at hframes
  refine ⟨full, ?_⟩
  unfold ofPayload
  rw [Checked.result_bind, Checked.result_ofExcept,
    show fields.parse [zeros 4, numberBytes 4 1, b.bytes].flatten = _ from hparse]
  dsimp only [Bind.bind, Except.bind]
  rw [hframes]
  show ((entriesFrom 1 1 [b.frame 0] none >>= _ : Checked SampleDescription)).result = _
  unfold entriesFrom
  rw [Checked.result_bind, Checked.result_bind, Box.type_frame, Box.payload_frame, hentry]
  rfl

namespace TrackPlan

theorem fits_entry {p : TrackPlan} (h : p.description.Fits) :
    p.entry.Fits ∧ ∀ b ∈ p.entryBoxes, b.Fits := by
  have hentry : p.entry.Fits := by
    simp only [Box.Fits, Box.size, description, List.flatten_cons, List.flatten_nil,
      List.append_nil, List.length_append, length_zeros, length_numberBytes,
      Box.length_bytes] at h ⊢
    omega
  refine ⟨hentry, fun b hb => ?_⟩
  have hsize := Box.size_le_of_mem hb
  simp only [Box.Fits, Box.size, entry, List.length_append] at hentry hsize ⊢
  omega

/-- The description of a valid plan goes into the draft, with the codec that the format names. -/
theorem Valid.enters_description {p : TrackPlan} (hp : p.Valid) (hfits : p.description.Fits) :
    ∃ s metaData, s.metaData? = some metaData ∧ SampleFormat.codec? p.format = some metaData.codec ∧
      metaData.mediaType = metaData.codec.mediaType ∧
      ∀ d, Enters p.description .stsd (some d) (some { d with description := some s }) := by
  obtain ⟨codec, hcodec, hfields, hboxes⟩ := hp.entry
  obtain ⟨hentryFits, hboxesFit⟩ := fits_entry hfits
  obtain ⟨entry, hentry, rfl, hmedia⟩ := SampleEntry.result_ofPayload hcodec hfields
    fun b hb => ⟨hboxesFit b hb, hboxes b hb⟩
  obtain ⟨full, hparse⟩ : ∃ full,
      (SampleDescription.ofPayload p.description.payload).result = .ok ⟨full, [entry]⟩ :=
    SampleDescription.result_ofPayload hentryFits hentry
  refine ⟨⟨full, [entry]⟩, entry.metaData, rfl, hcodec, hmedia, fun d => ⟨rfl, nofun, rfl, ?_⟩⟩
  intro offset
  refine ⟨⟨.description full [entry.format],
    some { d with description := some ⟨full, [entry]⟩ }, 0⟩, ?_, rfl⟩
  show (Payload.description (p.description.frame offset) (some d)).result = _
  unfold Payload.description
  rw [Checked.result_bind, Box.payload_frame, hparse]
  rfl

end TrackPlan

end IsoMedia
