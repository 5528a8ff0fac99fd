import IsoMedia.Description.Entry
import IsoMedia.Proofs.Codec.AnnexB
import IsoMedia.Proofs.Journal
import IsoMedia.Proofs.Machine.Reader

/-!
# One media type for a sample entry

The format of a sample entry names a codec, and the boxes inside the entry refine it.  Every box
keeps the media type (`SampleEntry.ensures_videoChild`, `SampleEntry.ensures_audioChild`), and a
configuration brings lengths of one to four bytes (`Avc.ensures_extraData`,
`Hevc.ensures_extraData`).  So the metadata of an entry are of the media type that its format stands
for, and no sample is refused for the width of its lengths (`SampleEntry.metaData_of_format`).
-/

namespace IsoMedia

/-! ### The width of lengths -/

/-- What is read has the property. -/
def Decode.Ensures {α : Type} (p : Decode α) (P : α → Prop) : Prop :=
  ∀ c a c', p c = .ok (a, c') → P a

namespace Decode.Ensures

variable {α β : Type} {P : α → Prop}

protected theorem pure {a : α} (h : P a) : Decode.Ensures (pure a) P := by
  rintro _ _ _ ⟨⟩
  exact h

/-- Fields that come first do not matter. -/
theorem after (p : Decode β) {f : β → Decode α} (hf : ∀ b, Decode.Ensures (f b) P) :
    Decode.Ensures (p >>= f) P := by
  intro c a c' h
  obtain ⟨b, c₁, -, hb⟩ := Machine.decode_bind_eq_ok h
  exact hf b c₁ a c' hb

theorem ite {c : Prop} [Decidable c] {p p' : Decode α} (h : p.Ensures P) (h' : p'.Ensures P) :
    Decode.Ensures (if c then p else p') P := by
  split
  · exact h
  · exact h'

theorem parse {p : Decode α} (h : p.Ensures P) {bs : List UInt8} {a : α}
    (ha : p.parse bs = .ok a) : P a := by
  obtain ⟨c, hc⟩ := Machine.parse_eq_ok ha
  exact h _ a c hc

end Decode.Ensures

open AnnexB (PrefixWidth)

/-- Two bits tell a width less one. -/
theorem prefixWidth_of_bits (b : UInt8) : PrefixWidth ((b &&& 0x03).toNat + 1) := by
  have hbits : (b &&& 0x03).toNat ≤ 3 := by
    rw [UInt8.toNat_and]
    exact Nat.and_le_right
  exact ⟨Nat.le_add_left 1 _, Nat.succ_le_succ hbits⟩

theorem Avc.ensures_fields : Config.fields.Ensures fun c => PrefixWidth c.lengthSize :=
  .after _ fun _ => .after _ fun _ => .after _ fun _ => .after _ fun _ => .after _ fun b =>
    .after _ fun _ => .after _ fun _ => .after _ fun _ =>
      .ite (.after _ fun _ => .after _ fun _ => .pure (prefixWidth_of_bits b))
        (.after _ fun _ => .after _ fun _ => .pure (prefixWidth_of_bits b))

theorem Avc.ensures_extraData (record : List UInt8) :
    (Avc.extraData record).Ensures fun r => PrefixWidth r.2 := by
  refine Checked.Ensures.bind (P := fun c => PrefixWidth c.lengthSize) (fun c hc => ?_)
    fun c hc => .after _ fun _ => .pure hc
  rw [Checked.result_ofExcept, Config.ofBytes] at hc
  split at hc
  · cases hc
  · exact Avc.ensures_fields.parse hc

theorem Hevc.ensures_extraData (record : List UInt8) :
    (Hevc.extraData record).Ensures fun r => PrefixWidth r.2 := by
  refine Checked.Ensures.bind (P := fun c => PrefixWidth c.lengthSize) (fun c hc => ?_)
    fun c hc => .after _ fun _ => .pure hc
  rw [Checked.result_ofExcept, Config.ofBytes] at hc
  split at hc
  · cases hc
  · obtain ⟨arrays, -, hc⟩ := bind_eq_ok_iff.1 hc
    cases hc
    exact prefixWidth_of_bits _

/-! ### Conversion of samples -/

theorem Avc.toAnnexB_ne_invalidArgument {width : Nat} (h : PrefixWidth width)
    (extra sample : List UInt8) (fault : ArgumentFault) :
    Avc.toAnnexB width extra sample ≠ .error (.invalidArgument fault) := by
  refine map_ne_error (map_ne_error (AnnexB.split_ne_invalidArgument h
    (fun length fault hrefused => ?_) sample fault) _) _
  cases hrefused

theorem Hevc.toAnnexB_ne_invalidArgument {width : Nat} (h : PrefixWidth width)
    (extra sample : List UInt8) (fault : ArgumentFault) :
    Hevc.toAnnexB width extra sample ≠ .error (.invalidArgument fault) := by
  refine map_ne_error (AnnexB.split_ne_invalidArgument h
    (fun length fault hrefused => ?_) sample fault) _
  split at hrefused <;> cases hrefused

/-! ### Metadata of one media type -/

/-- The codec is a video codec, and lengths that are told of have a right width. -/
structure VideoData.Sound (v : VideoData) : Prop where
  codec : v.codec.mediaType = .video
  lengthSize : ∀ n ∈ v.lengthSize, PrefixWidth n

/-- The variant of metadata for each media type. -/
inductive MetaData.IsVariant : MediaType → MetaData → Prop
  | video (v : VideoData) : IsVariant .video (.video v)
  | audio (a : AudioData) : IsVariant .audio (.audio a)
  | subtitle (codec : Codec) (bs : List UInt8) : IsVariant .subtitle (.subtitle codec bs)
  | data (codec : Codec) (bs : List UInt8) : IsVariant .data (.data codec bs)

/-- The metadata are of one media type throughout, and lengths that they tell of have a right width.
-/
structure MetaData.Consistent (media : MediaType) (m : MetaData) : Prop where
  variant : m.IsVariant media
  codec : m.codec.mediaType = media
  lengthSize : ∀ v, m = .video v → ∀ n ∈ v.lengthSize, PrefixWidth n

theorem MetaData.IsVariant.mediaType_eq {media : MediaType} {m : MetaData} (h : m.IsVariant media) :
    m.mediaType = media := by
  cases h <;> rfl

namespace SampleEntry

open Checked (Ensures)

/-! ### The boxes inside an entry -/

/-- A codec of another media type is not taken over. -/
theorem Coding.ensures_refine {media : MediaType} {c : Coding} (h : c.codec.mediaType = media)
    (payload : List UInt8) : Ensures (c.refine media payload) (·.codec.mediaType = media) := by
  unfold Coding.refine
  split
  · exact .after _ fun _ => .pure h
  · refine .pure ?_
    dsimp only
    split
    · split
      · assumption
      · exact h
    · exact h

theorem ensures_videoChild {v : VideoData} (h : v.Sound) (f : Frame) :
    Ensures (videoChild v f) VideoData.Sound := by
  unfold videoChild
  refine .ite ?_ (.ite ?_ (.ite ?_ (.ite (.pure ⟨h.codec, h.lengthSize⟩) (.pure h))))
  · refine (Avc.ensures_extraData f.payload).bind fun r hr => .pure ⟨h.codec, ?_⟩
    rintro _ ⟨⟩
    exact hr
  · refine (Hevc.ensures_extraData f.payload).bind fun r hr => .pure ⟨h.codec, ?_⟩
    rintro _ ⟨⟩
    exact hr
  · exact (Coding.ensures_refine (c := ⟨v.codec, v.extraData⟩) h.codec f.payload).bind
      fun c hc => .pure ⟨hc, h.lengthSize⟩

theorem ensures_audioChild {c : Coding} (h : c.codec.mediaType = .audio) (f : Frame) :
    Ensures (audioChild c f) (·.codec.mediaType = .audio) := by
  unfold audioChild
  refine .ite (Coding.ensures_refine h f.payload)
    (.ite ?_ (.ite (.pure h) (.ite (.pure h) (.pure h))))
  exact .after _ fun inner =>
    .foldlM (fun c g hc => Coding.ensures_refine hc g.payload) _ h

/-! ### Entries -/

theorem ensures_metaDataFrom (codec : Codec) (c : Cursor) :
    Ensures (metaDataFrom codec c) (MetaData.Consistent codec.mediaType) := by
  unfold metaDataFrom
  cases hmedia : codec.mediaType with
  | video =>
    refine .after _ fun _ => .after _ fun frames => ?_
    refine (Ensures.foldlM (fun v f hv => ensures_videoChild hv f) frames
      ⟨hmedia, fun _ h => absurd h (Option.not_mem_none _)⟩).bind
      fun v hv => .pure ⟨.video v, hv.codec, ?_⟩
    rintro _ ⟨⟩
    exact hv.lengthSize
  | audio =>
    refine .after _ fun _ => .after _ fun frames => ?_
    exact (Ensures.foldlM (fun c f hc => ensures_audioChild hc f) frames hmedia).bind
      fun c hc => .pure ⟨.audio _, hc, nofun⟩
  | subtitle => exact .pure ⟨.subtitle codec c.rest, hmedia, nofun⟩
  | data => exact .pure ⟨.data codec c.rest, hmedia, nofun⟩

theorem ensures_ofPayload (format : FourCc) (payload : List UInt8) :
    Ensures (ofPayload format payload) fun entry =>
      ∃ codec, SampleFormat.codec? format = some codec ∧
        entry.metaData.Consistent codec.mediaType := by
  refine .after _ fun _ => ?_
  cases hcodec : SampleFormat.codec? format with
  | none => exact .throw _
  | some codec =>
    exact (ensures_metaDataFrom codec _).bind fun m hm => .pure ⟨codec, rfl, hm⟩

/-- **The metadata of an entry are of the media type that its format stands for, in their variant as
well as by the codec that the boxes of the entry refine.  If they tell how wide the lengths in a
sample are, then no sample is refused for that width.** -/
theorem metaData_of_format {format : FourCc} {payload : List UInt8} {entry : SampleEntry}
    (h : (ofPayload format payload).result = .ok entry) :
    ∃ codec, SampleFormat.codec? format = some codec ∧
      entry.metaData.IsVariant codec.mediaType ∧
      entry.metaData.mediaType = codec.mediaType ∧
      entry.metaData.codec.mediaType = codec.mediaType ∧
      ∀ v, entry.metaData = .video v → ∀ n, v.lengthSize = some n → (1 ≤ n ∧ n ≤ 4) ∧
        ∀ extra sample fault,
          Avc.toAnnexB n extra sample ≠ .error (.invalidArgument fault) ∧
          Hevc.toAnnexB n extra sample ≠ .error (.invalidArgument fault) := by
  obtain ⟨codec, hcodec, hm⟩ := ensures_ofPayload format payload entry h
  refine ⟨codec, hcodec, hm.variant, hm.variant.mediaType_eq, hm.codec, fun v hv n hn => ?_⟩
  have hwidth : PrefixWidth n := hm.lengthSize v hv n hn
  exact ⟨hwidth, fun extra sample fault =>
    ⟨Avc.toAnnexB_ne_invalidArgument hwidth extra sample fault,
      Hevc.toAnnexB_ne_invalidArgument hwidth extra sample fault⟩⟩

/-- An entry with a configuration of H.264, whose lengths take two bytes, and behind it a stream
descriptor of AAC. -/
def crossedEntry : List UInt8 :=
  List.replicate 7 0 ++ [1] ++ List.replicate 16 0 ++ [1, 64, 0, 240] ++ List.replicate 50 0 ++
    [0, 0, 0, 15, 0x61, 0x76, 0x63, 0x43, 1, 0x42, 0, 0x1E, 0xFD, 0xE0, 0] ++
    [0, 0, 0, 39, 0x65, 0x73, 0x64, 0x73, 0, 0, 0, 0, 3, 25, 0, 1, 0, 4, 20, 0x40, 0x15, 0, 0, 0,
      0, 0, 0, 0, 0, 0, 0, 0, 5, 5, 1, 2, 3, 4, 5]

/-- The codec of the descriptor is not taken over. -/
theorem crossedEntry_metaData :
    (ofPayload (.ofChars 'a' 'v' 'c' '1') crossedEntry).result =
      .ok ⟨.ofChars 'a' 'v' 'c' '1', 1, .video ⟨.h264, 320, 240, [1, 2, 3, 4, 5], some 2⟩⟩ ∧
    (∃ codec, SampleFormat.codec? (.ofChars 'a' 'v' 'c' '1') = some codec ∧
      codec.mediaType = Codec.mediaType .h264) ∧
    ∀ extra sample fault,
      Avc.toAnnexB 2 extra sample ≠ .error (.invalidArgument fault) ∧
      Hevc.toAnnexB 2 extra sample ≠ .error (.invalidArgument fault) := by
  have hread : (ofPayload (.ofChars 'a' 'v' 'c' '1') crossedEntry).result =
      .ok ⟨.ofChars 'a' 'v' 'c' '1', 1, .video ⟨.h264, 320, 240, [1, 2, 3, 4, 5], some 2⟩⟩ := by
    decide +kernel
  obtain ⟨codec, hcodec, -, -, hmedia, hwidth⟩ := metaData_of_format hread
  exact ⟨hread, ⟨codec, hcodec, hmedia.symm⟩, (hwidth _ rfl 2 rfl).2⟩

end SampleEntry

end IsoMedia
