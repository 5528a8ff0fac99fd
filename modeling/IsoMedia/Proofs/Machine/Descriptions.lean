import IsoMedia.Description.Entry
import IsoMedia.Proofs.Machine.Boxes
import IsoMedia.Proofs.Machine.Headers

/-!
# Sample descriptions on a machine

The configurations of decoders and the entries that hold them.  Lengths of descriptors are gathered
seven bits at a time, and the bytes of an H.265 configuration are indexed before its arrays are read.
-/

namespace IsoMedia.Machine

/-! ### Elementary streams -/

/-- A length in at most `n` further bytes, behind the bits read so far. -/
def lengthFrom : Nat → Nat → Scan Nat
  | 0, length => return length
  | n + 1, length => do
    let b ← Scan.u8
    let length ← add 64 (← shiftLeft 64 length 7) (b.toNat % 128)
    if b < 0x80 then return length else lengthFrom n length

def descriptorHead : Scan (UInt8 × Nat) := do return (← Scan.u8, ← lengthFrom 4 0)

def optionalFields (flags : UInt8) : Scan Unit := do
  if flags &&& 0x80 ≠ 0 then Scan.skip 2
  if flags &&& 0x40 ≠ 0 then Scan.skip (← Scan.u8).toNat
  if flags &&& 0x20 ≠ 0 then Scan.skip 2

def decoderInfo : Scan (Option (List UInt8)) := do
  if ← Scan.atEnd then return none
  let (tag, length) ← descriptorHead
  if tag = ElementaryStream.decoderInfoTag ∧ 0 < length then
    return some (← (Scan.bytes length).orRefuse (.invalidData (.decoderInfoCut length)))
  else return none

def elementaryStream : Scan ElementaryStream := do
  let _ ← Scan.versionFlags
  let (tag, _) ← descriptorHead
  if tag ≠ ElementaryStream.streamTag then throw (.invalidData (.streamTag tag.toNat))
  let streamId ← Scan.u16
  optionalFields (← Scan.u8)
  let (tag, _) ← descriptorHead
  if tag ≠ ElementaryStream.decoderTag then throw (.invalidData (.decoderTag tag.toNat))
  let objectType ← Scan.u8
  let streamType := (← Scan.u8) >>> 2
  Scan.skip 3
  let maxBitrate ← Scan.u32
  let avgBitrate ← Scan.u32
  return { streamId, objectType, streamType, maxBitrate, avgBitrate, decoderInfo := ← decoderInfo }

/-- So few bits are read that a length is a word. -/
theorem follows_lengthFrom (n length : Nat) (h : (length + 1) * 128 ^ n ≤ 2 ^ 63) :
    Follows (lengthFrom n length) (ElementaryStream.lengthFrom n length) := by
  induction n generalizing length with
  | zero => exact .pure length
  | succ n ih =>
    have hpow : 1 ≤ 128 ^ n := Nat.one_le_pow _ _ (by decide)
    have hlength : (length + 1) * 128 * 128 ^ n ≤ 2 ^ 63 := by
      rwa [Nat.mul_assoc, ← Nat.pow_succ']
    have hbits : (length + 1) * 128 ≤ 2 ^ 63 :=
      Nat.le_trans (Nat.le_mul_of_pos_right _ hpow) hlength
    refine follows_u8.bind fun b => .step (shiftLeft_eq (by decide) (by omega)) ?_
    refine .step (add_eq (by omega)) (.ite (fun _ => .pure _) fun _ => ih _ ?_)
    exact Nat.le_trans (Nat.mul_le_mul_right _ (by omega)) hlength

theorem follows_descriptorHead : Follows descriptorHead ElementaryStream.descriptorHead :=
  follows_u8.bind fun _ => (follows_lengthFrom 4 0 (by decide)).bind fun _ => .pure _

theorem follows_optionalFields (flags : UInt8) :
    Follows (optionalFields flags) (ElementaryStream.optionalFields flags) := by
  have hclock : Follows (if flags &&& 0x20 ≠ 0 then Scan.skip 2 else pure ())
      (if flags &&& 0x20 ≠ 0 then Decode.skip 2 else pure ()) :=
    .ite (fun _ => follows_skip 2) fun _ => .pure ()
  exact .optional (follows_skip 2) <| .ite (fun _ => follows_u8.bind fun b =>
    (follows_skip b.toNat).bind fun _ => hclock) fun _ => hclock

theorem follows_decoderInfo : Follows decoderInfo ElementaryStream.decoderInfoFields := by
  refine follows_atEnd.bind fun _ => .ite (fun _ => .pure _) fun _ =>
    follows_descriptorHead.bind fun (tag, length) => .ite (fun _ => ?_) fun _ => .pure _
  exact ((follows_bytes length).orRefuse _).bind fun _ => .pure _

theorem follows_elementaryStream : Follows elementaryStream ElementaryStream.fields := by
  refine follows_versionFlags.bind fun _ => follows_descriptorHead.bind fun (tag, _) =>
    .ite (fun _ => .throw_bind _ _) fun _ => ?_
  refine follows_u16.bind fun _ => follows_u8.bind fun flags =>
    (follows_optionalFields flags).bind fun _ => follows_descriptorHead.bind fun (tag, _) =>
    .ite (fun _ => .throw_bind _ _) fun _ => ?_
  exact follows_u8.bind fun _ => follows_u8.bind fun _ => (follows_skip 3).bind fun _ =>
    follows_u32.bind fun _ => follows_u32.bind fun _ => follows_decoderInfo.bind fun _ => .pure _

/-! ### Configurations of H.264 and H.265 -/

def parameterSet (list : ParameterList) (index : Nat) : Scan (List UInt8) := do
  let length := (← Scan.u16.orRefuse (.invalidData (.parameterLengthCut list index))).toNat
  if length = 0 then throw (.invalidData (.parameterEmpty list index))
  else (Scan.bytes length).orRefuse (.invalidData (.parameterCut list index length))

def parameterSets (list : ParameterList) : Nat → Nat → Scan (List (List UInt8))
  | 0, _ => return []
  | count + 1, index => do
    let set ← parameterSet list index
    return set :: (← parameterSets list count (index + 1))

def avcFields : Scan Avc.Config := do
  let _version ← Scan.u8
  let profile ← Scan.u8
  let _compatibility ← Scan.u8
  let level ← Scan.u8
  let lengthSize ← add 8 ((← Scan.u8) &&& 0x03).toNat 1
  let sps ← parameterSets .sps ((← Scan.u8) &&& 0x1F).toNat 0
  let count ← if ← Scan.atEnd then pure 0 else UInt8.toNat <$> Scan.u8
  let pps ← parameterSets .pps count 0
  return ⟨profile, level, lengthSize, sps, pps⟩

def avcConfig (bs : List UInt8) : Machine Avc.Config :=
  if bs.length < 7 then throw (.invalidData (.avcConfigShort bs.length)) else avcFields.parse bs

def hevcUnit : Scan (List UInt8) := do Scan.bytes (← Scan.u16).toNat

def hevcArray (index : Nat) : Scan (Hevc.UnitType × List (List UInt8)) := do
  match Hevc.UnitType.ofNumber ((← Scan.u8) &&& 0x3F) with
  | .other n => throw (.invalidData (.hevcArrayType index n.toNat))
  | type => return (type, ← Scan.rows hevcUnit (← Scan.u16).toNat)

def hevcArrays : Nat → Nat → Scan (List (Hevc.UnitType × List (List UInt8)))
  | 0, _ => return []
  | count + 1, index => do
    let array ← hevcArray index
    return array :: (← hevcArrays count (index + 1))

/-- Three bytes of a record are indexed before its arrays are read from a slice of it. -/
def hevcConfig (bs : List UInt8) : Machine Hevc.Config :=
  if bs.length < 23 then throw (.invalidData (.hevcConfigShort bs.length))
  else do
    let profile := (← item bs 1) &&& 0x1F
    let level ← item bs 12
    let lengthSize ← add 8 ((← item bs 21) &&& 0x03).toNat 1
    let arrays ← Scan.parse (do hevcArrays (← Scan.u8).toNat 0) (← slice bs 22 bs.length)
    return ⟨profile, level, lengthSize, arrays⟩

def avcExtraData (record : List UInt8) : Machine (List UInt8 × Nat) := do
  let c ← avcConfig record
  return (c.stream, c.lengthSize)

def hevcExtraData (record : List UInt8) : Machine (List UInt8 × Nat) := do
  let c ← hevcConfig record
  return (c.stream, c.lengthSize)

theorem follows_parameterSet (list : ParameterList) (index : Nat) :
    Follows (parameterSet list index) (Avc.parameterSet list index) :=
  (follows_u16.orRefuse _).bind fun _ =>
    .ite (fun _ => .throw _) fun _ => (follows_bytes _).orRefuse _

theorem follows_parameterSets (list : ParameterList) (count index : Nat) :
    Follows (parameterSets list count index) (Avc.parameterSets list count index) := by
  induction count generalizing index with
  | zero => exact .pure []
  | succ count ih =>
    exact (follows_parameterSet list index).bind fun _ => (ih (index + 1)).bind fun _ => .pure _

/-- Two bits and one more fit a byte. -/
theorem lengthSize_eq (b : UInt8) : add 8 (b &&& 0x03).toNat 1 = pure ((b &&& 0x03).toNat + 1) := by
  have : (b &&& 0x03).toNat ≤ 3 := by
    rw [UInt8.toNat_and]
    exact Nat.and_le_right
  exact add_eq (by omega)

theorem follows_avcFields : Follows avcFields Avc.Config.fields := by
  refine follows_u8.bind fun _ => follows_u8.bind fun _ => follows_u8.bind fun _ =>
    follows_u8.bind fun _ => follows_u8.bind fun b => .step (lengthSize_eq b) ?_
  refine follows_u8.bind fun _ => (follows_parameterSets .sps _ 0).bind fun _ =>
    follows_atEnd.bind fun _ => ?_
  have hpps (count : Nat) := follows_parameterSets .pps count 0
  exact .ite (fun _ => (Follows.pure 0).bind fun count => (hpps count).bind fun _ => .pure _)
    fun _ => (follows_u8.map _).bind fun count => (hpps count).bind fun _ => .pure _

theorem avcConfig_eq {bs : List UInt8} (hbs : Addressable bs) :
    avcConfig bs = of (Avc.Config.ofBytes bs) := by
  unfold avcConfig Avc.Config.ofBytes
  split
  · rfl
  · exact follows_avcFields.parse hbs

theorem computes_avcExtraData {bs : List UInt8} (hbs : Addressable bs) :
    Computes (avcExtraData bs) (Avc.extraData bs) :=
  (Computes.ofExcept (avcConfig_eq hbs)).bind fun c =>
    .say (.pure (c.stream, c.lengthSize)) _ _ _

theorem follows_hevcArray (index : Nat) : Follows (hevcArray index) (Hevc.unitArray index) := by
  have hunit : Follows hevcUnit Hevc.arrayUnit := follows_u16.bind fun _ => follows_bytes _
  refine follows_u8.bind fun b => ?_
  cases Hevc.UnitType.ofNumber (b &&& 0x3F) with
  | other n => exact .throw _
  | _ => exact follows_u16.bind fun _ => (follows_rows hunit _).bind fun _ => .pure _

theorem follows_hevcArrays (count index : Nat) :
    Follows (hevcArrays count index) (Hevc.unitArrays count index) := by
  induction count generalizing index with
  | zero => exact .pure []
  | succ count ih => exact (follows_hevcArray index).bind fun _ => (ih (index + 1)).bind fun _ => .pure _

theorem hevcConfig_eq {bs : List UInt8} (hbs : Addressable bs) :
    hevcConfig bs = of (Hevc.Config.ofBytes bs) := by
  unfold hevcConfig Hevc.Config.ofBytes
  split
  · rfl
  · have hitem (place : Nat) (h : place < 23) : item bs place = pure (bs[place]?.getD 0) := by
      have hplace : place < bs.length := by omega
      rw [List.getElem?_eq_getElem hplace]
      exact item_eq (List.getElem?_eq_getElem hplace)
    have harrays : Follows (do hevcArrays (← Scan.u8).toNat 0)
        (do Hevc.unitArrays (← Decode.u8).toNat 0) := follows_u8.bind fun _ => follows_hevcArrays _ 0
    rw [hitem 1 (by decide), pure_bind, hitem 12 (by decide), pure_bind, hitem 21 (by decide),
      pure_bind, lengthSize_eq, pure_bind, slice_to_end (by omega), pure_bind, harrays.parse (hbs.drop 22),
      of_bind]
    rfl

theorem computes_hevcExtraData {bs : List UInt8} (hbs : Addressable bs) :
    Computes (hevcExtraData bs) (Hevc.extraData bs) :=
  (Computes.ofExcept (hevcConfig_eq hbs)).bind fun c =>
    .say (.pure (c.stream, c.lengthSize)) _ _ _

/-! ### Boxes inside an entry -/

def children (bs : List UInt8) : Machine (List Frame) := do return (← boxes .nested 0 bs).1

def refine (media : MediaType) (c : SampleEntry.Coding) (payload : List UInt8) :
    Machine SampleEntry.Coding := do
  match ← attempt (elementaryStream.parse payload) with
  | .error _ => return c
  | .ok stream =>
    let codec := match stream.codec? with
      | some codec => if codec.mediaType = media then codec else c.codec
      | none => c.codec
    return ⟨codec, stream.extraData?.getD c.extraData⟩

def videoChild (v : VideoData) (f : Frame) : Machine VideoData := do
  if f.type = .ofChars 'a' 'v' 'c' 'C' then
    let (extraData, lengthSize) ← avcExtraData f.payload
    return { v with extraData, lengthSize := some lengthSize }
  else if f.type = .ofChars 'h' 'v' 'c' 'C' then
    let (extraData, lengthSize) ← hevcExtraData f.payload
    return { v with extraData, lengthSize := some lengthSize }
  else if f.type = SampleEntry.esds then
    let c ← refine .video ⟨v.codec, v.extraData⟩ f.payload
    return { v with codec := c.codec, extraData := c.extraData }
  else if f.type = .ofChars 'a' 'v' '1' 'C' ∨ f.type = .ofChars 'v' 'p' 'c' 'C' then
    return { v with extraData := f.payload }
  else return v

/-- The configurations of FLAC and ALAC are looked for behind four bytes, of which there may be
fewer. -/
def audioChild (c : SampleEntry.Coding) (f : Frame) : Machine SampleEntry.Coding := do
  if f.type = SampleEntry.esds then refine .audio c f.payload
  else if f.type = .ofChars 'w' 'a' 'v' 'e' then
    let inner ← children f.payload
    (inner.filter (·.type = SampleEntry.esds)).foldlM (fun c g => refine .audio c g.payload) c
  else if f.type = .ofChars 'd' 'O' 'p' 's' then return { c with extraData := f.payload }
  else if f.type = .ofChars 'd' 'f' 'L' 'a' ∨ f.type = .ofChars 'a' 'l' 'a' 'c' then
    return { c with extraData := f.payload.drop 4 }
  else return c

/-! ### The fields of an entry -/

def videoFields : Scan (UInt16 × UInt16 × List UInt8) := do
  Scan.skip 16
  let width ← Scan.u16
  let height ← Scan.u16
  Scan.skip 50
  return (width, height, ← Scan.rest)

def audioFields : Scan (SampleEntry.Sound × List UInt8) := do
  let version ← Scan.u16
  Scan.skip 6
  let channelCount ← Scan.u16
  let sampleBits ← Scan.u16
  Scan.skip 4
  let sampleRate ← wholePart (← Scan.u32)
  if version = 1 then
    Scan.skip 16
    return (⟨channelCount, sampleBits, sampleRate⟩, ← Scan.rest)
  else if version = 2 then
    Scan.skip 4
    let sampleRate := Binary64.toUInt32 (← Scan.u64)
    let channelCount := SampleEntry.halfWord (← Scan.u32)
    Scan.skip 4
    let sampleBits := SampleEntry.halfWord (← Scan.u32)
    Scan.skip 12
    return (⟨channelCount, sampleBits, sampleRate⟩, ← Scan.rest)
  else return (⟨channelCount, sampleBits, sampleRate⟩, ← Scan.rest)

def commonFields : Scan UInt16 := do
  Scan.skip 6
  Scan.u16

def metaDataFrom (codec : Codec) (r : ByteReader) : Machine MetaData := do
  match codec.mediaType with
  | .video =>
    let (width, height, inner) ← videoFields.readFrom r
    let frames ← children inner
    let start : VideoData := { codec, width, height, extraData := [], lengthSize := none }
    return .video (← frames.foldlM videoChild start)
  | .audio =>
    let (sound, inner) ← audioFields.readFrom r
    let frames ← children inner
    let coding ← frames.foldlM audioChild ⟨codec, []⟩
    return .audio
      { codec := coding.codec
        sampleRate := sound.sampleRate
        sampleBits := sound.sampleBits
        channelCount := sound.channelCount
        extraData := coding.extraData }
  | .subtitle => return .subtitle codec (← slice r.data r.pos r.data.length)
  | .data => return .data codec (← slice r.data r.pos r.data.length)

def sampleEntry (format : FourCc) (payload : List UInt8) : Machine SampleEntry := do
  let (dataReferenceIndex, r) ← commonFields.run ⟨payload, 0⟩
  match SampleFormat.codec? format with
  | none => throw (.invalidData (.unknownSampleFormat format))
  | some codec => return ⟨format, dataReferenceIndex, ← metaDataFrom codec r⟩

/-! ### All entries -/

def entriesFrom : Nat → List Frame → Option Error → Machine (List SampleEntry)
  | 0, _, _ => return []
  | _ + 1, [], none => return []
  | _ + 1, [], some e => throw e
  | left + 1, f :: frames, fault => do
    let entry ← sampleEntry f.type f.payload
    return entry :: (← entriesFrom left frames fault)

def descriptionFields : Scan (VersionFlags × Nat × List UInt8) := do
  return (← Scan.versionFlags, (← Scan.u32).toNat, ← Scan.rest)

def sampleDescription (payload : List UInt8) : Machine SampleDescription := do
  let (full, declared, inner) ← descriptionFields.parse payload
  let (frames, fault) ← boxes .nested 0 inner
  return ⟨full, ← entriesFrom declared frames fault⟩

/-! ### No fault -/

theorem Addressable.nested {bs : List UInt8} (hbs : Addressable bs) : 0 + bs.length < 2 ^ 64 :=
  (Nat.zero_add _).symm ▸ hbs.length_lt

/-- The boxes before a fault are kept. -/
theorem result_children (bs : List UInt8) :
    (SampleEntry.children bs).result = .ok (Frame.all .nested 0 bs).1 := by
  unfold SampleEntry.children
  rcases Frame.all .nested 0 bs with ⟨frames, _ | e⟩ <;> rfl

theorem computes_children {bs : List UInt8} (hbs : Addressable bs) :
    Computes (children bs) (SampleEntry.children bs) := by
  rw [children, boxes_eq hbs.nested, pure_bind, Computes, result_children]
  rfl

theorem addressable_child {bs : List UInt8} (hbs : Addressable bs) {frames : List Frame}
    (h : (SampleEntry.children bs).result = .ok frames) {f : Frame} (hf : f ∈ frames) :
    Addressable f.payload := by
  rw [result_children] at h
  cases h
  exact addressable_payload hbs hf

theorem computes_refine (media : MediaType) (c : SampleEntry.Coding) {payload : List UInt8}
    (hpayload : Addressable payload) :
    Computes (refine media c payload) (c.refine media payload) := by
  have hstream : elementaryStream.parse payload = of (ElementaryStream.ofPayload payload) :=
    follows_elementaryStream.parse hpayload
  unfold refine SampleEntry.Coding.refine
  rw [hstream, attempt_of, pure_bind]
  cases ElementaryStream.ofPayload payload with
  | error e => rfl
  | ok stream => rfl

theorem computes_videoChild {f : Frame} (hf : Addressable f.payload) (v : VideoData) :
    Computes (videoChild v f) (SampleEntry.videoChild v f) := by
  refine .ite (fun _ => ?_) fun _ => .ite (fun _ => ?_) fun _ => .ite (fun _ => ?_) fun _ =>
    .ite (fun _ => .pure _) fun _ => .pure _
  · exact (computes_avcExtraData hf).bind fun _ => .pure _
  · exact (computes_hevcExtraData hf).bind fun _ => .pure _
  · exact (computes_refine .video _ hf).bind fun _ => .pure _

theorem computes_audioChild {f : Frame} (hf : Addressable f.payload) (c : SampleEntry.Coding) :
    Computes (audioChild c f) (SampleEntry.audioChild c f) := by
  refine .ite (fun _ => computes_refine .audio c hf) fun _ => .ite (fun _ => ?_) fun _ =>
    .ite (fun _ => .pure _) fun _ => .ite (fun _ => .pure _) fun _ => .pure _
  refine (computes_children hf).bind_of fun inner hinner => .foldlM (fun g hg c => ?_) c
  exact computes_refine .audio c (addressable_child hf hinner (List.mem_filter.1 hg).1)

theorem follows_videoFields : Follows videoFields SampleEntry.videoFields :=
  (follows_skip 16).bind fun _ => follows_u16.bind fun _ => follows_u16.bind fun _ =>
    (follows_skip 50).bind fun _ => .rest fun _ _ => .pure _

theorem follows_audioFields : Follows audioFields SampleEntry.audioFields := by
  refine follows_u16.bind fun _ => (follows_skip 6).bind fun _ => follows_u16.bind fun _ =>
    follows_u16.bind fun _ => (follows_skip 4).bind fun _ => follows_u32.bind fun rate =>
    .step (wholePart_eq rate) <| .ite (fun _ => ?_) fun _ => .ite (fun _ => ?_) fun _ =>
    .rest fun _ _ => .pure _
  · exact (follows_skip 16).bind fun _ => .rest fun _ _ => .pure _
  · exact (follows_skip 4).bind fun _ => follows_u64.bind fun _ => follows_u32.bind fun _ =>
      (follows_skip 4).bind fun _ => follows_u32.bind fun _ => (follows_skip 12).bind fun _ =>
      .rest fun _ _ => .pure _

theorem endsIn_videoFields : EndsIn (fun x => x.2.2) SampleEntry.videoFields :=
  .bind fun _ => .bind fun _ => .bind fun _ => .bind fun _ => .rest fun _ => rfl

theorem endsIn_audioFields : EndsIn Prod.snd SampleEntry.audioFields := by
  refine .bind fun _ => .bind fun _ => .bind fun _ => .bind fun _ => .bind fun _ => .bind fun _ =>
    .ite ?_ (.ite ?_ (.rest fun _ => rfl))
  · exact .bind fun _ => .rest fun _ => rfl
  · exact .bind fun _ => .bind fun _ => .bind fun _ => .bind fun _ => .bind fun _ => .bind fun _ =>
      .rest fun _ => rfl

theorem computes_metaDataFrom (codec : Codec) {r : ByteReader} (hr : r.Sound) :
    Computes (metaDataFrom codec r) (SampleEntry.metaDataFrom codec r.cursor) := by
  unfold metaDataFrom SampleEntry.metaDataFrom
  cases codec.mediaType with
  | video =>
    refine follows_videoFields.readFrom_bind endsIn_videoFields hr fun (width, height, inner) hinner => ?_
    refine (computes_children hinner).bind_of fun frames hframes => ?_
    refine (Computes.foldlM (fun f hf => computes_videoChild ?_) _).bind fun _ => .pure _
    exact addressable_child hinner hframes hf
  | audio =>
    refine follows_audioFields.readFrom_bind endsIn_audioFields hr fun (sound, inner) hinner => ?_
    refine (computes_children hinner).bind_of fun frames hframes => ?_
    refine (Computes.foldlM (fun f hf => computes_audioChild ?_) _).bind fun _ => .pure _
    exact addressable_child hinner hframes hf
  | subtitle => exact .step (slice_to_end hr.pos_le) (.pure _)
  | data => exact .step (slice_to_end hr.pos_le) (.pure _)

theorem computes_sampleEntry (format : FourCc) {payload : List UInt8} (h : Addressable payload) :
    Computes (sampleEntry format payload) (SampleEntry.ofPayload format payload) := by
  have hcommon : Follows commonFields SampleEntry.commonFields :=
    (follows_skip 6).bind fun _ => follows_u16
  have hstart : ByteReader.Sound ⟨payload, 0⟩ := ⟨Nat.zero_le _, h⟩
  refine hcommon.run_bind hstart fun _ stop _ hstop => ?_
  dsimp only
  cases SampleFormat.codec? format with
  | none => exact .throw _
  | some codec => exact (computes_metaDataFrom codec hstop).bind fun _ => .pure _

theorem computes_entriesFrom (declared left : Nat) {frames : List Frame}
    (h : ∀ f ∈ frames, Addressable f.payload) (fault : Option Error) :
    Computes (entriesFrom left frames fault)
      (SampleDescription.entriesFrom declared left frames fault) := by
  induction left, frames, fault using entriesFrom.induct with
  | case1 => exact .pure []
  | case2 => exact .say (.pure []) _ _ _
  | case3 => exact .throw _
  | case4 left f frames fault ih =>
    rw [List.forall_mem_cons] at h
    exact (computes_sampleEntry f.type h.1).bind fun _ => (ih h.2).bind fun _ => .pure _

/-- **Descriptions of samples are read without a fault.** -/
theorem computes_sampleDescription {payload : List UInt8} (h : Addressable payload) :
    Computes (sampleDescription payload) (SampleDescription.ofPayload payload) := by
  have hfields : Follows descriptionFields SampleDescription.fields :=
    follows_versionFlags.bind fun _ => follows_u32.bind fun _ => .rest fun _ _ => .pure _
  have hends : EndsIn (fun x => x.2.2) SampleDescription.fields :=
    .bind fun _ => .bind fun _ => .rest fun _ => rfl
  have hstart : ByteReader.Sound ⟨payload, 0⟩ := ⟨Nat.zero_le _, h⟩
  unfold sampleDescription SampleDescription.ofPayload
  rw [parse_eq]
  refine hfields.readFrom_bind hends hstart fun (full, declared, inner) hinner => ?_
  refine .step (boxes_eq hinner.nested) ?_
  refine (computes_entriesFrom declared declared (fun f hf => ?_) _).bind fun _ => .pure _
  exact addressable_payload hinner hf

end IsoMedia.Machine
