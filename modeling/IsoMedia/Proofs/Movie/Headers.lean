import IsoMedia.Proofs.Movie.Tables

/-!
# Reading the headers of a written movie

The header of a track, that of its media and its handler are read as what the plan of the track
says, and go into the draft of the track (`TrackPlan.enters_trackHeader` and its siblings).  The
brands and the header of the movie itself only have to be readable.
-/

namespace IsoMedia

open IsoMedia.Tree

/-- A time of four bytes. -/
theorem Decode.reads_time {full : VersionFlags} (hv : full.version ≠ 1) {bs : List UInt8}
    (h : bs.length = 4) :
    Decode.Reads (Decode.time full) bs (UInt32.ofNat (bigEndian bs)).toUInt64 := by
  unfold Decode.time
  rw [if_neg hv]
  exact (Decode.reads_word h).map UInt32.toUInt64

theorem Decode.reads_matrix : ∃ v, Decode.Reads Decode.matrix (zeros 36) v := by
  have hfields : zeros 36 = [zeros 4, zeros 4, zeros 4, zeros 4, zeros 4, zeros 4, zeros 4, zeros 4,
      zeros 4].flatten := by decide
  have h := Decode.reads_signedWord (length_zeros 4)
  rw [hfields]
  exact ⟨_, h.bind (h.bind (h.bind
    (h.bind (h.bind (h.bind (h.bind (h.bind (h.bind (.pure _)))))))))⟩

/-- A box that says something only about itself leaves the draft as it is. -/
theorem Tree.Enters.plain {b : Box} {kind : BoxKind} {draft : Option TrackDraft}
    {parsed : Except Error NodeData} {data : NodeData}
    (hkind : BoxKind.ofFourCc? b.type = some kind) (hne : kind ≠ .trak)
    (hleaf : kind.isContainer = false) (hparsed : parsed = .ok data)
    (hplain : ∀ offset,
      Payload.interpret kind (b.frame offset) draft = Payload.plain draft parsed) :
    Enters b kind draft draft := by
  refine ⟨hkind, hne, hleaf, fun offset => ⟨⟨data, draft, 0⟩, ?_, rfl⟩⟩
  rw [hplain, hparsed]
  rfl

/-- What belongs to a track goes into the draft of the track that is walked. -/
theorem result_forTrack {α : Type} {f : Frame} {d : TrackDraft} {parsed : Except Error α}
    {value : α} (hparsed : parsed = .ok value) (set : TrackDraft → α → Noted TrackDraft)
    (data : α → NodeData) :
    ∃ reading, (Checked.ofExcept parsed >>= fun a =>
        Payload.forTrack f (some d) a set (data a)).result = .ok reading ∧
      reading.draft = some (set d value).value := by
  subst hparsed
  exact ⟨_, rfl, rfl⟩

namespace TrackPlan

variable (p : TrackPlan)

theorem parse_trackHeader :
    ∃ h, TrackHeader.ofPayload p.trackHeader.payload = .ok h ∧ h.trackId = p.trackId := by
  obtain ⟨matrix, hmatrix⟩ := Decode.reads_matrix
  have hread : ∃ h, Decode.Reads TrackHeader.fields p.trackHeader.payload h ∧
      h.trackId = p.trackId :=
    ⟨_, (Decode.reads_versionFlags rfl).bind
      ((Decode.reads_time (by decide) (length_zeros 4)).bind
      ((Decode.reads_time (by decide) (length_zeros 4)).bind
      ((Decode.reads_u32 p.trackId).bind ((Decode.reads_skip (length_zeros 4)).bind
      ((Decode.reads_time (by decide) (length_zeros 4)).bind
      ((Decode.reads_skip (length_zeros 8)).bind
      ((Decode.reads_i16 (length_zeros 2)).bind ((Decode.reads_i16 (length_zeros 2)).bind
      ((Decode.reads_i16 (length_zeros 2)).bind ((Decode.reads_skip (length_zeros 2)).bind
      (hmatrix.bind ((Decode.reads_word (length_zeros 4)).bind
      ((Decode.reads_word (length_zeros 4)).bind (.pure _)))))))))))))), rfl⟩
  obtain ⟨h, hread, hid⟩ := hread
  exact ⟨h, hread.parse_all, hid⟩

theorem parse_mediaHeader :
    ∃ h, MediaHeader.ofPayload p.mediaHeader.payload = .ok h ∧ h.timescale = p.timescale := by
  have hread : ∃ h, Decode.ReadsBefore (zeros 2) MediaHeader.fields
      [zeros 4, zeros 4, zeros 4, numberBytes 4 p.timescale.toNat, zeros 4,
        [0x55, 0xC4]].flatten h ∧
      h.timescale = p.timescale :=
    ⟨_, (Decode.reads_versionFlags (length_zeros 4)).before
      ((Decode.reads_time (by decide) (length_zeros 4)).before
      ((Decode.reads_time (by decide) (length_zeros 4)).before
      ((Decode.reads_u32 p.timescale).before
      ((Decode.reads_time (by decide) (length_zeros 4)).before
      ((Decode.reads_u16 rfl).before fun pos => ⟨⟨zeros 2, pos⟩, rfl⟩))))), rfl⟩
  obtain ⟨h, hread, htimescale⟩ := hread
  refine ⟨h, ?_, htimescale⟩
  have := hread.parse
  rwa [← List.flatten_concat] at this

theorem parse_handler :
    ∃ h, Handler.ofPayload p.handler.payload = .ok h ∧ h.handlerType = p.handlerType ∧
      h.handlesData = false :=
  ⟨_, rfl, rfl, rfl⟩

theorem enters_trackHeader :
    ∃ h : TrackHeader, h.trackId = p.trackId ∧
      ∀ d, Enters p.trackHeader .tkhd (some d) (some { d with header := some h }) := by
  obtain ⟨h, hparse, hid⟩ := p.parse_trackHeader
  exact ⟨h, hid, fun d =>
    ⟨rfl, nofun, rfl, fun _ => result_forTrack hparse TrackDraft.setHeader .trackHeader⟩⟩

theorem enters_mediaHeader :
    ∃ h : MediaHeader, h.timescale = p.timescale ∧
      ∀ d, Enters p.mediaHeader .mdhd (some d) (some { d with mediaHeader := some h }) := by
  obtain ⟨h, hparse, htimescale⟩ := p.parse_mediaHeader
  exact ⟨h, htimescale, fun d =>
    ⟨rfl, nofun, rfl, fun _ => result_forTrack hparse TrackDraft.setMediaHeader .mediaHeader⟩⟩

theorem enters_handler :
    ∃ h : Handler, h.handlerType = p.handlerType ∧
      ∀ d, Enters p.handler .hdlr (some d) (some { d with handler := some h }) := by
  obtain ⟨h, hparse, htype, hdata⟩ := p.parse_handler
  refine ⟨h, htype, fun d => ⟨rfl, nofun, rfl, fun offset =>
    ⟨⟨.handler h, some { d with handler := some h }, 0⟩, ?_, rfl⟩⟩⟩
  show (Payload.handler (p.handler.frame offset) (some d)).result = _
  unfold Payload.handler
  rw [Checked.result_bind, Checked.result_ofExcept, Box.payload_frame, hparse]
  show Except.ok (Payload.Reading.mk _ (some (if h.handlesData then d else _)) 0) = _
  rw [hdata]
  rfl

end TrackPlan

namespace Movie

variable (m : Movie)

theorem parse_header : ∃ h, MovieHeader.ofPayload m.header.payload = .ok h := by
  obtain ⟨matrix, hmatrix⟩ := Decode.reads_matrix
  have hread : ∃ h, Decode.Reads MovieHeader.fields m.header.payload h :=
    ⟨_, (Decode.reads_versionFlags (length_zeros 4)).bind
      ((Decode.reads_time (by decide) (length_zeros 4)).bind
      ((Decode.reads_time (by decide) (length_zeros 4)).bind
      ((Decode.reads_u32 m.timescale).bind
      ((Decode.reads_time (by decide) (length_zeros 4)).bind
      ((Decode.reads_signedWord rfl).bind ((Decode.reads_i16 rfl).bind
      ((Decode.reads_skip (length_zeros 10)).bind (hmatrix.bind
      ((Decode.reads_skip (length_zeros 24)).bind ((Decode.reads_word rfl).bind
      (.pure _)))))))))))⟩
  obtain ⟨h, hread⟩ := hread
  exact ⟨h, hread.parse_all⟩

theorem parse_fileType : FileType.ofPayload m.fileType.payload = .ok m.brands := by
  have hwidth : (m.brands.compatibleBrands.flatMap FourCc.bytes).length / 4 =
      m.brands.compatibleBrands.length := by
    rw [Decode.length_flatMap_rows FourCc.length_bytes, Nat.mul_div_cancel _ (by decide)]
  have hrows : Decode.Reads (Decode.rows m.brands.compatibleBrands.length Decode.fourCc) _ _ :=
    Decode.reads_rows fun f _ => Decode.reads_fourCc f
  have hread : Decode.ReadsBefore (m.brands.compatibleBrands.flatMap FourCc.bytes) FileType.fields
      [m.brands.majorBrand.bytes, numberBytes 4 m.brands.minorVersion.toNat].flatten m.brands := by
    refine (Decode.reads_fourCc _).before ((Decode.reads_u32 _).before fun pos => ?_)
    have hall := hrows [] pos
    rw [List.append_nil, ← hwidth] at hall
    -- The number of brands comes from the bytes that are left.
    refine ⟨⟨[], pos + (m.brands.compatibleBrands.flatMap FourCc.bytes).length⟩, ?_⟩
    show Except.bind (Decode.rows (_ / 4) Decode.fourCc ⟨_, pos⟩) _ = _
    rw [List.flatten_nil, List.nil_append, hall]
    rfl
  have := hread.parse
  rwa [← List.flatten_concat] at this

theorem enters_fileType (draft : Option TrackDraft) : Enters m.fileType .ftyp draft draft :=
  .plain rfl nofun rfl (congrArg (Except.map NodeData.fileType) m.parse_fileType) fun _ => rfl

theorem enters_header (draft : Option TrackDraft) : Enters m.header .mvhd draft draft := by
  obtain ⟨h, hparse⟩ := m.parse_header
  exact .plain rfl nofun rfl (congrArg (Except.map NodeData.movieHeader) hparse) fun _ => rfl

theorem enters_data (draft : Option TrackDraft) : Enters m.data .mdat draft draft :=
  ⟨rfl, nofun, rfl, fun _ => ⟨_, rfl, rfl⟩⟩

end Movie

end IsoMedia
