import IsoMedia.Box.Media
import IsoMedia.Box.TrackHeader
import IsoMedia.Proofs.Bytes.Widths

/-!
# Headers in both versions

The headers of a movie, of a track and of its media, and the edit list of a track, have two layouts:
in version 1 times are written with eight bytes, otherwise with four.  Whatever is written in one of
them is read back (`MovieHeader.reads_bytes` and its siblings), so that both say the same wherever both
can say it (`headers_read_alike`).
-/

namespace IsoMedia

/-- The same flags with another version. -/
def VersionFlags.inVersion (full : VersionFlags) (version : UInt8) : VersionFlags :=
  { full with version }

/-- How many bytes a time has. -/
def timeWidth (full : VersionFlags) : Nat := if full.version = 1 then 8 else 4

/-- A time or a duration. -/
def timeBytes (full : VersionFlags) (time : UInt64) : List UInt8 :=
  numberBytes (timeWidth full) time.toNat

/-- A time on the clock of the media, which may lie below zero. -/
def mediaTimeBytes (full : VersionFlags) (time : Int64) : List UInt8 :=
  numberBytes (timeWidth full) time.toUInt64.toNat

/-- The times of a header fit in four bytes. -/
structure NarrowTimes (creation modification duration : UInt64) : Prop where
  creation : creation.toNat < 2 ^ 32
  modification : modification.toNat < 2 ^ 32
  duration : duration.toNat < 2 ^ 32

def Matrix.bytes (m : Matrix) : List UInt8 := m.toList.flatMap fun n => numberBytes 4 n.toUInt32.toNat

/-- In version 1 the value is read from its bytes, and in version 0 if it is narrow; what follows the
bytes does not matter. -/
def ReadsAlike {α : Type} (parse : List UInt8 → Except Error α) (bytes : α → List UInt8)
    (inVersion : UInt8 → α) (narrow : Prop) : Prop :=
  ∀ rest, parse (bytes (inVersion 1) ++ rest) = .ok (inVersion 1) ∧
    (narrow → parse (bytes (inVersion 0) ++ rest) = .ok (inVersion 0))

theorem ReadsAlike.of_reads {α : Type} {p : Decode α} {bytes : α → List UInt8}
    {inVersion : UInt8 → α} {narrow : Prop}
    (h : ∀ version, version = 1 ∨ narrow → p.Reads (bytes (inVersion version)) (inVersion version)) :
    ReadsAlike p.parse bytes inVersion narrow := fun rest =>
  ⟨(h 1 (.inl rfl)).parse rest, fun hnarrow => (h 0 (.inr hnarrow)).parse rest⟩

namespace Decode

theorem reads_timeBytes {full : VersionFlags} {time : UInt64}
    (h : full.version = 1 ∨ time.toNat < 2 ^ 32) :
    Reads (Decode.time full) (timeBytes full time) time := by
  unfold Decode.time timeBytes timeWidth
  split
  · exact reads_u64 time
  · rename_i hversion
    have hnarrow := h.resolve_left hversion
    have hwide : (UInt32.ofNat time.toNat).toUInt64 = time := by
      refine UInt64.toNat_inj.1 ?_
      rw [UInt32.toNat_toUInt64, UInt32.toNat_ofNat_of_lt' hnarrow]
    have hread := (reads_count hnarrow).map UInt32.toUInt64
    rwa [hwide] at hread

theorem toInt32_lowHalf (time : Int64) :
    (UInt32.ofNat (time.toUInt64.toNat % 2 ^ 32)).toInt32 = time.toInt32 := by
  rw [show 2 ^ 32 = UInt32.size from rfl, UInt32.ofNat_mod_size]
  refine Int32.toBitVec_inj.1 ?_
  rw [Int64.toBitVec_toInt32, BitVec.signExtend_eq_setWidth_of_le _ (by decide)]
  exact BitVec.ofNat_toNat 32 time.toBitVec

/-- The lower four bytes of a time are the time, if it fits in them. -/
theorem toInt64_toInt32 {time : Int64} (h : -2 ^ 31 ≤ time.toInt ∧ time.toInt < 2 ^ 31) :
    time.toInt32.toInt64 = time := by
  -- What is cut off are copies of the sign.
  rw [← Int64.toInt_inj, Int32.toInt_toInt64, Int64.toInt_toInt32]
  exact Int.bmod_eq_of_le (by omega) (by omega)

/-- A time on the clock of the media. -/
def mediaTime (full : VersionFlags) : Decode Int64 :=
  if full.version = 1 then i64 else Int32.toInt64 <$> i32

theorem reads_mediaTimeBytes {full : VersionFlags} {time : Int64}
    (h : full.version = 1 ∨ (-2 ^ 31 ≤ time.toInt ∧ time.toInt < 2 ^ 31)) :
    Reads (mediaTime full) (mediaTimeBytes full time) time := by
  unfold mediaTime mediaTimeBytes timeWidth
  split
  · exact reads_i64 time
  · rename_i hversion
    have hread := (reads_signedWord (length_numberBytes 4 time.toUInt64.toNat)).map Int32.toInt64
    rwa [bigEndian_numberBytes_mod, show 256 ^ 4 = 2 ^ 32 from rfl, toInt32_lowHalf,
      toInt64_toInt32 (h.resolve_left hversion)] at hread

theorem reads_i16Bytes (n : Int16) : Reads i16 (numberBytes 2 n.toUInt16.toNat) n := by
  have h := (reads_halfWord n.toUInt16).map UInt16.toInt16
  rwa [Int16.toInt16_toUInt16] at h

theorem reads_matrixBytes (m : Matrix) : Reads matrix m.bytes m := by
  match m with
  | ⟨⟨[a, b, c, d, e, f, g, h, i]⟩, _⟩ =>
    exact (reads_i32 a).bind ((reads_i32 b).bind ((reads_i32 c).bind ((reads_i32 d).bind
      ((reads_i32 e).bind ((reads_i32 f).bind ((reads_i32 g).bind ((reads_i32 h).bind
      ((reads_i32 i).bind (.pure _)))))))))

theorem exact_time (full : VersionFlags) : Exact (Decode.time full) (timeWidth full) := by
  unfold Decode.time timeWidth
  split
  · exact exact_u64
  · exact exact_u32.map UInt32.toUInt64

theorem exact_mediaTime (full : VersionFlags) : Exact (mediaTime full) (timeWidth full) := by
  unfold mediaTime timeWidth
  split
  · exact exact_i64
  · exact exact_i32.map Int32.toInt64

theorem exact_matrix : Exact matrix 36 :=
  exact_i32.bind fun _ => exact_i32.bind fun _ => exact_i32.bind fun _ =>
    exact_i32.bind fun _ => exact_i32.bind fun _ => exact_i32.bind fun _ =>
    exact_i32.bind fun _ => exact_i32.bind fun _ => exact_i32.bind fun _ => exact_pure _

end Decode

/-! ### The header of a movie -/

namespace MovieHeader

/-- What stands between the fields of a movie header. -/
structure Gaps where
  reserved : Vector UInt8 10
  predefined : Vector UInt8 24

def bytes (gaps : Gaps) (h : MovieHeader) : List UInt8 :=
  [h.full.bytes, timeBytes h.full h.creationTime, timeBytes h.full h.modificationTime,
    numberBytes 4 h.timescale.toNat, timeBytes h.full h.duration, numberBytes 4 h.rate.toUInt32.toNat,
    numberBytes 2 h.volume.toUInt16.toNat, gaps.reserved.toList, h.matrix.bytes,
    gaps.predefined.toList, numberBytes 4 h.nextTrackId.toNat].flatten

def inVersion (h : MovieHeader) (version : UInt8) : MovieHeader :=
  { h with full := h.full.inVersion version }

/-- The times of the header fit in four bytes. -/
def Narrow (h : MovieHeader) : Prop := NarrowTimes h.creationTime h.modificationTime h.duration

theorem reads_bytes (gaps : Gaps) {h : MovieHeader} (hflags : h.full.flags.toNat < 2 ^ 24)
    (hfits : h.full.version = 1 ∨ h.Narrow) : Decode.Reads fields (h.bytes gaps) h :=
  (Decode.reads_fullHead hflags).bind
    ((Decode.reads_timeBytes (hfits.imp_right NarrowTimes.creation)).bind
    ((Decode.reads_timeBytes (hfits.imp_right NarrowTimes.modification)).bind
    ((Decode.reads_u32 h.timescale).bind
    ((Decode.reads_timeBytes (hfits.imp_right NarrowTimes.duration)).bind
    ((Decode.reads_i32 h.rate).bind ((Decode.reads_i16Bytes h.volume).bind
    ((Decode.reads_skip gaps.reserved.length_toList).bind ((Decode.reads_matrixBytes h.matrix).bind
    ((Decode.reads_skip gaps.predefined.length_toList).bind ((Decode.reads_u32 h.nextTrackId).bind
    (.pure h)))))))))))

theorem readsAlike (gaps : Gaps) {h : MovieHeader} (hflags : h.full.flags.toNat < 2 ^ 24) :
    ReadsAlike ofPayload (bytes gaps) h.inVersion h.Narrow :=
  .of_reads fun version hfits => reads_bytes (h := h.inVersion version) gaps hflags hfits

theorem ofPayload_error_iff {payload : List UInt8} :
    (∃ e, ofPayload payload = .error e) ↔
      payload.length < Decode.widthByVersion payload 112 100 := by
  refine Decode.parse_fullBox_error_iff (fun full => (Decode.exact_time full).bind fun _ =>
    (Decode.exact_time full).bind fun _ => Decode.exact_u32.bind fun _ =>
    (Decode.exact_time full).bind fun _ => Decode.exact_i32.bind fun _ =>
    Decode.exact_i16.bind fun _ => (Decode.exact_skip 10).bind fun _ =>
    Decode.exact_matrix.bind fun _ => (Decode.exact_skip 24).bind fun _ =>
    Decode.exact_u32.bind fun _ => Decode.exact_pure _) fun full => ?_
  unfold timeWidth
  split <;> rfl

end MovieHeader

/-! ### The header of a track -/

namespace TrackHeader

/-- What stands between the fields of a track header, and the parts of width and height behind the
point. -/
structure Gaps where
  behindId : Vector UInt8 4
  behindDuration : Vector UInt8 8
  behindVolume : Vector UInt8 2
  widthFraction : UInt16
  heightFraction : UInt16

/-- A number with 16 bits behind the point. -/
def fixedBytes (whole : UInt32) (fraction : UInt16) : List UInt8 :=
  numberBytes 2 whole.toNat ++ numberBytes 2 fraction.toNat

def bytes (gaps : Gaps) (h : TrackHeader) : List UInt8 :=
  [h.full.bytes, timeBytes h.full h.creationTime, timeBytes h.full h.modificationTime,
    numberBytes 4 h.trackId.toNat, gaps.behindId.toList, timeBytes h.full h.duration,
    gaps.behindDuration.toList, numberBytes 2 h.layer.toUInt16.toNat,
    numberBytes 2 h.alternateGroup.toUInt16.toNat, numberBytes 2 h.volume.toUInt16.toNat,
    gaps.behindVolume.toList, h.matrix.bytes, fixedBytes h.width gaps.widthFraction,
    fixedBytes h.height gaps.heightFraction].flatten

def inVersion (h : TrackHeader) (version : UInt8) : TrackHeader :=
  { h with full := h.full.inVersion version }

/-- The whole parts of width and height fit in front of the point. -/
structure Writable (h : TrackHeader) : Prop where
  flags : h.full.flags.toNat < 2 ^ 24
  width : h.width.toNat < 2 ^ 16
  height : h.height.toNat < 2 ^ 16

/-- The times of the header fit in four bytes. -/
def Narrow (h : TrackHeader) : Prop := NarrowTimes h.creationTime h.modificationTime h.duration

theorem reads_fixedBytes {whole : UInt32} (h : whole.toNat < 2 ^ 16) (fraction : UInt16) :
    ∃ n, Decode.Reads Decode.u32 (fixedBytes whole fraction) n ∧ n >>> 16 = whole := by
  have hlength : (fixedBytes whole fraction).length = 4 := by
    rw [fixedBytes, List.length_append, length_numberBytes, length_numberBytes]
  have hfraction := fraction.toNat_lt
  have hnumber : bigEndian (fixedBytes whole fraction) = whole.toNat * 2 ^ 16 + fraction.toNat := by
    rw [fixedBytes, bigEndian_append, bigEndian_numberBytes h, length_numberBytes,
      bigEndian_numberBytes hfraction]
    rfl
  refine ⟨_, Decode.reads_word hlength, UInt32.toNat_inj.1 ?_⟩
  rw [UInt32.toNat_shiftRight, hnumber, UInt32.toNat_ofNat_of_lt' (show _ < 2 ^ 32 by omega)]
  show (whole.toNat * 2 ^ 16 + fraction.toNat) >>> 16 = _
  rw [Nat.shiftRight_eq_div_pow]
  omega

theorem reads_bytes (gaps : Gaps) {h : TrackHeader} (hwritable : h.Writable)
    (hfits : h.full.version = 1 ∨ h.Narrow) : Decode.Reads fields (h.bytes gaps) h := by
  obtain ⟨width, hwidth, hwhole⟩ := reads_fixedBytes hwritable.width gaps.widthFraction
  obtain ⟨height, hheight, hwhole'⟩ := reads_fixedBytes hwritable.height gaps.heightFraction
  have hlast : Decode.Reads (pure { h with width := width >>> 16, height := height >>> 16 }) [] h := by
    rw [hwhole, hwhole']
    exact .pure h
  exact (Decode.reads_fullHead hwritable.flags).bind
    ((Decode.reads_timeBytes (hfits.imp_right NarrowTimes.creation)).bind
    ((Decode.reads_timeBytes (hfits.imp_right NarrowTimes.modification)).bind
    ((Decode.reads_u32 h.trackId).bind ((Decode.reads_skip gaps.behindId.length_toList).bind
    ((Decode.reads_timeBytes (hfits.imp_right NarrowTimes.duration)).bind
    ((Decode.reads_skip gaps.behindDuration.length_toList).bind
    ((Decode.reads_i16Bytes h.layer).bind ((Decode.reads_i16Bytes h.alternateGroup).bind
    ((Decode.reads_i16Bytes h.volume).bind ((Decode.reads_skip gaps.behindVolume.length_toList).bind
    ((Decode.reads_matrixBytes h.matrix).bind (hwidth.bind (hheight.bind hlast)))))))))))))

theorem readsAlike (gaps : Gaps) {h : TrackHeader} (hwritable : h.Writable) :
    ReadsAlike ofPayload (bytes gaps) h.inVersion h.Narrow :=
  .of_reads fun version hfits => reads_bytes (h := h.inVersion version) gaps
    ⟨hwritable.1, hwritable.2, hwritable.3⟩ hfits

theorem ofPayload_error_iff {payload : List UInt8} :
    (∃ e, ofPayload payload = .error e) ↔
      payload.length < Decode.widthByVersion payload 96 84 := by
  refine Decode.parse_fullBox_error_iff (fun full => (Decode.exact_time full).bind fun _ =>
    (Decode.exact_time full).bind fun _ => Decode.exact_u32.bind fun _ =>
    (Decode.exact_skip 4).bind fun _ => (Decode.exact_time full).bind fun _ =>
    (Decode.exact_skip 8).bind fun _ => Decode.exact_i16.bind fun _ =>
    Decode.exact_i16.bind fun _ => Decode.exact_i16.bind fun _ => (Decode.exact_skip 2).bind fun _ =>
    Decode.exact_matrix.bind fun _ => Decode.exact_u32.bind fun _ => Decode.exact_u32.bind fun _ =>
    Decode.exact_pure _) fun full => ?_
  unfold timeWidth
  split <;> rfl

end TrackHeader

/-! ### The header of media -/

/-- A language code: three letters, and a bit in front of them that says nothing. -/
structure LanguageCode where
  pad : Bool
  letters : Vector (Fin 32) 3

namespace LanguageCode

/-- A letter as it is shown. -/
def letter (n : Fin 32) : Char := Char.ofNat (n.val + 0x60)

def text (c : LanguageCode) : String := String.ofList (c.letters.toList.map letter)

/-- The letters as one number, with five bits for each. -/
def packed (c : LanguageCode) : Nat :=
  c.pad.toNat * 2 ^ 15 + c.letters[0].val * 2 ^ 10 + c.letters[1].val * 2 ^ 5 + c.letters[2].val

theorem packed_lt (c : LanguageCode) : c.packed < 2 ^ 16 := by
  have hpad := c.pad.toNat_le
  have h0 := c.letters[0].isLt
  have h1 := c.letters[1].isLt
  have h2 := c.letters[2].isLt
  unfold packed
  omega

theorem unpackLanguage_packed (c : LanguageCode) :
    MediaHeader.unpackLanguage (UInt16.ofNat c.packed) = c.text := by
  match c with
  | ⟨pad, ⟨⟨[a, b, c]⟩, hthree⟩⟩ =>
    have hpacked := packed_lt ⟨pad, ⟨⟨[a, b, c]⟩, hthree⟩⟩
    have hsum : packed ⟨pad, ⟨⟨[a, b, c]⟩, hthree⟩⟩ =
      pad.toNat * 2 ^ 15 + a.val * 2 ^ 10 + b.val * 2 ^ 5 + c.val := rfl
    have ha : packed ⟨pad, ⟨⟨[a, b, c]⟩, hthree⟩⟩ >>> 10 % 32 = a.val := by
      rw [Nat.shiftRight_eq_div_pow]
      omega
    have hb : packed ⟨pad, ⟨⟨[a, b, c]⟩, hthree⟩⟩ >>> 5 % 32 = b.val := by
      rw [Nat.shiftRight_eq_div_pow]
      omega
    have hc : packed ⟨pad, ⟨⟨[a, b, c]⟩, hthree⟩⟩ >>> 0 % 32 = c.val := by
      rw [Nat.shiftRight_eq_div_pow]
      omega
    rw [MediaHeader.unpackLanguage, UInt16.toNat_ofNat_of_lt' hpacked, List.map_cons, List.map_cons,
      List.map_cons, List.map_nil, ha, hb, hc]
    rfl

end LanguageCode

namespace MediaHeader

def bytes (code : LanguageCode) (h : MediaHeader) : List UInt8 :=
  [h.full.bytes, timeBytes h.full h.creationTime, timeBytes h.full h.modificationTime,
    numberBytes 4 h.timescale.toNat, timeBytes h.full h.duration,
    numberBytes 2 code.packed].flatten

def inVersion (h : MediaHeader) (version : UInt8) : MediaHeader :=
  { h with full := h.full.inVersion version }

/-- The times of the header fit in four bytes. -/
def Narrow (h : MediaHeader) : Prop := NarrowTimes h.creationTime h.modificationTime h.duration

theorem reads_bytes {code : LanguageCode} {h : MediaHeader} (hflags : h.full.flags.toNat < 2 ^ 24)
    (hlanguage : h.language = code.text) (hfits : h.full.version = 1 ∨ h.Narrow) :
    Decode.Reads fields (h.bytes code) h := by
  have hpacked : Decode.Reads Decode.u16 (numberBytes 2 code.packed) (UInt16.ofNat code.packed) := by
    have hread := Decode.reads_halfWord (UInt16.ofNat code.packed)
    rwa [UInt16.toNat_ofNat_of_lt' code.packed_lt] at hread
  have hlast : Decode.Reads
      (pure { h with language := unpackLanguage (UInt16.ofNat code.packed) }) [] h := by
    rw [code.unpackLanguage_packed, ← hlanguage]
    exact .pure h
  exact (Decode.reads_fullHead hflags).bind
    ((Decode.reads_timeBytes (hfits.imp_right NarrowTimes.creation)).bind
    ((Decode.reads_timeBytes (hfits.imp_right NarrowTimes.modification)).bind
    ((Decode.reads_u32 h.timescale).bind
    ((Decode.reads_timeBytes (hfits.imp_right NarrowTimes.duration)).bind (hpacked.bind hlast)))))

theorem readsAlike {code : LanguageCode} {h : MediaHeader} (hflags : h.full.flags.toNat < 2 ^ 24)
    (hlanguage : h.language = code.text) :
    ReadsAlike ofPayload (bytes code) h.inVersion h.Narrow :=
  .of_reads fun version hfits => reads_bytes (h := h.inVersion version) hflags hlanguage hfits

theorem ofPayload_error_iff {payload : List UInt8} :
    (∃ e, ofPayload payload = .error e) ↔
      payload.length < Decode.widthByVersion payload 34 22 := by
  refine Decode.parse_fullBox_error_iff (fun full => (Decode.exact_time full).bind fun _ =>
    (Decode.exact_time full).bind fun _ => Decode.exact_u32.bind fun _ =>
    (Decode.exact_time full).bind fun _ => Decode.exact_u16.bind fun _ => Decode.exact_pure _)
    fun full => ?_
  unfold timeWidth
  split <;> rfl

end MediaHeader

/-! ### Edit lists -/

namespace EditList

def editBytes (full : VersionFlags) (e : Edit) : List UInt8 :=
  [timeBytes full e.segmentDuration, mediaTimeBytes full e.mediaTime,
    numberBytes 2 e.rateInteger.toUInt16.toNat, numberBytes 2 e.rateFraction.toUInt16.toNat].flatten

def bytes (l : EditList) : List UInt8 := Decode.tableBytes l.full.bytes (editBytes l.full) l.edits

def inVersion (l : EditList) (version : UInt8) : EditList :=
  { l with full := l.full.inVersion version }

/-- The edits can be counted with four bytes. -/
structure Writable (l : EditList) : Prop where
  flags : l.full.flags.toNat < 2 ^ 24
  count : l.edits.length < 2 ^ 32

/-- A piece has times that fit in four bytes; the one in the media may be negative. -/
structure NarrowEdit (e : Edit) : Prop where
  segmentDuration : e.segmentDuration.toNat < 2 ^ 32
  mediaTime : -2 ^ 31 ≤ e.mediaTime.toInt ∧ e.mediaTime.toInt < 2 ^ 31

def Narrow (l : EditList) : Prop := ∀ e ∈ l.edits, NarrowEdit e

/-- What is read behind the number of edits. -/
def counted (full : VersionFlags) (count : Nat) : Decode EditList := do
  if (← Decode.left) / rowWidth full < count then Decode.refuse (.invalidData (.editCount count))
  return ⟨full, ← Decode.rows count (row full)⟩

theorem fields_eq : fields = Decode.versionFlags >>= fun full =>
    Decode.u32 >>= fun count => counted full count.toNat := rfl

theorem row_eq (full : VersionFlags) : row full = Decode.time full >>= fun segmentDuration =>
    Decode.mediaTime full >>= fun mediaTime => Decode.i16 >>= fun rateInteger =>
    Decode.i16 >>= fun rateFraction =>
    pure ⟨segmentDuration, mediaTime, rateInteger, rateFraction⟩ := by
  unfold row Decode.mediaTime
  split <;> rfl

theorem rowWidth_pos (full : VersionFlags) : 0 < rowWidth full := by
  unfold rowWidth
  split <;> decide

/-- The rows are only read if all of them are there. -/
theorem counted_apply (full : VersionFlags) (count : Nat) (bs : List UInt8) (pos : Nat) :
    counted full count ⟨bs, pos⟩ =
      if count * rowWidth full ≤ bs.length then
        (EditList.mk full <$> Decode.rows count (row full)) ⟨bs, pos⟩
      else .error (.invalidData (.editCount count)) := by
  have hroom := Nat.div_lt_iff_lt_mul (x := bs.length) (y := count) (rowWidth_pos full)
  show (if bs.length / rowWidth full < count then _ else _ : Decode EditList) ⟨bs, pos⟩ = _
  split
  · rw [if_neg (Nat.not_le.2 (hroom.1 ‹_›))]
    rfl
  · rw [if_pos (Nat.le_of_not_lt (mt hroom.2 ‹_›))]
    rfl

theorem exact_row (full : VersionFlags) : Decode.Exact (row full) (rowWidth full) := by
  have hwidth : rowWidth full = timeWidth full + (timeWidth full + (2 + (2 + 0))) := by
    unfold rowWidth timeWidth
    split <;> rfl
  rw [hwidth, row_eq]
  exact (Decode.exact_time full).bind fun _ => (Decode.exact_mediaTime full).bind fun _ =>
    Decode.exact_i16.bind fun _ => Decode.exact_i16.bind fun _ => Decode.exact_pure _

theorem exact_counted (full : VersionFlags) (count : Nat) :
    Decode.Exact (counted full count) (count * rowWidth full) := by
  have hrows := (Decode.exact_rows (exact_row full) count).map (EditList.mk full)
  constructor
  · intro bs pos hroom
    rw [counted_apply, if_pos hroom]
    exact hrows.takes bs pos hroom
  · intro bs pos hshort
    rw [counted_apply, if_neg (Nat.not_le.2 hshort)]
    exact ⟨_, rfl⟩

theorem reads_editBytes {full : VersionFlags} {e : Edit} (h : full.version = 1 ∨ NarrowEdit e) :
    Decode.Reads (row full) (editBytes full e) e := by
  rw [row_eq]
  exact (Decode.reads_timeBytes (h.imp_right NarrowEdit.segmentDuration)).bind
    ((Decode.reads_mediaTimeBytes (h.imp_right NarrowEdit.mediaTime)).bind
    ((Decode.reads_i16Bytes e.rateInteger).bind ((Decode.reads_i16Bytes e.rateFraction).bind
    (.pure e))))

theorem length_editBytes (full : VersionFlags) (e : Edit) :
    (editBytes full e).length = rowWidth full := by
  simp only [editBytes, timeBytes, mediaTimeBytes, List.length_flatten, List.map_cons, List.map_nil,
    length_numberBytes, timeWidth, rowWidth]
  split <;> rfl

theorem reads_bytes {l : EditList} (hwritable : l.Writable) (hfits : l.full.version = 1 ∨ l.Narrow) :
    Decode.Reads fields l.bytes l := by
  have hrows : Decode.Reads (EditList.mk l.full <$> Decode.rows l.edits.length (row l.full))
      (l.edits.flatMap (editBytes l.full)) l :=
    (Decode.reads_rows fun e he => reads_editBytes (hfits.imp_right fun h => h e he)).map _
  -- The edits that are announced are there, so that the check of their number is passed.
  have hcounted : Decode.Reads (counted l.full (UInt32.ofNat l.edits.length).toNat)
      (l.edits.flatMap (editBytes l.full)) l := by
    intro rest pos
    have hroom : l.edits.length * rowWidth l.full ≤
        (l.edits.flatMap (editBytes l.full) ++ rest).length := by
      rw [List.length_append, Decode.length_flatMap_rows (length_editBytes l.full)]
      omega
    rw [UInt32.toNat_ofNat_of_lt' hwritable.count, counted_apply, if_pos hroom]
    exact hrows rest pos
  rw [fields_eq]
  exact (Decode.reads_fullHead hwritable.flags).bind
    ((Decode.reads_count hwritable.count).bind hcounted.last)

theorem readsAlike {l : EditList} (hwritable : l.Writable) :
    ReadsAlike ofPayload bytes l.inVersion l.Narrow :=
  .of_reads fun version hfits =>
    reads_bytes (l := l.inVersion version) ⟨hwritable.1, hwritable.2⟩ hfits

theorem ofPayload_error_iff {payload : List UInt8} :
    (∃ e, ofPayload payload = .error e) ↔
      payload.length < 8 + (wordAt payload 4).toNat * Decode.widthByVersion payload 20 12 := by
  show (∃ e, Decode.parse _ payload = .error e) ↔ _
  by_cases hhead : 8 ≤ payload.length
  · obtain ⟨full, rest, hflags, rfl⟩ := VersionFlags.exists_bytes (show 4 ≤ payload.length by omega)
    rw [List.length_append, VersionFlags.length_bytes] at hhead ⊢
    have hcount : wordAt (full.bytes ++ rest) 4 = UInt32.ofNat (bigEndian (rest.take 4)) := by
      rw [wordAt, bytesAt, List.drop_left' full.length_bytes]
    rw [Decode.parse_error_iff, fields_eq,
      Decode.bind_of_eq_ok (Decode.reads_fullHead hflags rest 0), Decode.u32_eq, Decode.bind_field,
      if_pos (by omega), (exact_counted full _).error_iff, hcount, Decode.widthByVersion_bytes,
      List.length_drop]
    show _ < _ * rowWidth full ↔ _ < 8 + _ * rowWidth full
    omega
  · have hneeds : Decode.Needs fields 8 := by
      rw [fields_eq, Decode.u32_eq]
      exact Decode.needs_fullBox fun _ => .field (fun _ => Decode.needs_zero _) _ 4
    exact iff_of_true (hneeds.parse (Nat.lt_of_not_le hhead)) (by omega)

end EditList

/-! ### All of them -/

/-- **Headers and edit lists say the same in both versions, and are refused exactly if they are cut
short.**  Whatever a header holds is read back from the layout of version 1, and from that of version 0
if its times fit in four bytes, whatever stands in the gaps and behind the last field; a width and a
height of a track are whole parts, and a language is its three letters.  An edit list is cut short if the
edits that it announces are not all there. -/
theorem headers_read_alike :
    (∀ (gaps : MovieHeader.Gaps) (h : MovieHeader), h.full.flags.toNat < 2 ^ 24 →
      ReadsAlike MovieHeader.ofPayload (MovieHeader.bytes gaps) h.inVersion h.Narrow) ∧
    (∀ (gaps : TrackHeader.Gaps) (h : TrackHeader), h.Writable →
      ReadsAlike TrackHeader.ofPayload (TrackHeader.bytes gaps) h.inVersion h.Narrow) ∧
    (∀ (code : LanguageCode) (h : MediaHeader), h.full.flags.toNat < 2 ^ 24 →
      h.language = code.text →
      ReadsAlike MediaHeader.ofPayload (MediaHeader.bytes code) h.inVersion h.Narrow) ∧
    (∀ l : EditList, l.Writable →
      ReadsAlike EditList.ofPayload EditList.bytes l.inVersion l.Narrow) ∧
    ∀ payload,
      ((∃ e, MovieHeader.ofPayload payload = .error e) ↔
        payload.length < Decode.widthByVersion payload 112 100) ∧
      ((∃ e, TrackHeader.ofPayload payload = .error e) ↔
        payload.length < Decode.widthByVersion payload 96 84) ∧
      ((∃ e, MediaHeader.ofPayload payload = .error e) ↔
        payload.length < Decode.widthByVersion payload 34 22) ∧
      ((∃ e, EditList.ofPayload payload = .error e) ↔
        payload.length < 8 + (wordAt payload 4).toNat * Decode.widthByVersion payload 20 12) :=
  ⟨fun gaps _ hflags => MovieHeader.readsAlike gaps hflags,
    fun gaps _ hwritable => TrackHeader.readsAlike gaps hwritable,
    fun _ _ hflags hlanguage => MediaHeader.readsAlike hflags hlanguage,
    fun _ hwritable => EditList.readsAlike hwritable,
    fun _ => ⟨MovieHeader.ofPayload_error_iff, TrackHeader.ofPayload_error_iff,
      MediaHeader.ofPayload_error_iff, EditList.ofPayload_error_iff⟩⟩

/-! A track of a movie with a header in each of the boxes, which starts half a second late. -/

def upright : Matrix := #v[0x10000, 0, 0, 0, 0x10000, 0, 0, 0, 0x40000000]

def lateMovie : MovieHeader where
  full := ⟨0, 0⟩
  creationTime := 3600
  modificationTime := 7200
  timescale := 600
  duration := 6300
  rate := 0x10000
  volume := 0x100
  matrix := upright
  nextTrackId := 2

def lateTrack : TrackHeader where
  full := ⟨0, 3⟩
  creationTime := 3600
  modificationTime := 7200
  trackId := 1
  duration := 6300
  layer := -1
  alternateGroup := 0
  volume := 0
  matrix := upright
  width := 1920
  height := 1080

def lateMedia : MediaHeader where
  full := ⟨0, 0⟩
  creationTime := 3600
  modificationTime := 7200
  timescale := 90000
  duration := 900000
  language := "und"

/-- An empty piece, and all of the media behind it. -/
def lateEdits : EditList := ⟨⟨0, 0⟩, [⟨300, -1, 1, 0⟩, ⟨6000, 1024, 1, 0⟩]⟩

def movieGaps : MovieHeader.Gaps := ⟨.replicate 10 0, .replicate 24 0⟩

def trackGaps : TrackHeader.Gaps := ⟨.replicate 4 0, .replicate 8 0, .replicate 2 0, 0x8000, 0⟩

def undetermined : LanguageCode :=
  ⟨false, #v[⟨21, by decide⟩, ⟨14, by decide⟩, ⟨4, by decide⟩]⟩

theorem lateHeaders_read_alike :
    MovieHeader.ofPayload (lateMovie.bytes movieGaps) = .ok lateMovie ∧
    TrackHeader.ofPayload (lateTrack.bytes trackGaps) = .ok lateTrack ∧
    MediaHeader.ofPayload (lateMedia.bytes undetermined ++ [0, 0]) = .ok lateMedia ∧
    EditList.ofPayload ([0, 0, 0, 0, 0, 0, 0, 2, 0, 0, 1, 0x2C, 0xFF, 0xFF, 0xFF, 0xFF, 0, 1, 0, 0] ++
      [0, 0, 0x17, 0x70, 0, 0, 4, 0, 0, 1, 0, 0]) = .ok lateEdits ∧
    EditList.ofPayload ([1, 0, 0, 0, 0, 0, 0, 2, 0, 0, 0, 0, 0, 0, 1, 0x2C] ++
      [0xFF, 0xFF, 0xFF, 0xFF, 0xFF, 0xFF, 0xFF, 0xFF, 0, 1, 0, 0] ++
      [0, 0, 0, 0, 0, 0, 0x17, 0x70, 0, 0, 0, 0, 0, 0, 4, 0, 0, 1, 0, 0]) =
        .ok (lateEdits.inVersion 1) ∧
    ∃ e, EditList.ofPayload [1, 0, 0, 0, 0, 0, 0, 1, 0, 0, 0, 0] = .error e := by
  obtain ⟨hmovie, htrack, hmedia, hedits, hrefused⟩ := headers_read_alike
  have hnarrow : ∀ e ∈ lateEdits.edits, EditList.NarrowEdit e := by
    intro e he
    rcases List.mem_pair.1 he with rfl | rfl
    · exact ⟨by decide, by decide⟩
    · exact ⟨by decide, by decide⟩
  have hmovie := (hmovie movieGaps lateMovie (by decide) []).2 ⟨by decide, by decide, by decide⟩
  have htrack := (htrack trackGaps lateTrack ⟨by decide, by decide, by decide⟩ []).2
    ⟨by decide, by decide, by decide⟩
  have hmedia := (hmedia undetermined lateMedia (by decide) (by decide) [0, 0]).2
    ⟨by decide, by decide, by decide⟩
  have hedits := hedits lateEdits ⟨by decide, by decide⟩ []
  rw [List.append_nil] at hmovie htrack
  exact ⟨hmovie, htrack, hmedia, hedits.2 hnarrow, hedits.1, (hrefused _).2.2.2.2 (by decide)⟩

end IsoMedia
