import IsoMedia.Box.TrackHeader
import IsoMedia.Box.Media
import IsoMedia.Proofs.Machine.Reader

/-!
# Headers on a machine

The boxes that speak of a file, of a movie or of a track as a whole.  Beside their fields, what is
computed are the letters of a language code, the ends of texts, and the place of a location behind a
name, which is counted by the bytes of the decoded name.
-/

namespace IsoMedia.Machine

/-! ### File type, movie header and track header -/

def fileType : Scan FileType := do
  let major ← Scan.fourCc
  let minor ← Scan.u32
  let brands ← Scan.rows Scan.fourCc (← div (← Scan.left) 4)
  return ⟨major, minor, brands⟩

def time (f : VersionFlags) : Scan UInt64 :=
  if f.version = 1 then Scan.u64 else UInt32.toUInt64 <$> Scan.u32

def matrixRow : Scan (Vector Int32 3) := do
  return #v[← Scan.i32, ← Scan.i32, ← Scan.i32]

def matrix : Scan Matrix := do
  return (← matrixRow) ++ (← matrixRow) ++ (← matrixRow)

def movieHeader : Scan MovieHeader := do
  let full ← Scan.versionFlags
  let creationTime ← time full
  let modificationTime ← time full
  let timescale ← Scan.u32
  let duration ← time full
  let rate ← Scan.i32
  let volume ← Scan.i16
  Scan.skip 10
  let matrix ← matrix
  Scan.skip 24
  let nextTrackId ← Scan.u32
  return { full, creationTime, modificationTime, timescale, duration, rate, volume, matrix,
           nextTrackId }

/-- The whole part of a number with 16 bits behind the point. -/
def wholePart (n : UInt32) : Machine UInt32 := do
  return UInt32.ofNat (← shiftRight 32 n.toNat 16)

def trackHeader : Scan TrackHeader := do
  let full ← Scan.versionFlags
  let creationTime ← time full
  let modificationTime ← time full
  let trackId ← Scan.u32
  Scan.skip 4
  let duration ← time full
  Scan.skip 8
  let layer ← Scan.i16
  let alternateGroup ← Scan.i16
  let volume ← Scan.i16
  Scan.skip 2
  let matrix ← matrix
  let width ← wholePart (← Scan.u32)
  let height ← wholePart (← Scan.u32)
  return { full, creationTime, modificationTime, trackId, duration, layer, alternateGroup, volume,
           matrix, width, height }

theorem follows_fileType : Follows fileType FileType.fields :=
  follows_fourCc.bind fun _ => follows_u32.bind fun _ => follows_left.bind fun left =>
    .step (div_eq (by decide)) ((follows_rows follows_fourCc (left / 4)).bind fun _ => .pure _)

theorem follows_time (f : VersionFlags) : Follows (time f) (Decode.time f) :=
  .ite (fun _ => follows_u64) fun _ => follows_u32.map _

theorem follows_matrix : Follows matrix Decode.matrix := by
  simp only [matrix, matrixRow, bind_assoc, pure_bind]
  exact follows_i32.bind fun _ => follows_i32.bind fun _ => follows_i32.bind fun _ =>
    follows_i32.bind fun _ => follows_i32.bind fun _ => follows_i32.bind fun _ =>
      follows_i32.bind fun _ => follows_i32.bind fun _ => follows_i32.bind fun _ => .pure _

theorem follows_movieHeader : Follows movieHeader MovieHeader.fields :=
  follows_versionFlags.bind fun full =>
    (follows_time full).bind fun _ => (follows_time full).bind fun _ =>
      follows_u32.bind fun _ => (follows_time full).bind fun _ =>
        follows_i32.bind fun _ => follows_i16.bind fun _ => (follows_skip 10).bind fun _ =>
          follows_matrix.bind fun _ => (follows_skip 24).bind fun _ => follows_u32.bind fun _ =>
            .pure _

theorem wholePart_eq (n : UInt32) : wholePart n = pure (n >>> 16) := by
  have hvalue : UInt32.ofNat (n.toNat / 2 ^ 16) = n >>> 16 := by
    apply UInt32.toNat_inj.1
    have := n.toNat_lt
    simp [Nat.shiftRight_eq_div_pow]
    omega
  rw [wholePart, shiftRight_eq (by decide), pure_bind, hvalue]

theorem follows_trackHeader : Follows trackHeader TrackHeader.fields :=
  follows_versionFlags.bind fun full =>
    (follows_time full).bind fun _ => (follows_time full).bind fun _ =>
      follows_u32.bind fun _ => (follows_skip 4).bind fun _ => (follows_time full).bind fun _ =>
        (follows_skip 8).bind fun _ => follows_i16.bind fun _ => follows_i16.bind fun _ =>
          follows_i16.bind fun _ => (follows_skip 2).bind fun _ => follows_matrix.bind fun _ =>
            follows_u32.bind fun width => .step (wholePart_eq width) <|
              follows_u32.bind fun height => .step (wholePart_eq height) (.pure _)

/-! ### Edit lists -/

def editRow (f : VersionFlags) : Scan Edit := do
  let segmentDuration ← time f
  let mediaTime ← if f.version = 1 then Scan.i64 else Int32.toInt64 <$> Scan.i32
  let rateInteger ← Scan.i16
  let rateFraction ← Scan.i16
  return ⟨segmentDuration, mediaTime, rateInteger, rateFraction⟩

def editList : Scan EditList := do
  let full ← Scan.versionFlags
  let count := (← Scan.u32).toNat
  if (← div (← Scan.left) (EditList.rowWidth full)) < count then
    throw (.invalidData (.editCount count))
  else return ⟨full, ← Scan.rows (editRow full) count⟩

theorem follows_editRow (f : VersionFlags) : Follows (editRow f) (EditList.row f) := by
  refine (follows_time f).bind fun _ => .ite (fun _ => follows_i64.bind fun _ => ?_)
    fun _ => (follows_i32.map _).bind fun _ => ?_ <;>
  exact follows_i16.bind fun _ => follows_i16.bind fun _ => .pure _

theorem follows_editList : Follows editList EditList.fields := by
  refine follows_versionFlags.bind fun full => follows_u32.bind fun count =>
    follows_left.bind fun left => .step (div_eq ?_) ?_
  · unfold EditList.rowWidth
    split <;> decide
  · refine .ite (fun _ => .throw_bind _ _) fun _ => ?_
    exact (follows_rows (follows_editRow full) count.toNat).bind fun _ => .pure _

/-! ### Texts -/

/-- The text up to the first zero byte, or to the end. -/
def cString (bs : List UInt8) : Machine String := do
  return Utf8.text (← slice bs 0 (bs.findIdx (· = 0)))

theorem cString_eq (bs : List UInt8) : cString bs = pure (Utf8.textUntilZero bs) := by
  have htake : bs.take (bs.findIdx (· = 0)) = Utf8.untilZero bs := by
    rw [Utf8.untilZero, List.takeWhile_eq_take_findIdx_not]
    simp
  rw [cString, slice_from_start List.findIdx_le_length, pure_bind, htake]
  rfl

/-! ### Media header and handler -/

/-- One letter of a packed language code: five bits, counted from the character before `a`. -/
def letter (packed : UInt16) (shift : Nat) : Machine Char := do
  let bits ← shiftRight 16 packed.toNat shift
  return Char.ofNat (← add 8 (bits % 32) 0x60)

def language (packed : UInt16) : Machine String := do
  return String.ofList [← letter packed 10, ← letter packed 5, ← letter packed 0]

theorem letter_eq (packed : UInt16) {shift : Nat} (h : shift < 16) :
    letter packed shift = pure (Char.ofNat ((packed.toNat >>> shift) % 32 + 0x60)) := by
  rw [letter, shiftRight_eq h, pure_bind, add_eq (by omega), pure_bind, Nat.shiftRight_eq_div_pow]

theorem language_eq (packed : UInt16) :
    language packed = pure (MediaHeader.unpackLanguage packed) := by
  rw [language, letter_eq packed (by decide), letter_eq packed (by decide),
    letter_eq packed (by decide)]
  rfl

def mediaHeader : Scan MediaHeader := do
  let full ← Scan.versionFlags
  let creationTime ← time full
  let modificationTime ← time full
  let timescale ← Scan.u32
  let duration ← time full
  let language ← language (← Scan.u16)
  return { full, creationTime, modificationTime, timescale, duration, language }

theorem follows_mediaHeader : Follows mediaHeader MediaHeader.fields :=
  follows_versionFlags.bind fun full =>
    (follows_time full).bind fun _ => (follows_time full).bind fun _ =>
      follows_u32.bind fun _ => (follows_time full).bind fun _ =>
        follows_u16.bind fun packed => .step (language_eq packed) (.pure _)

/-- A name is counted or ends with a zero byte.  A name is only counted where there is a first
byte. -/
def handlerName (component : FourCc) (bs : List UInt8) : Machine String := do
  match bs.head? with
  | none => cString bs
  | some n =>
    if component ≠ .zero then
      if n.toNat = (← sub bs.length 1) then return Utf8.text (← slice bs 1 bs.length)
      else cString bs
    else cString bs

theorem handlerName_eq (component : FourCc) (bs : List UInt8) :
    handlerName component bs = pure (Handler.nameOf component bs) := by
  cases bs with
  | nil =>
    have hnone : Utf8.textUntilZero [] = "" := by
      simp [Utf8.textUntilZero, Utf8.untilZero, Utf8.text, Utf8.decode]
    show cString [] = pure ""
    rw [cString_eq, hnone]
  | cons n bs =>
    rw [handlerName, Handler.nameOf]
    dsimp only [List.head?_cons]
    have hcount : sub (bs.length + 1) 1 = pure bs.length := sub_eq (Nat.le_add_left _ _)
    rw [List.length_cons, hcount, pure_bind, cString_eq]
    by_cases hcomponent : component ≠ .zero
    · rw [if_pos hcomponent]
      split
      · rename_i hcount
        rw [if_pos ⟨hcomponent, hcount⟩, ← List.length_cons (a := n),
          slice_to_end (by simp), pure_bind]
        rfl
      · rename_i hcount
        rw [if_neg fun h => hcount h.2]
    · rw [if_neg hcomponent, if_neg fun h => hcomponent h.1]

def handler : Scan Handler := do
  let full ← Scan.versionFlags
  let component ← Scan.fourCc
  let handlerType ← Scan.fourCc
  Scan.skip 12
  return ⟨full, component, handlerType, ← handlerName component (← Scan.rest)⟩

theorem follows_handler : Follows handler Handler.fields :=
  follows_versionFlags.bind fun _ => follows_fourCc.bind fun component =>
    follows_fourCc.bind fun _ => (follows_skip 12).bind fun _ => .rest fun bs _ =>
      .step (handlerName_eq component bs) (.pure _)

def infoHeader (kind : BoxKind) : Scan InfoHeader := do
  let _ ← Scan.versionFlags
  match kind with
  | .vmhd => return .video (← Scan.u16) (← Scan.u16) (← Scan.u16) (← Scan.u16)
  | .smhd => return .sound (← Scan.i16)
  | .hmhd => return .hint (← Scan.u16) (← Scan.u16) (← Scan.u32) (← Scan.u32)
  | .sthd => return .subtitle
  | _ => return .null

theorem follows_infoHeader (kind : BoxKind) : Follows (infoHeader kind) (InfoHeader.fields kind) := by
  refine follows_versionFlags.bind fun _ => ?_
  cases kind with
  | vmhd =>
    exact follows_u16.bind fun _ => follows_u16.bind fun _ => follows_u16.bind fun _ =>
      follows_u16.bind fun _ => .pure _
  | smhd => exact follows_i16.bind fun _ => .pure _
  | hmhd =>
    exact follows_u16.bind fun _ => follows_u16.bind fun _ => follows_u32.bind fun _ =>
      follows_u32.bind fun _ => .pure _
  | _ => exact .pure _

/-! ### Data references -/

/-- A name and, behind it, perhaps a location. -/
def namedEntry (full : VersionFlags) (bs : List UInt8) : Machine DataEntry := do
  let name ← cString bs
  let after := bs.drop (← add 64 name.utf8ByteSize 1)
  if after = [] then return ⟨full, some name, none⟩
  else return ⟨full, some name, some (← cString after)⟩

/-- A location, unless the flags or the length say that there is none. -/
def plainEntry (full : VersionFlags) (bs : List UInt8) : Machine DataEntry := do
  if full.lowBit ∨ bs = [] then return ⟨full, none, none⟩
  else return ⟨full, none, some (← cString bs)⟩

def dataEntry (kind : BoxKind) : Scan DataEntry := do
  let full ← Scan.versionFlags
  let bs ← Scan.rest
  match kind with
  | .urn => namedEntry full bs
  | _ => plainEntry full bs

theorem utf8Size_ofNat {b : UInt8} (h : b < 0x80) : (Char.ofNat b.toNat).utf8Size = 1 := by
  have hb : b.toNat < 128 := h
  have hvalid : b.toNat.isValidChar := .inl (by omega)
  rw [Char.utf8Size_eq_one_iff, Char.ofNat, dif_pos hvalid]
  show UInt32.ofNatLT b.toNat _ ≤ 127
  rw [UInt32.le_iff_toNat_le, UInt32.toNat_ofNatLT]
  exact Nat.le_of_lt_succ hb

/-- What a character takes the place of is at least a third of its size. -/
theorem utf8Size_follow_le (high : Nat) (least most : UInt8) (more : Nat) (bs : List UInt8) :
    (Utf8.follow high least most more bs).1.utf8Size +
      3 * (Utf8.follow high least most more bs).2.length ≤ 3 + 3 * bs.length := by
  induction bs generalizing high least most more with
  | nil =>
    rw [Utf8.follow]
    decide
  | cons b bs ih =>
    rw [Utf8.follow]
    split
    · cases more with
      | zero =>
        have := (Char.ofNat (high * 64 + b.toNat % 64)).utf8Size_le_four
        simp only [List.length_cons]
        omega
      | succ more =>
        have := ih (high * 64 + b.toNat % 64) 0x80 0xBF more
        simp only [List.length_cons]
        omega
    · have hsize : Utf8.replacement.utf8Size = 3 := by decide
      simp only [hsize, List.length_cons]
      omega

/-- A text is at most three times as long as the bytes it was decoded from. -/
theorem utf8ByteSize_text_le (bs : List UInt8) : (Utf8.text bs).utf8ByteSize ≤ 3 * bs.length := by
  unfold Utf8.text
  fun_induction Utf8.decode bs with
  | case1 => simp
  | case2 b bs hb ih =>
    rw [String.ofList_cons, String.utf8ByteSize_append, String.utf8ByteSize_singleton,
      utf8Size_ofNat hb, List.length_cons]
    omega
  | case3 b bs hb hlead ih =>
    have hsize : Utf8.replacement.utf8Size = 3 := by decide
    rw [String.ofList_cons, String.utf8ByteSize_append, String.utf8ByteSize_singleton, hsize,
      List.length_cons]
    omega
  | case4 b bs hb l hlead r ih =>
    have hsize : r.1.utf8Size + 3 * r.2.length ≤ 3 + 3 * bs.length :=
      utf8Size_follow_le l.high l.least l.most l.more bs
    rw [String.ofList_cons, String.utf8ByteSize_append, String.utf8ByteSize_singleton,
      List.length_cons]
    omega

theorem namedEntry_eq (full : VersionFlags) {bs : List UInt8} (hbs : Addressable bs) :
    namedEntry full bs = pure (DataEntry.namedFields full bs) := by
  have hname : (Utf8.textUntilZero bs).utf8ByteSize + 1 < 2 ^ 64 := by
    have htext : (Utf8.textUntilZero bs).utf8ByteSize ≤ 3 * (Utf8.untilZero bs).length :=
      utf8ByteSize_text_le _
    have hle : (Utf8.untilZero bs).length ≤ bs.length := (List.takeWhile_sublist _).length_le
    unfold Addressable at hbs
    omega
  rw [namedEntry, cString_eq, pure_bind, add_eq hname, pure_bind, DataEntry.namedFields]
  split
  · rename_i hafter
    rw [if_pos hafter]
  · rename_i hafter
    rw [if_neg hafter, cString_eq]
    rfl

theorem plainEntry_eq (full : VersionFlags) (bs : List UInt8) :
    plainEntry full bs = pure (DataEntry.plainFields full bs) := by
  rw [plainEntry, DataEntry.plainFields, cString_eq]
  split <;> rfl

theorem follows_dataEntry (kind : BoxKind) : Follows (dataEntry kind) (DataEntry.fields kind) := by
  refine follows_versionFlags.bind fun full => .rest fun bs hbs => ?_
  cases kind with
  | urn => exact .last (namedEntry_eq full hbs)
  | _ => exact .last (plainEntry_eq full bs)

end IsoMedia.Machine
