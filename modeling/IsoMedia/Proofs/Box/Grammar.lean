import IsoMedia.Proofs.Box.Frames

/-!
# The grammar of boxes

A box may be written with a size of four bytes, with a size of eight bytes, or, at the end of a file,
without a size; inside another box fewer than eight zero bytes may follow the last one.  `Spelled`
says which boxes, in which of these ways, may follow one another, and `FaultAt` what may stand where
no box does.

* `Frame.next?_eq_some_iff`, `Frame.next?_eq_none_iff`, `Frame.next?_eq_error_iff` : a box is cut off
  exactly where one is written, nothing where the bytes end, and there is a fault everywhere else.
* `Frame.exists_splits` : the boxes that are cut out are those that are written, up to the end or to
  the first fault.
-/

namespace IsoMedia

/-- How the size of a box is written. -/
inductive SizeForm where
  /-- With four bytes. -/
  | narrow
  /-- With eight bytes behind the type code, announced by a size of 1. -/
  | wide
  /-- Not at all: the size 0 says that the box reaches to the end of the file. -/
  | toEnd
deriving DecidableEq

/-- A box with the way in which its size is written. -/
structure WrittenBox where
  type : FourCc
  form : SizeForm
  payload : List UInt8

namespace WrittenBox

/-- The size of what precedes the payload. -/
def headerLength (b : WrittenBox) : Nat :=
  match b.form with
  | .narrow | .toEnd => 8
  | .wide => 16

/-- The size of the whole box. -/
def size (b : WrittenBox) : Nat := b.headerLength + b.payload.length

/-- The number in the first four bytes. -/
def announced (b : WrittenBox) : Nat :=
  match b.form with
  | .narrow => b.size
  | .wide => 1
  | .toEnd => 0

/-- What stands between the type code and the payload. -/
def wideSize (b : WrittenBox) : List UInt8 :=
  match b.form with
  | .narrow | .toEnd => []
  | .wide => numberBytes 8 b.size

/-- The bytes of the box. -/
def bytes (b : WrittenBox) : List UInt8 :=
  numberBytes 4 b.announced ++ (b.type.bytes ++ (b.wideSize ++ b.payload))

/-- The size can be written in the box's way. -/
def Fits (b : WrittenBox) : Prop :=
  match b.form with
  | .narrow => b.size < 2 ^ 32
  | .wide => b.size < 2 ^ 64
  | .toEnd => True

/-- The box as it is cut out of the bytes around it. -/
def frame (b : WrittenBox) (offset : Nat) : Frame :=
  ⟨b.type, offset, b.size, b.headerLength, b.payload⟩

/-- The bytes of boxes that follow one another. -/
def allBytes (boxes : List WrittenBox) : List UInt8 := boxes.flatMap bytes

/-- Boxes that follow one another, as they are cut out. -/
def frames : Nat → List WrittenBox → List Frame
  | _, [] => []
  | offset, b :: boxes => b.frame offset :: frames (offset + b.size) boxes

@[simp] theorem type_frame (b : WrittenBox) (offset : Nat) : (b.frame offset).type = b.type := rfl

@[simp] theorem payload_frame (b : WrittenBox) (offset : Nat) :
    (b.frame offset).payload = b.payload := rfl

@[simp] theorem length_wideSize (b : WrittenBox) : 8 + b.wideSize.length = b.headerLength := by
  unfold wideSize headerLength
  cases b.form <;> simp

@[simp] theorem length_bytes (b : WrittenBox) : b.bytes.length = b.size := by
  have := b.length_wideSize
  simp only [bytes, List.length_append, length_numberBytes, FourCc.length_bytes, size]
  omega

theorem eight_le_headerLength (b : WrittenBox) : 8 ≤ b.headerLength := by
  have := b.length_wideSize
  omega

@[simp] theorem allBytes_nil : allBytes [] = [] := rfl

@[simp] theorem allBytes_cons (b : WrittenBox) (boxes : List WrittenBox) :
    allBytes (b :: boxes) = b.bytes ++ allBytes boxes := rfl

@[simp] theorem length_frames (offset : Nat) (boxes : List WrittenBox) :
    (frames offset boxes).length = boxes.length := by
  induction boxes generalizing offset with
  | nil => rfl
  | cons b boxes ih => simp [frames, ih]

end WrittenBox

/-- A box may be followed by the given bytes: one without a size only at the end of a file. -/
def WrittenBox.MayPrecede (b : WrittenBox) (scope : Scope) (rest : List UInt8) : Prop :=
  b.form = .toEnd → scope = .topLevel ∧ rest = []

/-- What may follow the last box: nothing, or inside another box fewer than eight zero bytes. -/
def Filler (scope : Scope) (bs : List UInt8) : Prop :=
  bs = [] ∨ scope = .nested ∧ bs.length < 8 ∧ ∀ b ∈ bs, b = 0

/-- The boxes can be written, and may be followed by one another and by the given bytes. -/
def Spelled (scope : Scope) : List WrittenBox → List UInt8 → Prop
  | [], _ => True
  | b :: boxes, rest =>
    b.Fits ∧ b.MayPrecede scope (WrittenBox.allBytes boxes ++ rest) ∧ Spelled scope boxes rest

/-- The bytes are written boxes, one after the other, and then the rest. -/
def Splits (scope : Scope) (bs : List UInt8) (boxes : List WrittenBox) (rest : List UInt8) : Prop :=
  bs = WrittenBox.allBytes boxes ++ rest ∧ Spelled scope boxes rest

/-- The size and the size of the header that a box declares which starts with the given bytes, if it
declares any. -/
def declared (bs : List UInt8) : Nat × Nat :=
  let size := bigEndian (bs.take 4)
  if size = 1 then (bigEndian ((bs.drop 8).take 8), 16) else (size, 8)

/-- Why neither a box nor the end is where the bytes start. -/
inductive FaultAt (scope : Scope) (bs : List UInt8) : Error → Prop
  /-- There are bytes left, but not enough for a header. -/
  | cutHeader (some : bs ≠ []) (few : bs.length < 8)
      (noFiller : scope = .nested → ∃ b ∈ bs, b ≠ 0) : FaultAt scope bs .needMoreData
  /-- A box inside another one declares no size. -/
  | openInside {type : FourCc} (enough : 8 ≤ bs.length) (inside : scope = .nested)
      (zero : bigEndian (bs.take 4) = 0) (typed : type.bytes = (bs.drop 4).take 4) :
      FaultAt scope bs (.invalidData (.openEndedInside type))
  /-- A size of eight bytes is announced, but they are not there. -/
  | cutWide (enough : 8 ≤ bs.length) (wide : bigEndian (bs.take 4) = 1) (few : bs.length < 16) :
      FaultAt scope bs .needMoreData
  /-- The declared size is less than that of the header. -/
  | tooSmall {type : FourCc} (enough : (declared bs).2 ≤ bs.length)
      (sized : bigEndian (bs.take 4) ≠ 0) (small : (declared bs).1 < (declared bs).2)
      (typed : type.bytes = (bs.drop 4).take 4) :
      FaultAt scope bs (.invalidData (.sizeBelowHeader type (declared bs).1 (declared bs).2))
  /-- The declared size reaches beyond the bytes. -/
  | tooLarge (enough : (declared bs).2 ≤ bs.length) (sized : bigEndian (bs.take 4) ≠ 0)
      (large : bs.length < (declared bs).1) : FaultAt scope bs .needMoreData

namespace Frame

variable {scope : Scope} {offset : Nat} {bs rest : List UInt8} {f : Frame}

section Header

variable {size : List UInt8} (h : size.length = 4) (scope : Scope) (offset : Nat) (type : FourCc)
  (body : List UInt8)

include h

theorem next?_header :
    next? scope offset (size ++ (type.bytes ++ body)) =
      match bigEndian size with
      | 0 =>
        match scope with
        | .nested => malformed (.openEndedInside type)
        | .topLevel => cut type offset (8 + body.length) 8 body
      | 1 =>
        if (body.take 8).length < 8 then .error .needMoreData
        else cut type offset (bigEndian (body.take 8)) 16 (body.drop 8)
      | size => cut type offset size 8 body := by
  match size, h with
  | [s0, s1, s2, s3], _ => rfl

theorem next?_zero (hsize : bigEndian size = 0) :
    next? scope offset (size ++ (type.bytes ++ body)) =
      match scope with
      | .nested => malformed (.openEndedInside type)
      | .topLevel => cut type offset (8 + body.length) 8 body := by
  rw [next?_header h, hsize]
  rfl

theorem next?_one (hsize : bigEndian size = 1) (hbody : 8 ≤ body.length) :
    next? scope offset (size ++ (type.bytes ++ body)) =
      cut type offset (bigEndian (body.take 8)) 16 (body.drop 8) := by
  rw [next?_header h, hsize]
  exact if_neg (by rw [List.length_take]; omega)

theorem next?_one_few (hsize : bigEndian size = 1) (hbody : body.length < 8) :
    next? scope offset (size ++ (type.bytes ++ body)) = .error .needMoreData := by
  rw [next?_header h, hsize]
  exact if_pos (by rw [List.length_take]; omega)

theorem next?_sized (hsize : 1 < bigEndian size) :
    next? scope offset (size ++ (type.bytes ++ body)) =
      cut type offset (bigEndian size) 8 body := by
  rw [next?_header h]
  split
  · omega
  · omega
  · rfl

end Header

theorem exists_header (h : 8 ≤ bs.length) :
    ∃ (size : List UInt8) (type : FourCc) (body : List UInt8), size.length = 4 ∧
      bs = size ++ (type.bytes ++ body) := by
  match bs, h with
  | s0 :: s1 :: s2 :: s3 :: t0 :: t1 :: t2 :: t3 :: body, _ =>
    exact ⟨[s0, s1, s2, s3], ⟨t0, t1, t2, t3⟩, body, rfl, rfl⟩

/-- What is done about fewer than eight bytes. -/
theorem next?_few (scope : Scope) (offset : Nat) (h : bs.length < 8) :
    next? scope offset bs =
      if bs = [] ∨ scope = .nested ∧ bs.all (· = 0) then .ok none else .error .needMoreData := by
  unfold next?
  split
  · rfl
  · simp only [List.length_cons] at h
    omega
  · rename_i hne _
    simp [show bs ≠ [] from hne]

theorem cut_eq (type : FourCc) (offset size headerLength : Nat) (body : List UInt8) :
    cut type offset size headerLength body =
      if size < headerLength then malformed (.sizeBelowHeader type size headerLength)
      else if body.length < size - headerLength then .error .needMoreData
      else .ok (some (⟨type, offset, size, headerLength, body.take (size - headerLength)⟩,
        body.drop (size - headerLength))) := by
  unfold cut
  dsimp only
  rw [List.length_take, Nat.min_def]
  congr 2
  rw [eq_iff_iff]
  split <;> omega

/-! ### What is written is cut off -/

/-- A written box is cut off, and what may follow it is left. -/
theorem next?_written {b : WrittenBox} (h : b.Fits) (hrest : b.MayPrecede scope rest)
    (offset : Nat) :
    next? scope offset (b.bytes ++ rest) = .ok (some (b.frame offset, rest)) := by
  obtain ⟨type, form, payload⟩ := b
  cases form with
  | narrow =>
    have hsize : bigEndian (numberBytes 4 (8 + payload.length)) = 8 + payload.length :=
      bigEndian_numberBytes h
    have hbytes : (WrittenBox.mk type .narrow payload).bytes ++ rest =
        numberBytes 4 (8 + payload.length) ++ (type.bytes ++ (payload ++ rest)) := by
      simp [WrittenBox.bytes, WrittenBox.announced, WrittenBox.wideSize, WrittenBox.size,
        WrittenBox.headerLength]
    rw [hbytes, next?_sized (length_numberBytes 4 _) _ _ _ _ (by omega), hsize]
    exact cut_payload type offset 8 payload rest
  | wide =>
    have hsize : bigEndian (numberBytes 8 (16 + payload.length)) = 16 + payload.length :=
      bigEndian_numberBytes h
    have hwide : (numberBytes 8 (16 + payload.length)).length = 8 := length_numberBytes 8 _
    have hbytes : (WrittenBox.mk type .wide payload).bytes ++ rest = numberBytes 4 1 ++
        (type.bytes ++ (numberBytes 8 (16 + payload.length) ++ (payload ++ rest))) := by
      simp [WrittenBox.bytes, WrittenBox.announced, WrittenBox.wideSize, WrittenBox.size,
        WrittenBox.headerLength]
    rw [hbytes, next?_one (length_numberBytes 4 _) _ _ _ _ (by decide)
      (by rw [List.length_append]; omega), List.take_left' hwide, List.drop_left' hwide, hsize]
    exact cut_payload type offset 16 payload rest
  | toEnd =>
    obtain ⟨rfl, rfl⟩ := hrest rfl
    have hcut := cut_payload type offset 8 payload []
    have hbytes : (WrittenBox.mk type .toEnd payload).bytes ++ [] =
        numberBytes 4 0 ++ (type.bytes ++ payload) := by
      simp [WrittenBox.bytes, WrittenBox.announced, WrittenBox.wideSize]
    rw [List.append_nil] at hcut
    rw [hbytes, next?_zero (length_numberBytes 4 _) _ _ _ _ (by decide)]
    exact hcut

theorem next?_of_filler (h : Filler scope bs) (offset : Nat) : next? scope offset bs = .ok none := by
  rcases h with rfl | ⟨hscope, hfew, hzero⟩
  · rfl
  · rw [next?_few scope offset hfew, if_pos (.inr ⟨hscope, by simpa using hzero⟩)]

theorem header_fields {size : List UInt8} (h : size.length = 4) (type : FourCc)
    (body : List UInt8) :
    (size ++ (type.bytes ++ body)).take 4 = size ∧
      ((size ++ (type.bytes ++ body)).drop 4).take 4 = type.bytes ∧
      (size ++ (type.bytes ++ body)).drop 8 = body ∧
      (size ++ (type.bytes ++ body)).length = 8 + body.length := by
  match size, h with
  | [s0, s1, s2, s3], _ =>
    refine ⟨rfl, rfl, rfl, ?_⟩
    simp only [List.length_append, FourCc.length_bytes, List.length_cons, List.length_nil]
    omega

section Declared

variable {size : List UInt8} (h : size.length = 4) (type : FourCc) (body : List UInt8)

include h

theorem declared_one (hsize : bigEndian size = 1) :
    declared (size ++ (type.bytes ++ body)) = (bigEndian (body.take 8), 16) := by
  obtain ⟨hfield, -, hbody, -⟩ := header_fields h type body
  unfold declared
  rw [hfield, hbody]
  exact if_pos hsize

theorem declared_sized (hsize : bigEndian size ≠ 1) :
    declared (size ++ (type.bytes ++ body)) = (bigEndian size, 8) := by
  obtain ⟨hfield, -, hbody, -⟩ := header_fields h type body
  unfold declared
  rw [hfield]
  exact if_neg hsize

end Declared

theorem eight_le_declared : 8 ≤ (declared bs).2 := by
  unfold declared
  dsimp only
  split <;> simp

theorem type_eq {a b : FourCc} (h : a.bytes = b.bytes) : a = b := by
  obtain ⟨a0, a1, a2, a3⟩ := a
  obtain ⟨b0, b1, b2, b3⟩ := b
  simpa [FourCc.bytes] using h

theorem cut_eq_error (type : FourCc) (offset : Nat) {size headerLength : Nat} {body : List UInt8}
    (h : size < headerLength) :
    cut type offset size headerLength body =
      malformed (.sizeBelowHeader type size headerLength) := if_pos h

theorem cut_eq_needMoreData (type : FourCc) (offset : Nat) {size headerLength : Nat}
    {body : List UInt8} (h : headerLength + body.length < size) :
    cut type offset size headerLength body = .error .needMoreData := by
  rw [cut_eq, if_neg (by omega), if_pos (by omega)]

theorem next?_of_faultAt {e : Error} (h : FaultAt scope bs e) (offset : Nat) :
    next? scope offset bs = .error e := by
  cases h with
  | cutHeader some few noFiller =>
    rw [next?_few scope offset few, if_neg]
    rintro (hnil | ⟨hscope, hzero⟩)
    · exact some hnil
    · obtain ⟨b, hb, hne⟩ := noFiller hscope
      exact hne (by simpa using List.all_eq_true.1 hzero b hb)
  | openInside enough inside zero typed =>
    obtain ⟨size, type, body, hsize, rfl⟩ := exists_header enough
    obtain ⟨hfield, htype, -, -⟩ := header_fields hsize type body
    rw [hfield] at zero
    rw [htype] at typed
    rw [next?_zero hsize _ _ _ _ zero, inside, type_eq typed]
  | cutWide enough wide few =>
    obtain ⟨size, type, body, hsize, rfl⟩ := exists_header enough
    obtain ⟨hfield, -, -, hlength⟩ := header_fields hsize type body
    rw [hfield] at wide
    exact next?_one_few hsize _ _ _ _ wide (by omega)
  | tooSmall enough sized small typed =>
    obtain ⟨size, type, body, hsize, rfl⟩ := exists_header (Nat.le_trans eight_le_declared enough)
    obtain ⟨hfield, htype, -, hlength⟩ := header_fields hsize type body
    rw [hfield] at sized
    rw [htype] at typed
    obtain rfl := type_eq typed
    by_cases hone : bigEndian size = 1
    · rw [declared_one hsize _ _ hone] at enough small ⊢
      dsimp only at enough
      rw [next?_one hsize _ _ _ _ hone (by omega)]
      exact cut_eq_error _ _ small
    · rw [declared_sized hsize _ _ hone] at small ⊢
      rw [next?_sized hsize _ _ _ _ (by omega)]
      exact cut_eq_error _ _ small
  | tooLarge enough sized large =>
    obtain ⟨size, type, body, hsize, rfl⟩ := exists_header (Nat.le_trans eight_le_declared enough)
    obtain ⟨hfield, -, -, hlength⟩ := header_fields hsize type body
    rw [hfield] at sized
    by_cases hone : bigEndian size = 1
    · rw [declared_one hsize _ _ hone] at enough large
      dsimp only at enough large
      rw [next?_one hsize _ _ _ _ hone (by omega)]
      exact cut_eq_needMoreData _ _ (by rw [List.length_drop]; omega)
    · rw [declared_sized hsize _ _ hone] at large
      rw [next?_sized hsize _ _ _ _ (by omega)]
      exact cut_eq_needMoreData _ _ (by omega)

/-! ### Nothing else is cut off -/

/-- There is a fault unless the declared size covers the header and no more than the bytes. -/
theorem exists_faultAt (scope : Scope) (enough : (declared bs).2 ≤ bs.length)
    (sized : bigEndian (bs.take 4) ≠ 0) :
    (∃ e, FaultAt scope bs e) ∨
      (declared bs).2 ≤ (declared bs).1 ∧ (declared bs).1 ≤ bs.length := by
  by_cases hsmall : (declared bs).1 < (declared bs).2
  · obtain ⟨size, type, body, hsize, hbs⟩ := exists_header (Nat.le_trans eight_le_declared enough)
    have htype := (header_fields hsize type body).2.1
    exact .inl ⟨_, .tooSmall enough sized hsmall (by rw [hbs, htype])⟩
  · by_cases hlarge : bs.length < (declared bs).1
    · exact .inl ⟨_, .tooLarge enough sized hlarge⟩
    · exact .inr ⟨by omega, by omega⟩

theorem numberBytes_of_eq {size : List UInt8} {width n : Nat} (hsize : size.length = width)
    (hn : bigEndian size = n) : numberBytes width n = size := by
  rw [← hsize, ← hn, numberBytes_bigEndian]

/-- Bytes that are long enough are those of a payload of the given length and the rest. -/
theorem exists_payload (body : List UInt8) {size headerLength : Nat} (h : headerLength ≤ size)
    (hbody : size ≤ headerLength + body.length) :
    ∃ payload rest, body = payload ++ rest ∧ size = headerLength + payload.length := by
  refine ⟨body.take (size - headerLength), body.drop (size - headerLength),
    (List.take_append_drop _ _).symm, ?_⟩
  rw [List.length_take]
  omega

/-- The bytes start with a box that may stand there. -/
def StartsWritten (scope : Scope) (bs : List UInt8) : Prop :=
  ∃ b rest, bs = WrittenBox.bytes b ++ rest ∧ b.Fits ∧ b.MayPrecede scope rest

section Header

variable {size : List UInt8} (h : size.length = 4) (scope : Scope) (type : FourCc)
  (body : List UInt8)

include h

theorem starts_of_zero (hsize : bigEndian size = 0) :
    StartsWritten scope (size ++ (type.bytes ++ body)) ∨
      ∃ e, FaultAt scope (size ++ (type.bytes ++ body)) e := by
  obtain ⟨hfield, htype, -, hlength⟩ := header_fields h type body
  cases scope with
  | nested => exact .inr ⟨_, .openInside (by omega) rfl (hfield.symm ▸ hsize) htype.symm⟩
  | topLevel =>
    refine .inl ⟨⟨type, .toEnd, body⟩, [], ?_, trivial, fun _ => ⟨rfl, rfl⟩⟩
    simp [WrittenBox.bytes, WrittenBox.announced, WrittenBox.wideSize, numberBytes_of_eq h hsize]

theorem starts_of_one (hsize : bigEndian size = 1) :
    StartsWritten scope (size ++ (type.bytes ++ body)) ∨
      ∃ e, FaultAt scope (size ++ (type.bytes ++ body)) e := by
  obtain ⟨hfield, -, -, hlength⟩ := header_fields h type body
  have hdeclared := declared_one h type body hsize
  by_cases hwide : body.length < 8
  · exact .inr ⟨_, .cutWide (by omega) (hfield.symm ▸ hsize) (by omega)⟩
  · rcases exists_faultAt scope (by rw [hdeclared]; omega) (by rw [hfield]; omega) with
      hfault | ⟨hlow, hhigh⟩
    · exact .inr hfault
    · simp only [hdeclared] at hlow hhigh
      obtain ⟨payload, rest, hrest, hpayload⟩ := exists_payload (body.drop 8) hlow
        (by rw [List.length_drop]; omega)
      have htake : (body.take 8).length = 8 := by
        rw [List.length_take]
        omega
      have hfits := bigEndian_lt (body.take 8)
      rw [htake, hpayload] at hfits
      have hnumber : numberBytes 8 (16 + payload.length) = body.take 8 :=
        numberBytes_of_eq htake hpayload
      refine .inl ⟨⟨type, .wide, payload⟩, rest, ?_, hfits, nofun⟩
      simp [WrittenBox.bytes, WrittenBox.announced, WrittenBox.wideSize, WrittenBox.size,
        WrittenBox.headerLength, numberBytes_of_eq h hsize, hnumber, ← hrest]

theorem starts_of_sized (hsize : 1 < bigEndian size) :
    StartsWritten scope (size ++ (type.bytes ++ body)) ∨
      ∃ e, FaultAt scope (size ++ (type.bytes ++ body)) e := by
  obtain ⟨hfield, -, -, hlength⟩ := header_fields h type body
  have hdeclared := declared_sized h type body (by omega)
  rcases exists_faultAt scope (by rw [hdeclared]; omega) (by rw [hfield]; omega) with
    hfault | ⟨hlow, hhigh⟩
  · exact .inr hfault
  · simp only [hdeclared] at hlow hhigh
    obtain ⟨payload, rest, hrest, hpayload⟩ := exists_payload body hlow (hlength ▸ hhigh)
    have hfits := bigEndian_lt size
    rw [h, hpayload] at hfits
    refine .inl ⟨⟨type, .narrow, payload⟩, rest, ?_, hfits, nofun⟩
    simp [WrittenBox.bytes, WrittenBox.announced, WrittenBox.wideSize, WrittenBox.size,
      WrittenBox.headerLength, numberBytes_of_eq h hpayload, ← hrest]

end Header

/-- **Bytes start with a box that may stand there, or they end, or there is a fault.** -/
theorem starts_or_ends (scope : Scope) (bs : List UInt8) :
    StartsWritten scope bs ∨ Filler scope bs ∨ ∃ e, FaultAt scope bs e := by
  by_cases hfew : bs.length < 8
  · by_cases hfiller : Filler scope bs
    · exact .inr (.inl hfiller)
    · unfold Filler at hfiller
      push Not at hfiller
      exact .inr (.inr ⟨_, .cutHeader hfiller.1 hfew fun hscope => hfiller.2 hscope hfew⟩)
  · obtain ⟨size, type, body, hsize, rfl⟩ := exists_header (Nat.le_of_not_lt hfew)
    rcases (by omega : bigEndian size = 0 ∨ bigEndian size = 1 ∨ 1 < bigEndian size) with
      hzero | hone | hsized
    · exact (starts_of_zero hsize scope type body hzero).imp_right .inr
    · exact (starts_of_one hsize scope type body hone).imp_right .inr
    · exact (starts_of_sized hsize scope type body hsized).imp_right .inr

/-! ### One box, and all boxes -/

theorem next?_eq_some_iff :
    next? scope offset bs = .ok (some (f, rest)) ↔
      ∃ b, bs = WrittenBox.bytes b ++ rest ∧ b.Fits ∧ b.MayPrecede scope rest ∧
        f = b.frame offset := by
  constructor
  · intro h
    rcases starts_or_ends scope bs with ⟨b, rest', rfl, hfits, hrest⟩ | hfiller | ⟨e, hfault⟩
    · rw [next?_written hfits hrest] at h
      cases h
      exact ⟨b, rfl, hfits, hrest, rfl⟩
    · rw [next?_of_filler hfiller] at h
      cases h
    · rw [next?_of_faultAt hfault] at h
      cases h
  · rintro ⟨b, rfl, hfits, hrest, rfl⟩
    exact next?_written hfits hrest offset

theorem next?_eq_none_iff : next? scope offset bs = .ok none ↔ Filler scope bs := by
  refine ⟨fun h => ?_, fun h => next?_of_filler h offset⟩
  rcases starts_or_ends scope bs with ⟨b, rest', rfl, hfits, hrest⟩ | hfiller | ⟨e, hfault⟩
  · rw [next?_written hfits hrest] at h
    cases h
  · exact hfiller
  · rw [next?_of_faultAt hfault] at h
    cases h

theorem next?_eq_error_iff {e : Error} :
    next? scope offset bs = .error e ↔ FaultAt scope bs e := by
  refine ⟨fun h => ?_, fun h => next?_of_faultAt h offset⟩
  rcases starts_or_ends scope bs with ⟨b, rest', rfl, hfits, hrest⟩ | hfiller | ⟨e', hfault⟩
  · rw [next?_written hfits hrest] at h
    cases h
  · rw [next?_of_filler hfiller] at h
    cases h
  · rw [next?_of_faultAt hfault] at h
    cases h
    exact hfault

/-- Boxes that are not open-ended are cut off one after the other, and then what follows them. -/
theorem all_written {boxes : List WrittenBox} (h : ∀ b ∈ boxes, b.Fits ∧ b.form ≠ .toEnd)
    (scope : Scope) (offset : Nat) (rest : List UInt8) :
    all scope offset (WrittenBox.allBytes boxes ++ rest) =
      (WrittenBox.frames offset boxes ++
          (all scope (offset + (WrittenBox.allBytes boxes).length) rest).1,
        (all scope (offset + (WrittenBox.allBytes boxes).length) rest).2) := by
  induction boxes generalizing offset with
  | nil => rfl
  | cons b boxes ih =>
    obtain ⟨⟨hfits, hform⟩, hboxes⟩ := List.forall_mem_cons.1 h
    rw [WrittenBox.allBytes_cons, List.append_assoc,
      all_of_next (next?_written hfits (fun htoEnd => absurd htoEnd hform) offset)]
    dsimp only
    rw [ih hboxes, List.length_append, WrittenBox.length_bytes, ← Nat.add_assoc]
    rfl

/-- Wherever the bytes stand, the same boxes are cut out of them, up to the end or to one fault. -/
theorem exists_all_eq (scope : Scope) (offset : Nat) (bs : List UInt8) :
    ∃ boxes fault, ∀ offset', all scope offset' bs = (WrittenBox.frames offset' boxes, fault) := by
  fun_induction all scope offset bs with
  | case1 offset bs e h =>
    exact ⟨[], some e, fun offset' => all_of_next (next?_of_faultAt (next?_eq_error_iff.1 h) offset')⟩
  | case2 offset bs h =>
    exact ⟨[], none, fun offset' => all_of_next (next?_of_filler (next?_eq_none_iff.1 h) offset')⟩
  | case3 offset bs f rest h r ih =>
    obtain ⟨b, rfl, hfits, hprecede, rfl⟩ := next?_eq_some_iff.1 h
    obtain ⟨boxes, fault, hall⟩ := ih
    refine ⟨b :: boxes, fault, fun offset' => ?_⟩
    rw [all_of_next (next?_written hfits hprecede offset')]
    dsimp only
    rw [hall]
    rfl

/-- **The boxes that are cut out are those that are written**, up to the end or to a fault. -/
theorem exists_splits (scope : Scope) (offset : Nat) (bs : List UInt8) :
    ∃ boxes rest, Splits scope bs boxes rest ∧
      (all scope offset bs).1 = WrittenBox.frames offset boxes ∧
      ((all scope offset bs).2 = none ∧ Filler scope rest ∨
        ∃ e, (all scope offset bs).2 = some e ∧ FaultAt scope rest e) := by
  fun_induction all scope offset bs with
  | case1 offset bs e h =>
    exact ⟨[], bs, ⟨rfl, trivial⟩, rfl, .inr ⟨e, rfl, next?_eq_error_iff.1 h⟩⟩
  | case2 offset bs h => exact ⟨[], bs, ⟨rfl, trivial⟩, rfl, .inl ⟨rfl, next?_eq_none_iff.1 h⟩⟩
  | case3 offset bs f rest h r ih =>
    obtain ⟨b, rfl, hfits, hprecede, rfl⟩ := next?_eq_some_iff.1 h
    obtain ⟨boxes, rest', ⟨rfl, hspelled⟩, hframes, hend⟩ := ih
    refine ⟨b :: boxes, rest', ⟨?_, hfits, hprecede, hspelled⟩, ?_, hend⟩
    · rw [WrittenBox.allBytes_cons, List.append_assoc]
    · exact congrArg (b.frame offset :: ·) hframes

end Frame

end IsoMedia
