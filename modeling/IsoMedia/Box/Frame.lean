import IsoMedia.Bytes.Cursor

/-!
# Cutting bytes into boxes

A box starts with a size of four bytes and a type code; a size of 1 means that a size of eight bytes
follows, and a size of 0, at the top level of a file only, that the box reaches to the end.
`Frame.next?` cuts off one box, `Frame.all` all of them until the end or the first fault.
-/

namespace IsoMedia

/-- Where boxes stand: at the top level of a file, or inside another box. -/
inductive Scope where
  | topLevel
  | nested
deriving DecidableEq

/-- A box cut out of the bytes around it. -/
structure Frame where
  type : FourCc
  /-- Where the box starts in the file. -/
  offset : Nat
  /-- The size of the whole box. -/
  size : Nat
  /-- The size of what precedes the payload, 8 or 16 bytes. -/
  headerLength : Nat
  payload : List UInt8
deriving DecidableEq

namespace Frame

/-- Where the payload starts in the file. -/
def payloadOffset (f : Frame) : Nat := f.offset + f.headerLength

/-- A box with the given size and the bytes behind it, cut from what follows its header. -/
def cut (type : FourCc) (offset size headerLength : Nat) (body : List UInt8) :
    Except Error (Option (Frame × List UInt8)) :=
  if size < headerLength then malformed (.sizeBelowHeader type size headerLength)
  else
    let payload := body.take (size - headerLength)
    if payload.length < size - headerLength then .error .needMoreData
    else .ok (some (⟨type, offset, size, headerLength, payload⟩, body.drop (size - headerLength)))

/-- The first box of a run of bytes and the bytes behind it, or nothing at the end.  Inside another
box fewer than eight zero bytes may fill up the end. -/
def next? (scope : Scope) (offset : Nat) :
    List UInt8 → Except Error (Option (Frame × List UInt8))
  | [] => .ok none
  | s0 :: s1 :: s2 :: s3 :: t0 :: t1 :: t2 :: t3 :: body =>
    let type : FourCc := ⟨t0, t1, t2, t3⟩
    match bigEndian [s0, s1, s2, s3] with
    | 0 =>
      match scope with
      | .nested => malformed (.openEndedInside type)
      | .topLevel => cut type offset (8 + body.length) 8 body
    | 1 =>
      let wide := body.take 8
      if wide.length < 8 then .error .needMoreData
      else cut type offset (bigEndian wide) 16 (body.drop 8)
    | size => cut type offset size 8 body
  | tail =>
    if scope = .nested ∧ tail.all (· = 0) then .ok none else .error .needMoreData

theorem cut_shorter {type : FourCc} {offset size headerLength : Nat} {body rest : List UInt8}
    {f : Frame} (h : cut type offset size headerLength body = .ok (some (f, rest))) :
    rest.length ≤ body.length := by
  unfold cut at h
  split at h
  · cases h
  · simp only at h
    split at h
    · cases h
    · cases h
      simp

theorem next?_shorter {scope : Scope} {offset : Nat} {bs rest : List UInt8} {f : Frame}
    (h : next? scope offset bs = .ok (some (f, rest))) : rest.length < bs.length := by
  unfold next? at h
  split at h
  · cases h
  · simp only at h
    split at h
    · split at h
      · cases h
      · have := cut_shorter h
        simp only [List.length_cons]; omega
    · split at h
      · cases h
      · have := cut_shorter h
        simp only [List.length_drop] at this
        simp only [List.length_cons]; omega
    · have := cut_shorter h
      simp only [List.length_cons]; omega
  · split at h <;> cases h

/-- The boxes of a run of bytes in order, and the fault that ended them, if it was not the end of
the bytes. -/
def all (scope : Scope) (offset : Nat) (bs : List UInt8) : List Frame × Option Error :=
  match _step : next? scope offset bs with
  | .error e => ([], some e)
  | .ok none => ([], none)
  | .ok (some (f, rest)) =>
    let r := all scope (offset + f.size) rest
    (f :: r.1, r.2)
termination_by bs.length
decreasing_by exact next?_shorter _step

end Frame

end IsoMedia
