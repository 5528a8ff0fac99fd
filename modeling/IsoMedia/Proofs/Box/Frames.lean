import IsoMedia.Box.Frame
import IsoMedia.Proofs.Bytes.Fields

/-!
# Writing boxes, and cutting them out again

A `Box` is a type code with a payload, written behind a size of four bytes.  Boxes written one after
the other are cut out again as they were, if none is too large for such a size (`Frame.all_bytes`).
-/

namespace IsoMedia

/-- A box to be written. -/
structure Box where
  type : FourCc
  payload : List UInt8

namespace Box

/-- The size of the whole box. -/
def size (b : Box) : Nat := 8 + b.payload.length

/-- The size can be written with four bytes. -/
def Fits (b : Box) : Prop := b.size < 2 ^ 32

instance (b : Box) : Decidable b.Fits := inferInstanceAs (Decidable (_ < _))

/-- The bytes of a box: its size, its type code and its payload. -/
def bytes (b : Box) : List UInt8 := numberBytes 4 b.size ++ (b.type.bytes ++ b.payload)

/-- The bytes of boxes that follow one another. -/
def allBytes (boxes : List Box) : List UInt8 := boxes.flatMap bytes

/-- A box that holds others. -/
def container (type : FourCc) (boxes : List Box) : Box := ⟨type, allBytes boxes⟩

/-- The box as it is cut out of the bytes around it. -/
def frame (b : Box) (offset : Nat) : Frame := ⟨b.type, offset, b.size, 8, b.payload⟩

/-- Boxes that follow one another, as they are cut out. -/
def frames : Nat → List Box → List Frame
  | _, [] => []
  | offset, b :: boxes => b.frame offset :: frames (offset + b.size) boxes

@[simp] theorem type_frame (b : Box) (offset : Nat) : (b.frame offset).type = b.type := rfl

@[simp] theorem payload_frame (b : Box) (offset : Nat) :
    (b.frame offset).payload = b.payload := rfl

@[simp] theorem length_bytes (b : Box) : b.bytes.length = b.size := by
  simp only [bytes, List.length_append, length_numberBytes, FourCc.length_bytes, size]
  omega

@[simp] theorem allBytes_nil : allBytes [] = [] := rfl

@[simp] theorem allBytes_cons (b : Box) (boxes : List Box) :
    allBytes (b :: boxes) = b.bytes ++ allBytes boxes := rfl

theorem allBytes_append (a b : List Box) : allBytes (a ++ b) = allBytes a ++ allBytes b :=
  List.flatMap_append

theorem size_le_of_mem {b : Box} {boxes : List Box} (h : b ∈ boxes) :
    b.size ≤ (allBytes boxes).length := by
  obtain ⟨before, after, rfl⟩ := List.append_of_mem h
  simp only [allBytes_append, allBytes_cons, List.length_append, length_bytes]
  omega

/-- What fits into a box of which the size can be written has a size that can be written. -/
theorem fits_of_mem {b : Box} {type : FourCc} {boxes : List Box} (h : b ∈ boxes)
    (hfits : (container type boxes).Fits) : b.Fits := by
  have hsize := size_le_of_mem h
  unfold Fits size container at *
  dsimp only at hfits
  omega

end Box

namespace Frame

theorem cut_payload (type : FourCc) (offset headerLength : Nat) (payload rest : List UInt8) :
    cut type offset (headerLength + payload.length) headerLength (payload ++ rest) =
      .ok (some (⟨type, offset, headerLength + payload.length, headerLength, payload⟩, rest)) := by
  have hlength : headerLength + payload.length - headerLength = payload.length := by omega
  unfold cut
  rw [if_neg (by omega), hlength, List.take_left, List.drop_left]
  exact if_neg (Nat.lt_irrefl _)

/-- The first box is cut off as it was written. -/
theorem next?_bytes {b : Box} (h : b.Fits) (scope : Scope) (offset : Nat) (rest : List UInt8) :
    next? scope offset (b.bytes ++ rest) = .ok (some (b.frame offset, rest)) := by
  obtain ⟨s0, s1, s2, s3, hsize⟩ : ∃ s0 s1 s2 s3, numberBytes 4 b.size = [s0, s1, s2, s3] :=
    ⟨_, _, _, _, rfl⟩
  have hnumber : bigEndian [s0, s1, s2, s3] = 8 + b.payload.length := by
    rw [← hsize]
    exact bigEndian_numberBytes h
  have hbytes : b.bytes ++ rest = s0 :: s1 :: s2 :: s3 :: b.type.b0 :: b.type.b1 :: b.type.b2 ::
      b.type.b3 :: (b.payload ++ rest) := by
    rw [Box.bytes, hsize]
    rfl
  rw [hbytes]
  unfold next?
  dsimp only
  rw [hnumber]
  split
  · omega
  · omega
  · exact cut_payload b.type offset 8 b.payload rest

/-- What is cut out starts with what is cut off first. -/
theorem all_of_next {scope : Scope} {offset : Nat} {bs : List UInt8}
    {r : Except Error (Option (Frame × List UInt8))} (h : next? scope offset bs = r) :
    all scope offset bs = match r with
      | .error e => ([], some e)
      | .ok none => ([], none)
      | .ok (some (f, rest)) =>
        (f :: (all scope (offset + f.size) rest).1, (all scope (offset + f.size) rest).2) := by
  rw [all]
  split <;>
    · rename_i hnext
      rw [h] at hnext
      subst hnext
      rfl

/-- Boxes are cut out as they were written. -/
theorem all_bytes {boxes : List Box} (h : ∀ b ∈ boxes, b.Fits) (scope : Scope) (offset : Nat) :
    all scope offset (Box.allBytes boxes) = (Box.frames offset boxes, none) := by
  induction boxes generalizing offset with
  | nil => exact all_of_next rfl
  | cons b boxes ih =>
    rw [List.forall_mem_cons] at h
    rw [Box.allBytes_cons, all_of_next (next?_bytes h.1 scope offset (Box.allBytes boxes))]
    dsimp only
    rw [ih h.2]
    rfl

end Frame

end IsoMedia
