import IsoMedia.Bytes.Cursor

/-!
# Units in a byte stream

In a file every unit of an H.264 or H.265 sample is preceded by its length; in a byte stream it
is preceded by a start code instead (`AnnexB.unit`).  `AnnexB.split` takes a sample apart; each
unit it takes leaves fewer bytes (`AnnexB.framed_shorter`), so it comes to an end.
-/

namespace IsoMedia.AnnexB

/-- What precedes every unit of a byte stream. -/
def startCode : List UInt8 := [0, 0, 0, 1]

/-- A unit as it stands in a byte stream. -/
def unit (nal : List UInt8) : List UInt8 := startCode ++ nal

/-- Units one after the other, as they stand in a byte stream. -/
def stream (nals : List (List UInt8)) : List UInt8 := nals.flatMap unit

/-- The widths in bytes that a length before a unit may have. -/
def PrefixWidth (width : Nat) : Prop := 1 ≤ width ∧ width ≤ 4

instance (width : Nat) : Decidable (PrefixWidth width) :=
  inferInstanceAs (Decidable (1 ≤ width ∧ width ≤ 4))

/-- The unit at a place: a length of `width` bytes, which `accept` may refuse, and as many bytes
as it says. -/
def framed (width : Nat) (accept : Nat → Except Error Unit) (c : Cursor) :
    Except Error (List UInt8 × Cursor) :=
  match Decode.bytes width c with
  | .error e => .error e
  | .ok (width, c) =>
    match accept (bigEndian width) with
    | .error e => .error e
    | .ok () => Decode.bytes (bigEndian width) c

theorem length_rest_bytes {n : Nat} {c c' : Cursor} {bs : List UInt8}
    (h : Decode.bytes n c = .ok (bs, c')) : c'.rest.length + n = c.rest.length := by
  simp only [Decode.bytes] at h
  split at h
  · rename_i hn
    cases h
    simp only [List.length_take] at hn
    simp only [List.length_drop]
    omega
  · cases h

theorem framed_shorter {width : Nat} {accept : Nat → Except Error Unit} {c c' : Cursor}
    {nal : List UInt8} (h : framed width accept c = .ok (nal, c')) :
    c'.rest.length + width ≤ c.rest.length := by
  unfold framed at h
  split at h
  · cases h
  · rename_i hp
    split at h
    · cases h
    · have := length_rest_bytes hp
      have := length_rest_bytes h
      omega

/-- The units from a place on, put behind the units already taken, which are kept in reverse. -/
def splitFrom (width : Nat) (positive : 0 < width) (accept : Nat → Except Error Unit)
    (taken : List (List UInt8)) (c : Cursor) : Except Error (List (List UInt8)) :=
  if c.rest = [] then .ok taken.reverse
  else match _step : framed width accept c with
    | .error e => .error e
    | .ok (nal, c') => splitFrom width positive accept (nal :: taken) c'
termination_by c.rest.length
decreasing_by
  have := framed_shorter _step
  omega

/-- All units of a sample, with lengths of `width` bytes, none of which `accept` refuses. -/
def split (width : Nat) (accept : Nat → Except Error Unit) (sample : List UInt8) :
    Except Error (List (List UInt8)) :=
  if h : PrefixWidth width then splitFrom width h.1 accept [] ⟨sample, 0⟩
  else .error (.invalidArgument (.nalPrefixWidth width))

end IsoMedia.AnnexB
