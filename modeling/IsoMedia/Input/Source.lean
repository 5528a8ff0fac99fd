import IsoMedia.Error

/-!
# Sources of bytes

A `Source` is a run of bytes behind a boundary that may be slow or faulty: each request for bytes is
answered with a part of them, with nothing, or with a failure, as the source's plan says, and requests
to go elsewhere or to tell the place may be refused too.  A failing request leaves the source where it
was, and a successful one hands over bytes that lie at its place (`Source.read_of_ok`).
-/

namespace IsoMedia

/-- How a request for bytes is answered. -/
inductive Reply where
  | fail (reason : String)
  /-- At most so many bytes are handed over. -/
  | atMost (count : Nat)
deriving DecidableEq

/-- A place to go to. -/
inductive Target where
  /-- So many bytes from the start. -/
  | start (distance : Nat)
  /-- So many bytes from the place where the source is. -/
  | current (distance : Int)
  /-- So many bytes from the end. -/
  | stop (distance : Int)
deriving DecidableEq

/-- A run of bytes that is read piece by piece. -/
structure Source where
  content : ByteArray
  /-- The next byte to hand over. -/
  pos : Nat := 0
  /-- Whether the source tells how long it is. -/
  tellsSize : Bool := true
  /-- The answer to a request, by its number, the place and the count of bytes asked for. -/
  onRead : Nat → Nat → Nat → Reply := fun _ _ asked => .atMost asked
  /-- Why a request to go elsewhere is refused, by its number, if it is. -/
  onSeek : Nat → Option String := fun _ => none
  /-- Why a request to tell the place is refused, by its number, if it is. -/
  onTell : Nat → Option String := fun _ => none
  /-- The number of the next request. -/
  clock : Nat := 0
  /-- The places gone to. -/
  visited : Array Nat := #[]

namespace Source

/-- A source that answers every request in full. -/
def ofBytes (content : ByteArray) : Source := { content }

/-- How long the source is, if it tells. -/
def size? (s : Source) : Option Nat := if s.tellsSize then some s.content.size else none

/-- The bytes of the source from one place up to another. -/
def slice (s : Source) (first stop : Nat) : ByteArray :=
  s.content.extract first (min stop s.content.size)

/-- Ask for at most so many bytes.  No bytes at all mean the end. -/
def read (s : Source) (asked : Nat) : Except Error ByteArray × Source :=
  match s.onRead s.clock s.pos asked with
  | .fail reason => (.error (.io reason), { s with clock := s.clock + 1 })
  | .atMost count =>
    let piece := s.slice s.pos (s.pos + min asked count)
    (.ok piece, { s with clock := s.clock + 1, pos := s.pos + piece.size })

/-- The same source after a request that changes nothing else. -/
def later (s : Source) : Source := { s with clock := s.clock + 1 }

/-- Ask for the place. -/
def tell (s : Source) : Except Error Nat × Source :=
  match s.onTell s.clock with
  | some reason => (.error (.io reason), s.later)
  | none => (.ok s.pos, s.later)

/-- The least number that is no place. -/
def placeBound : Int := 0x10000000000000000

/-- Where a target lies; it need not be a place. -/
def aim (s : Source) : Target → Int
  | .start n => n
  | .current d => s.pos + d
  | .stop d => s.content.size + d

/-- Go to a target, which has to be a place that can be numbered. -/
def seek (s : Source) (target : Target) : Except Error Nat × Source :=
  match s.onSeek s.clock with
  | some reason => (.error (.io reason), { s with clock := s.clock + 1 })
  | none =>
    let place := s.aim target
    if 0 ≤ place ∧ place < placeBound then
      let place := place.toNat
      (.ok place,
        { s with clock := s.clock + 1, pos := place, visited := s.visited.push place })
    else (.error (.io "seek 到负偏移"), { s with clock := s.clock + 1 })

theorem size_slice_le (s : Source) (first stop : Nat) :
    (s.slice first stop).size ≤ stop - first := by
  simp only [slice, ByteArray.size_extract]
  omega

theorem add_size_slice_le (s : Source) (first stop : Nat) (h : (s.slice first stop).size ≠ 0) :
    first + (s.slice first stop).size ≤ s.content.size := by
  simp only [slice, ByteArray.size_extract] at *
  omega

/-- A request that succeeds hands over bytes from the source's place, no more than were asked for,
and moves on behind them. -/
theorem read_of_ok {s s' : Source} {asked : Nat} {piece : ByteArray}
    (h : s.read asked = (.ok piece, s')) :
    s'.content = s.content ∧ s'.pos = s.pos + piece.size ∧ piece.size ≤ asked ∧
      (piece.size ≠ 0 → s'.pos ≤ s.content.size) := by
  unfold read at h
  split at h
  · simp at h
  · rename_i count _
    simp only [Prod.mk.injEq, Except.ok.injEq] at h
    obtain ⟨rfl, rfl⟩ := h
    refine ⟨rfl, rfl, ?_, ?_⟩
    · have := s.size_slice_le s.pos (s.pos + min asked count)
      omega
    · exact s.add_size_slice_le _ _

end Source

end IsoMedia
