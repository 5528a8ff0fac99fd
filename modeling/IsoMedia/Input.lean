import IsoMedia.Input.Source

/-!
# Buffered input

An `Input` reads a source in blocks.  Small reads are served from the block at hand, large ones go
to the source as soon as the block is used up.  A read that fails may have taken some bytes already;
`Input.position` tells where the next read goes on.
-/

namespace IsoMedia

/-- A source with a block of bytes that were read from it in advance. -/
structure Input where
  source : Source
  /-- The block that was read last; it ends where the source is. -/
  block : ByteArray := .empty
  /-- How much of the block was taken. -/
  taken : Nat := 0

namespace Input

/-- How many bytes are asked for when a block is filled. -/
def blockSize : Nat := 32768

def ofBytes (content : ByteArray) : Input := ⟨Source.ofBytes content, .empty, 0⟩

/-- How many bytes of the block are not taken yet. -/
def ahead (i : Input) : Nat := i.block.size - i.taken

/-- Where the next byte comes from. -/
def position (i : Input) : Nat := i.source.pos - i.ahead

/-- Ask where the next byte comes from, which takes asking the source where it is. -/
def tell (i : Input) : Except Error Nat × Input :=
  let (place, source) := i.source.tell
  (place.map (· - i.ahead), { i with source })

def size? (i : Input) : Option Nat := i.source.size?

/-- Go to a target; the block is given up first. -/
def seek (i : Input) (target : Target) : Except Error Nat × Input :=
  let (place, source) := i.source.seek target
  (place, ⟨source, .empty, 0⟩)

/-- Go to a place, unless the input is there already.  Tells whether the source was asked to go. -/
def seekTo (i : Input) (place : Nat) : Except Error Bool × Input :=
  match i.tell with
  | (.error e, i) => (.error e, i)
  | (.ok here, i) =>
    if here = place then (.ok false, i)
    else
      let (outcome, i) := i.seek (.start place)
      (outcome.map fun _ => true, i)

/-- Take bytes until none is wanted any more, and put them behind those already taken.  A request
for a new block that fails makes the old block readable again from its start. -/
def readFrom (wanted : Nat) (got : ByteArray) (i : Input) : Except Error ByteArray × Input :=
  if wanted = 0 then (.ok got, i)
  else if 0 < i.ahead then
    let n := min i.ahead wanted
    readFrom (wanted - n) (got ++ i.block.extract i.taken (i.taken + n))
      { i with taken := i.taken + n }
  else if blockSize ≤ wanted then
    match i.source.read wanted with
    | (.error e, source) => (.error e, { i with source })
    | (.ok piece, source) =>
      if piece.size = 0 then (.error .endOfStream, { i with source })
      else readFrom (wanted - piece.size) (got ++ piece) { i with source }
  else
    match i.source.read blockSize with
    | (.error e, source) => (.error e, { i with source, taken := 0 })
    | (.ok piece, source) =>
      if piece.size = 0 then (.error .endOfStream, ⟨source, piece, 0⟩)
      else readFrom wanted got ⟨source, piece, 0⟩
termination_by (wanted, 1 - i.ahead)
decreasing_by
  · apply Prod.Lex.left
    omega
  · apply Prod.Lex.left
    omega
  · apply Prod.Lex.right
    simp only [ahead] at *
    omega

/-- Take exactly so many bytes. -/
def readExact (i : Input) (wanted : Nat) : Except Error ByteArray × Input :=
  i.readFrom wanted .empty

/-- Ask a source for one block after the other until it hands over nothing. -/
def drain (source : Source) (got : ByteArray) : Except Error ByteArray × Source :=
  match _asked : source.read blockSize with
  | (.error e, source) => (.error e, source)
  | (.ok piece, source) =>
    if piece.size = 0 then (.ok got, source) else drain source (got ++ piece)
termination_by source.content.size - source.pos
decreasing_by
  obtain ⟨hc, hp, _, hle⟩ := Source.read_of_ok _asked
  have := hle ‹_›
  rw [hc]
  omega

/-- All bytes from the start to the end. -/
def readAll (i : Input) : Except Error ByteArray × Input :=
  match i.seek (.start 0) with
  | (.error e, i) => (.error e, i)
  | (.ok _, i) =>
    let (outcome, source) := drain i.source .empty
    (outcome, { i with source })

end Input

end IsoMedia
