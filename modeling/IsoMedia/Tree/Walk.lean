import IsoMedia.Tree.Payload

/-!
# Walking the boxes of a file

`Tree.build` cuts a file into boxes, reads each box of a known kind and goes on inside the containers.
Damage to a critical box ends the walk; any other damaged box is dropped with a warning.  What the
boxes inside a dropped box already put into the draft of their track, and the tracks finished inside
it, stay.
-/

namespace IsoMedia

/-- What to do about a box of an unknown kind. -/
inductive UnknownBoxPolicy where
  | skip
  | fail
deriving DecidableEq

/-- A fault that was put up with. -/
structure ParseWarning where
  /-- Where the box starts in the file. -/
  offset : Nat
  type : FourCc
  message : String
deriving DecidableEq

def ParseWarning.text (w : ParseWarning) : String := s!"'{w.type.text}' @{w.offset}: {w.message}"

namespace Tree

/-- How deep boxes may be nested. -/
def maxDepth : Nat := 32

/-- What a walk has gathered. -/
structure Gathered where
  /-- The faults put up with, the latest first. -/
  warnings : List ParseWarning := []
  /-- The drafts of the tracks walked to their end. -/
  finished : Array TrackDraft := #[]
  /-- The number of the next track to start. -/
  nextNumber : Nat := 0
  /-- The draft of the track being walked. -/
  draft : Option TrackDraft := none

/-- A step of a walk.  What was gathered before a failure stays gathered. -/
abbrev Walk (α : Type) := ExceptT Error (StateT Gathered Noted) α

namespace Walk

/-- A computation that gathers nothing. -/
def lift {α : Type} (x : Checked α) : Walk α := ExceptT.mk (StateT.lift x.run)

/-- Run to the end and hand over the outcome instead of failing. -/
def attempt {α : Type} (x : Walk α) : Walk (Except Error α) := ExceptT.lift x.run

/-- Put up with a fault in a box. -/
def warn (f : Frame) (message : String) : Walk Unit := do
  let w : ParseWarning := ⟨f.offset, f.type, message⟩
  lift (Checked.say .warn .tree s!"MP4: {w.text}")
  modify fun g => { g with warnings := w :: g.warnings }

end Walk

/-- Walk boxes that follow one another, up to the fault that ended their framing. -/
def siblings (policy : UnknownBoxPolicy) (visit : BoxKind → Frame → Walk Node) :
    List Frame → Option Error → Walk (List Node)
  | [], none => return []
  | [], some e => throw e
  | f :: frames, fault => do
    match BoxKind.ofFourCc? f.type with
    | none =>
      match policy with
      | .skip =>
        Walk.warn f s!"未知 box, 跳过 {f.size} 字节"
        siblings policy visit frames fault
      | .fail => throw (.invalidData (.unknownBox f.type f.offset))
    | some kind =>
      match ← Walk.attempt (visit kind f) with
      | .ok node => return node :: (← siblings policy visit frames fault)
      | .error e =>
        if kind.isCritical then throw e
        else
          Walk.warn f s!"解析失败, 已丢弃: {e.message}"
          siblings policy visit frames fault

/-- Walk the boxes inside `bytes`, which start at `offset` in the file. -/
def inside (policy : UnknownBoxPolicy) (visit : BoxKind → Frame → Walk Node) (scope : Scope)
    (offset : Nat) (bytes : List UInt8) : Walk (List Node) :=
  let r := Frame.all scope offset bytes
  siblings policy visit r.1 r.2

/-- Start the draft of the track that a box opens, and give up the draft of the track around it. -/
def startTrack (f : Frame) : Walk (Option TrackDraft) := do
  let g ← get
  Walk.lift (Checked.say .debug .tree s!"MP4: trak #{g.nextNumber} 位于偏移 {f.offset}")
  set { g with draft := some { number := g.nextNumber }, nextNumber := g.nextNumber + 1 }
  return g.draft

/-- Go back to the draft of the track around, and give up the draft of the inner track. -/
def leaveTrack (outer : Option TrackDraft) : Walk (Option TrackDraft) := do
  let g ← get
  set { g with draft := outer }
  return g.draft

/-- Walk one box of a known kind with at most so many levels of boxes from here on. -/
def visit (policy : UnknownBoxPolicy) : Nat → BoxKind → Frame → Walk Node
  | 0, _, f => throw (.invalidData (.nestedTooDeep f.type f.offset maxDepth))
  | levels + 1, kind, f => do
    if kind = .trak then
      let outer ← startTrack f
      let outcome ← Walk.attempt
        (inside policy (visit policy levels) .nested f.payloadOffset f.payload)
      let draft ← leaveTrack outer
      let children ← liftExcept outcome
      modify fun g => { g with finished := g.finished ++ draft.toArray }
      return .mk f.type f.offset f.size .container children
    else
      let reading ← Walk.lift (Payload.interpret kind f (← get).draft)
      modify fun g => { g with draft := reading.draft }
      if kind.isContainer then
        if f.payload.length < reading.inner then
          throw (.invalidData (.payloadShort f.type))
        let children ← inside policy (visit policy levels) .nested
          (f.payloadOffset + reading.inner) (f.payload.drop reading.inner)
        return .mk f.type f.offset f.size reading.data children
      else return .mk f.type f.offset f.size reading.data []
where
  /-- Fail with the error of an outcome, or go on with its value. -/
  liftExcept {α : Type} : Except Error α → Walk α
    | .ok a => return a
    | .error e => throw e

/-- A file that was walked to its end. -/
structure Parsed where
  root : Node
  drafts : Array TrackDraft
  warnings : Array ParseWarning

/-- Walk a whole file. -/
def build (policy : UnknownBoxPolicy) (bytes : List UInt8) : Checked Parsed :=
  ExceptT.mk do
    let (outcome, g) ← (inside policy (visit policy maxDepth) .topLevel 0 bytes).run.run {}
    return outcome.map fun children =>
      ⟨Node.root bytes.length children, g.finished, g.warnings.reverse.toArray⟩

end Tree

end IsoMedia
