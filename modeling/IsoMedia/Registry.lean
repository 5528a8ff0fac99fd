import IsoMedia.Demuxer
import IsoMedia.Probe

/-!
# The registry of formats

A `Registry` knows the formats that can be read and how to recognise them.  The best score wins, and
of equal scores the one registered first (`Registry.best?`).
-/

namespace IsoMedia

/-- A way to recognise a format. -/
structure FormatProbe where
  format : Format
  /-- How sure the head of a file and its name make, if they say anything. -/
  score? : List UInt8 → Option String → Option Nat

/-- A format that was recognised, and how surely. -/
structure Match where
  format : Format
  score : Nat
deriving DecidableEq

/-- The formats that are known. -/
structure Registry where
  /-- The formats that can be read, each once, with the name of what reads them. -/
  readers : List (Format × String) := []
  probes : List FormatProbe := []

namespace Registry

/-- Register a reader; an earlier one for the same format is replaced. -/
def addReader (r : Registry) (format : Format) (name : String) : Registry :=
  { r with readers := r.readers.filter (·.1 ≠ format) ++ [(format, name)] }

def addProbe (r : Registry) (probe : FormatProbe) : Registry :=
  { r with probes := r.probes ++ [probe] }

/-- Register all that there is: both formats have one reader and are recognised as MP4. -/
def addAll (r : Registry) : Registry :=
  ((r.addReader .mp4 "mp4").addReader .mov "mov").addProbe ⟨.mp4, Probe.scoreHead?⟩

/-- The registry of all that there is. -/
def full : Registry := addAll {}

/-- The readers, ordered by name. -/
def list (r : Registry) : List (Format × String) :=
  r.readers.mergeSort fun a b => decide (a.2 ≤ b.2)

/-- The better of two matches; the earlier one has to be beaten. -/
def better (best : Option Match) (new : Match) : Option Match :=
  match best with
  | none => some new
  | some b => if b.score < new.score then some new else some b

/-- The best match for the head of a file and its name. -/
def best? (r : Registry) (head : List UInt8) (filename : Option String) : Option Match :=
  r.probes.foldl
    (fun best p =>
      match p.score? head filename with
      | none => best
      | some score => better best ⟨p.format, score⟩)
    none

/-- A reader of the given format, with nothing open.  One reader serves both formats. -/
def create (r : Registry) (format : Format) : Except Error Demuxer :=
  if r.readers.any (·.1 = format) then .ok {}
  else .error (.formatNotFound (.noDemuxer format))

/-- How much of a file is looked at. -/
def headLength : Nat := 8192

/-- Recognise the format of an input by its head, and go back to its start. -/
def recognise (r : Registry) (input : Input) (filename : Option String) :
    Noted (Except Error Match × Input) := do
  let wanted := min ((input.size?).getD headLength) headLength
  match input.seek (.start 0) with
  | (.error e, input) => return (.error e, input)
  | (.ok _, input) =>
    match input.readExact wanted with
    | (.error e, input) => return (.error e, input)
    | (.ok head, input) =>
      match r.best? head.data.toList filename with
      | none => return (.error (.formatNotFound .unrecognised), input)
      | some m =>
        Noted.say .debug .registry s!"探测结果: {m.format.name} (置信度 {m.score})"
        let (outcome, input) := input.seek (.start 0)
        return (outcome.map fun _ => m, input)

/-- Recognise the format of an input and open it. -/
def openInput (r : Registry) (input : Input) (filename : Option String) : Checked Demuxer := do
  let (outcome, input) ← ExceptT.lift (r.recognise input filename)
  let m ← Checked.ofExcept outcome
  let d ← Checked.ofExcept (r.create m.format)
  let (outcome, d) ← ExceptT.lift (d.openInput input)
  Checked.ofExcept outcome
  return d

end Registry

end IsoMedia
