import IsoMedia.Calendar
import IsoMedia.Files.Directory
import IsoMedia.Log.Settings

/-!
# Keeping the log directory

Every day has a log file, named by `LogName.text`.  Files that are too old are removed and those of past
days are compressed; a file whose name is not that of a log is never touched (`Housekeeping.choreFor`).
What compressing makes of a content is left open: it is the function `pack` of `Housekeeping.compress`.
-/

namespace IsoMedia

/-- The name of a log file. -/
structure LogName where
  date : Date
  /-- Whether the file is compressed. -/
  isPacked : Bool
deriving DecidableEq

namespace LogName

/-- How the name of a compressed file ends. -/
def packedEnding : String := ".gz"

/-- How a name is written, behind a stem. -/
def text (stem : String) (n : LogName) : String :=
  s!"{stem}.{n.date.text}.log" ++ if n.isPacked then packedEnding else ""

/-- The date in a name, which takes ten bytes. -/
def date? (cs : List Char) : Option Date :=
  if (String.ofList cs).utf8ByteSize = 10 then Date.ofChars? cs else none

/-- What a name tells that starts with the given stem. -/
def ofText? (stem name : String) : Option LogName := do
  let behind ← (stem.toList ++ ['.']).isPrefixOf? name.toList
  match ['.', 'l', 'o', 'g'].isSuffixOf? behind with
  | some date => return ⟨← date? date, false⟩
  | none =>
    let date ← ['.', 'l', 'o', 'g', '.', 'g', 'z'].isSuffixOf? behind
    return ⟨← date? date, true⟩

end LogName

/-- What is to be done with a file. -/
inductive Chore where
  | keep
  | remove
  /-- Put into a compressed file beside it, and removed, unless there is such a file. -/
  | compress
deriving DecidableEq

/-- What decides about the files of a log directory. -/
structure Housekeeping where
  stem : String
  compressHistory : Bool
  /-- The number of today's day. -/
  today : Int
  /-- The number of the first day whose files are kept. -/
  cutoff : Int

namespace Housekeeping

/-- The rules that follow from settings on a day, if there is a day so long ago. -/
def ofSettings? (s : LogSettings) (today : Date) : Option Housekeeping :=
  (today.dayBefore? s.retentionDays).map fun cutoff =>
    ⟨s.stem, s.compressHistory, today.dayNumber, cutoff⟩

/-- What is to be done with the file of the given name. -/
def choreFor (h : Housekeeping) (name : String) : Chore :=
  match LogName.ofText? h.stem name with
  | none => .keep
  | some n =>
    let day := n.date.dayNumber
    if day < h.cutoff then .remove
    else if h.compressHistory ∧ n.isPacked = false ∧ day < h.today then .compress
    else .keep

section

variable {m : Type → Type} [Monad m] [Files m] (pack : ByteArray → ByteArray)

/-- Put a file into a compressed file of the given path, and remove it. -/
def compress (path packedPath : String) : ExceptT FileFault m Unit := do
  let content ← Files.read path
  Files.write packedPath (pack content)
  Files.remove path

/-- Do what is to be done with the file of the given name.  Whether an old file can be removed does not
matter. -/
def visit (h : Housekeeping) (directory name : String) : ExceptT FileFault m Unit := do
  let path := Files.pathIn directory name
  let packedPath := path ++ LogName.packedEnding
  match h.choreFor name with
  | .keep => return
  | .remove =>
    let _ ← ExceptT.lift (Files.remove path).run
  | .compress => unless ← ExceptT.lift (Files.isThere packedPath) do compress pack path packedPath

/-- Go through the files of the given names in their order, up to one that cannot be compressed. -/
def sweep (h : Housekeeping) (directory : String) (order : List String) :
    ExceptT FileFault m Unit :=
  order.forM (h.visit pack directory)

/-- Go through the files of a directory. -/
def cleanUp (h : Housekeeping) (directory : String) : ExceptT FileFault m Unit := do
  h.sweep pack directory (← Files.names directory)

end

end Housekeeping

end IsoMedia
