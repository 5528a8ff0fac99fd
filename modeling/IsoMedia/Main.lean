import IsoMedia.Log.Gzip
import IsoMedia.Log.Line
import IsoMedia.Program
import Std.Time.Format

/-!
# The program on its host

Runs the program on the files of the host.
-/

namespace IsoMedia.Host

/-- What a fault of the host means for work on files. -/
def faultOf : IO.Error → FileFault
  | .noFileOrDirectory .. => .notFound
  | .alreadyExists .. => .alreadyThere
  | e => .other (toString e)

/-- Work on the files of the host. -/
def work {α : Type} (x : IO α) : ExceptT FileFault IO α :=
  ExceptT.mk do
    match ← x.toBaseIO with
    | .ok a => return .ok a
    | .error e => return .error (faultOf e)

/-- Whether there is something at a path. -/
def isThere (path : String) : IO Bool := do
  try
    let _ ← IO.FS.realPath path
    return true
  catch _ => return false

/-- The names in a directory. -/
def namesIn (directory : String) : IO (List String) := do
  let entries ← (← IO.FS.realPath directory).readDir
  return (entries.map (·.fileName)).toList

instance : Files IO where
  read path := work (IO.FS.readBinFile path)
  write path content := work (IO.FS.writeBinFile path content)
  touch path := work (IO.FS.withFile path .append fun _ => return ())
  remove path := work (IO.FS.removeFile path)
  makeDirectories path := work (if path = "" then return () else IO.FS.createDirAll path)
  names path := work (namesIn path)
  isThere path := isThere path

/-- The day and the time at which the program runs. -/
def now : IO (Option Date × Clock) := do
  let t ← Std.Time.PlainDateTime.now
  let date := Date.of? t.date.year t.date.month.toNat t.date.day.toNat
  let clock : Clock :=
    ⟨t.time.hour.toNat, t.time.minute.toNat, t.time.second.toNat,
      t.time.nanosecond.toNat / 1000000⟩
  return (date, clock)

/-- Tell something on the console, and in the log file if it is a note. -/
def tell (logFile : Option String) : Saying → IO Unit
  | .line text => IO.eprintln text
  | .note n => do
    let (today, clock) ← now
    IO.eprintln (n.consoleLine clock)
    if let (some path, some today) := (logFile, today) then
      IO.FS.withFile path .append fun h => h.putStrLn (n.fileLine today clock)

end IsoMedia.Host

open IsoMedia in
/-- Run the program on the host. -/
def main (arguments : List String) : IO UInt32 := do
  match (← Host.now).1 with
  | none =>
    IO.eprintln "今天的日期超出范围"
    return 101
  | some today =>
    let ending ← Program.run arguments ⟨today, ← IO.getEnv "AVKIT_LOG", Gzip.pack⟩
    IO.print ending.output
    for saying in ending.sayings do Host.tell ending.logFile saying
    return ending.code.toUInt32
