import IsoMedia.Json.Reader

/-!
# Settings of the log

What is logged, and where to; read from JSON by `LogSettings.ofJson`.
-/

namespace IsoMedia

/-- What is logged, and where to. -/
structure LogSettings where
  /-- The rules of the log filter. -/
  level : String := "info"
  /-- The directory of log files; without one there are none. -/
  directory : Option String := none
  /-- How the names of log files start. -/
  stem : String := "avkit"
  /-- How many days a log file is kept. -/
  retentionDays : Int := 30
  /-- Whether the log files of past days are compressed. -/
  compressHistory : Bool := true
deriving DecidableEq

namespace LogSettings

/-- The settings by name, in their order. -/
def members : List (Json.Member LogSettings) :=
  [⟨"level", fun s => do return { s with level := ← Json.string }⟩,
   ⟨"directory", fun s => do return { s with directory := ← Json.optional Json.string }⟩,
   ⟨"file_prefix", fun s => do return { s with stem := ← Json.string }⟩,
   ⟨"retention_days", fun s => do return { s with retentionDays := ← Json.integer }⟩,
   ⟨"compress_history", fun s => do return { s with compressHistory := ← Json.boolean }⟩]

/-- Read settings; what is not given stays as it is by default. -/
def ofJson (text : String) : Except Json.Fault LogSettings :=
  (Json.record members {}).run text

end LogSettings

end IsoMedia
