import IsoMedia.CommandLine
import IsoMedia.Export
import IsoMedia.Report.Document
import IsoMedia.Report.Text
import IsoMedia.Run

/-!
# Looking at a file

`Session.run` looks at a file as its user asks for: it recognises and opens the file, reads and exports
its samples where that is asked for, and writes a report.  What goes wrong is told in one line.
-/

namespace IsoMedia

/-- What reading and exporting leave behind. -/
structure Outcome where
  /-- Why the run was stopped, if it was. -/
  fault : Option String
  /-- What is printed. -/
  output : String
  /-- What is told about exported files. -/
  exported : List String
  /-- The files that are exported, once the run has come so far. -/
  exporter : Option Exporter

/-- A run that was stopped by an error in some step. -/
def Outcome.stopped (exporter : Option Exporter) (step : String) (e : Error) : Outcome :=
  { fault := some s!"{step}: {e.message}", output := "", exported := [], exporter }

namespace Session

/-- The last part of a path. -/
def lastPart? (path : String) : Option (List Char) :=
  let parts := (path.toList.splitOn '/').filter fun p => p ≠ [] ∧ p ≠ ['.']
  match parts.getLast? with
  | some ['.', '.'] => none
  | part => part

/-- The name of a file without its last ending, which does not start the name. -/
def stemOf (path : String) : String :=
  match lastPart? path with
  | none => "output"
  | some name =>
    let front := (name.reverse.dropWhile (· ≠ '.')).drop 1
    String.ofList (if front = [] then name else front.reverse)

/-- What is reported of an opened file. -/
def reportOf (o : Options) (m : Match) (d : Demuxer) (delivered : Option (List Delivery)) :
    Report :=
  { filename := o.input
    recognised := m
    majorBrand := d.fileType?.map (·.majorBrand)
    tracks := d.tracks
    warnings := d.warnings.toList
    boxes := if o.boxes then d.root? else none
    samples := if o.samples then delivered.map (·.map SampleLine.ofDelivery) else none
    totals := delivered.map Totals.ofDeliveries }

/-- The end of a run that went well. -/
def finished (o : Options) (report : Report) (exporter : Option Exporter) : Outcome :=
  { fault := none
    output := if o.json then report.document.pretty ++ "\n" else report.text
    exported := ((exporter.map Exporter.written).getD []).map fun (path, samples) =>
      s!"已导出 {path} ({samples} 个采样)"
    exporter }

/-- Read the samples of an opened file and export them where that is asked for. -/
def readSamples (o : Options) (m : Match) (d : Demuxer) (exporter : Option Exporter) : Outcome :=
  let (delivered, stop, d) := d.readAll
  let delivered := delivered.toList
  let written := exporter.map (·.writeAll delivered)
  let exporter := written.map (·.1)
  match written.bind (·.2), stop with
  | some e, _ => .stopped exporter "导出基本流失败" e
  | none, .endOfStream => finished o (reportOf o m d (some delivered)) exporter
  | none, e => .stopped exporter "读取采样失败" e

/-- What comes of an opened file.  Its samples are read if they are shown or exported. -/
def conclude (o : Options) (m : Match) (d : Demuxer) (exporter : Option Exporter) : Outcome :=
  if o.samples || exporter.isSome then readSamples o m d exporter
  else finished o (reportOf o m d none) exporter

/-- Recognise and open a file with the given content. -/
def openContent (o : Options) (content : ByteArray) : Noted (Except String (Match × Demuxer)) := do
  let (outcome, input) ← Registry.full.recognise (Input.ofBytes content) (some o.input)
  match outcome with
  | .error e => return .error s!"无法识别文件格式: {e.message}"
  | .ok m =>
    Noted.say .info .report s!"格式: {m.format.name} (置信度: {m.score})"
    let closed : Demuxer := { options := ⟨if o.strict then .fail else .skip⟩ }
    let (outcome, d) ← closed.openInput input
    match outcome with
    | .error e => return .error s!"无法解析文件头部: {e.message}"
    | .ok () => return .ok (m, d)

section

variable {m : Type → Type} [Monad m] [Files m]

/-- Make the directory of exports, and empty files in it. -/
def openExports (directory stem : String) (tracks : List Track) : Run m Exporter := do
  Run.work (fun fault => .refused s!"创建导出目录失败, path={directory}: {fault.message}")
    (Files.makeDirectories directory)
  let exporter ← Run.noting (Exporter.start directory stem tracks)
  exporter.files.forM fun f =>
    Run.work (fun fault => .refused s!"创建导出文件失败, path={f.path}: {fault.message}")
      (Files.write f.path .empty)
  return exporter

/-- Fill the exported files. -/
def fillExports (exporter : Exporter) : Run m Unit :=
  exporter.files.forM fun f =>
    Run.work (fun fault => .refused s!"写入导出文件失败, path={f.path}: {fault.message}")
      (Files.write f.path ⟨(ExportFile.laid exporter.files f.path).toArray⟩)

/-- Look at a file, and hand over what is printed. -/
def run (o : Options) : Run m String := do
  let content ← Run.work
    (fun fault => .refused s!"无法打开文件 '{o.input}': {(Error.io fault.message).message}")
    (Files.read o.input)
  let (recognised, demuxer) ← Run.orStop Stop.refused (← Run.noting (openContent o content))
  let exporter ← o.extractTo.mapM fun directory =>
    openExports directory (stemOf o.input) demuxer.tracks
  let outcome := conclude o recognised demuxer exporter
  outcome.exporter.forM fillExports
  match outcome.fault with
  | some reason => throw (.refused reason)
  | none =>
    Run.sayLines outcome.exported
    return outcome.output

end

end Session

end IsoMedia
