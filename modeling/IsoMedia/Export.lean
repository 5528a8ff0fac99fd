import IsoMedia.Codec.Aac
import IsoMedia.Demuxer
import IsoMedia.Files

/-!
# Exporting elementary streams

The first track of every codec is exported into a file of its own, in a form that can be played: H.264
and H.265 as byte streams, AAC with a header before every frame, anything else as it is.  A sample goes
to the output of its codec (`Exporter.write`).  Outputs of one path write into one file
(`ExportFile.laid`).
-/

namespace IsoMedia

/-- How samples are changed on their way out. -/
inductive Conversion where
  | avc (lengthSize : Nat)
  | hevc (lengthSize : Nat)
  | adts (config : Aac.AudioConfig)
  | plain
deriving DecidableEq

/-- Why a track cannot be exported. -/
inductive ExportFault where
  | noLengthSize (codec : Codec)
  | audioConfig (cause : Error)
deriving DecidableEq

def ExportFault.message : ExportFault → String
  | noLengthSize codec => s!"{codec.name} 轨道缺少 NAL 长度前缀大小"
  | audioConfig cause => s!"解析 AAC AudioSpecificConfig 失败: {cause.message}"

namespace Conversion

/-- The conversion that a track needs. -/
def ofMetaData (m : MetaData) : Except ExportFault Conversion :=
  match m with
  | .video v =>
    let framed (conversion : Nat → Conversion) : Except ExportFault Conversion :=
      match v.lengthSize with
      | some n => .ok (conversion n)
      | none => .error (.noLengthSize v.codec)
    if v.codec = .h264 then framed .avc
    else if v.codec = .hevc then framed .hevc
    else .ok .plain
  | .audio a =>
    if a.codec = .aac then
      match Aac.AudioConfig.ofBytes a.extraData with
      | .ok config => .ok (.adts config)
      | .error e => .error (.audioConfig e)
    else .ok .plain
  | .subtitle .. | .data .. => .ok .plain

/-- A sample as it is written. -/
def apply (c : Conversion) (extraData sample : List UInt8) : Except Error (List UInt8) :=
  match c with
  | .avc lengthSize => Avc.toAnnexB lengthSize extraData sample
  | .hevc lengthSize => Hevc.toAnnexB lengthSize extraData sample
  | .adts config => (config.headerFor sample).map fun header => header ++ sample
  | .plain => .ok sample

end Conversion

/-- A file that is written. -/
structure ExportFile where
  codec : Codec
  path : String
  conversion : Conversion
  extraData : List UInt8
  /-- The samples written so far, as they are written. -/
  pieces : Array (List UInt8) := #[]

namespace ExportFile

def content (f : ExportFile) : List UInt8 := f.pieces.toList.flatten

/-- The ending of the files of a codec. -/
def ending : Codec → String
  | .h264 => "h264"
  | .hevc => "h265"
  | .aac => "aac"
  | .mp3 => "mp3"
  | .ac3 => "ac3"
  | .eac3 => "eac3"
  | _ => "bin"

/-- The name of the file for a track, behind a stem. -/
def nameFor (stem : String) (t : Track) : String :=
  s!"{stem}.{t.mediaType.name}.{ending t.codec}"

/-- Bytes written over others, from the first one on. -/
def overlay (content under : List UInt8) : List UInt8 := content ++ under.drop content.length

/-- What a path leads to once all outputs are written.  Each writes from the start of its file on, so
that of those with the same path a later one writes over the earlier ones. -/
def laid (files : List ExportFile) (path : String) : List UInt8 :=
  (files.filter (·.path = path)).foldl (fun under f => overlay f.content under) []

end ExportFile

/-- The files that are written, at most one for each codec. -/
structure Exporter where
  files : List ExportFile := []

namespace Exporter

def fileFor? (e : Exporter) (codec : Codec) : Option ExportFile :=
  e.files.find? (·.codec = codec)

/-- Open a file for a track, unless there is one for its codec or it cannot be converted. -/
def openFor (directory stem : String) (e : Exporter) (t : Track) : Noted Exporter := do
  let codec := t.codec
  if (e.fileFor? codec).isSome then
    Noted.say .warn .exporter
      s!"轨道 #{t.number} 与之前的轨道编解码器相同 ({codec.name}), 不导出"
    return e
  else match Conversion.ofMetaData t.metaData with
    | .error fault =>
      Noted.say .warn .exporter s!"轨道 #{t.number} 无法导出: {fault.message}"
      return e
    | .ok conversion =>
      let path := Files.pathIn directory (ExportFile.nameFor stem t)
      return ⟨e.files ++ [{ codec, path, conversion, extraData := t.metaData.extraData }]⟩

/-- Open files for tracks. -/
def start (directory stem : String) (tracks : List Track) : Noted Exporter :=
  tracks.foldlM (openFor directory stem) {}

/-- Change the file for a codec. -/
def update (files : List ExportFile) (codec : Codec) (piece : List UInt8) : List ExportFile :=
  match files with
  | [] => []
  | f :: fs =>
    if f.codec = codec then { f with pieces := f.pieces.push piece } :: fs
    else f :: update fs codec piece

/-- Write a sample to the file for its codec; without one it is left out. -/
def write (e : Exporter) (codec : Codec) (sample : List UInt8) : Except Error Exporter :=
  match e.fileFor? codec with
  | none => .ok e
  | some f => (f.conversion.apply f.extraData sample).map fun piece =>
      ⟨update e.files codec piece⟩

/-- Write delivered samples until one cannot be converted. -/
def writeAll (e : Exporter) : List Delivery → Exporter × Option Error
  | [] => (e, none)
  | d :: ds =>
    match e.write d.codec d.data.data.toList with
    | .error fault => (e, some fault)
    | .ok e => e.writeAll ds

/-- The paths that were written and the number of samples in each, in order of the paths. -/
def written (e : Exporter) : List (String × Nat) :=
  (e.files.map fun f => (f.path, f.pieces.size)).mergeSort fun a b =>
    decide (a.1 < b.1) || (a.1 = b.1 && decide (a.2 ≤ b.2))

end Exporter

end IsoMedia
