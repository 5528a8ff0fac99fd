import IsoMedia.Json.Value
import IsoMedia.Report

/-!
# The report for programs

A report as a JSON document.  What was not asked for, and what does not apply to a track, is left out.
-/

namespace IsoMedia.Report

/-- A member that is left out where there is no value. -/
def member? (name : String) (value : Option Json) : List (String × Json) :=
  (value.map fun j => (name, j)).toList

def natural (n : Nat) : Json := .number n

/-- What is particular to one type of media. -/
def mediaMembers : MetaData → List (String × Json)
  | .video v => [("width", natural v.width.toNat), ("height", natural v.height.toNat)]
  | .audio a =>
    [("sample_rate", natural a.sampleRate.toNat),
     ("channels", natural a.channelCount.toNat),
     ("bits_per_sample", natural a.sampleBits.toNat)]
  | .subtitle .. | .data .. => []

def trackDocument (t : Track) : Json :=
  .object <|
    [("index", natural t.number),
     ("track_id", natural t.trackId.toNat),
     ("codec_type", .text t.mediaType.name),
     ("codec_name", .text t.codec.name),
     ("sample_formats", .list (t.description.formats.map fun f => .text f.text)),
     ("timescale", natural t.timescale.toNat),
     ("duration", natural t.duration.toNat),
     ("language", .text t.language),
     ("nb_samples", natural t.sampleCount),
     ("nb_chunks", natural t.chunkCount),
     ("nb_key_frames", natural t.keyFrameCount)]
    ++ mediaMembers t.metaData
    ++ [("extra_data_size", natural t.metaData.extraData.length)]

mutual

/-- A box with the boxes inside it, if there are any. -/
def boxDocument : Node → Json
  | .mk type offset size _ children =>
    .object <|
      [("fourcc", .text type.text), ("offset", natural offset), ("size", natural size)]
      ++ match boxDocuments children with
        | [] => []
        | inner => [("children", .list inner)]

/-- Each box of a list. -/
def boxDocuments : List Node → List Json
  | [] => []
  | n :: ns => boxDocument n :: boxDocuments ns

end

def sampleDocument (s : SampleLine) : Json :=
  .object
    [("codec_type", .text s.mediaType.name),
     ("codec_name", .text s.codec.name),
     ("size", natural s.size),
     ("pts", .number s.presentationTime),
     ("dts", .number s.decodeTime)]

def totalsDocument (t : Totals) : Json :=
  .object [("total_samples", natural t.samples), ("total_bytes", natural t.bytes)]

/-- The report as a document. -/
def document (r : Report) : Json :=
  .object <|
    [("filename", .text r.filename),
     ("format_name", .text r.recognised.format.name),
     ("probe_score", natural r.recognised.score)]
    ++ member? "major_brand" (r.majorBrand.map fun brand => .text brand.text)
    ++ [("tracks", .list (r.tracks.map trackDocument)),
        ("warnings", .list (r.warnings.map fun w => .text w.text))]
    ++ member? "boxes" (r.boxes.map boxDocument)
    ++ member? "samples" (r.samples.map fun samples => .list (samples.map sampleDocument))
    ++ member? "summary" (r.totals.map totalsDocument)

end IsoMedia.Report
