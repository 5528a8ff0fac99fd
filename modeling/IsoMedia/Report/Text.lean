import IsoMedia.Number.Rounding
import IsoMedia.Report

/-!
# The report for people

The lines of a report, section by section.
-/

namespace IsoMedia

/-- A text filled up with blanks to at least so many characters. -/
def filled (width : Nat) (s : String) : String :=
  s ++ String.ofList (List.replicate (width - s.length) ' ')

namespace Report

/-- Lines between the marks of a section, and an empty line behind it. -/
def block (opening closing : String) (lines : List String) : List String :=
  s!"[{opening}]" :: lines ++ [s!"[/{closing}]", ""]

/-- The file as a whole. -/
def formatLines (r : Report) : List String :=
  block "FORMAT" "FORMAT" <|
    [s!"  文件名       : {r.filename}",
     s!"  格式名称     : {r.recognised.format.name}",
     s!"  探测置信度   : {r.recognised.score}"]
    ++ (r.majorBrand.map fun brand => s!"  主品牌       : {brand.text}").toList
    ++ [s!"  轨道数量     : {r.tracks.length}"]

/-- How long a track lasts, which only a track with a clock tells. -/
def durationLines (t : Track) : List String :=
  if t.timescale = 0 then []
  else
    let seconds := doubleQuotient t.duration.toNat t.timescale.toNat
    [s!"  时长         : {seconds.fixed 3} 秒"]

/-- What is particular to one type of media. -/
def mediaLines : MetaData → List String
  | .video v => [s!"  分辨率       : {v.width}x{v.height}"]
  | .audio a =>
    [s!"  采样率       : {a.sampleRate} Hz",
     s!"  声道数       : {a.channelCount}",
     s!"  采样位数     : {a.sampleBits}"]
  | .subtitle .. | .data .. => []

/-- One track. -/
def trackLines (t : Track) : List String :=
  let formats := String.intercalate ", " (t.description.formats.map FourCc.text)
  block s!"TRACK #{t.number}" "TRACK" <|
    [s!"  track_ID     : {t.trackId}",
     s!"  类型         : {t.mediaType.name}",
     s!"  编解码器     : {t.codec.name}",
     s!"  采样格式     : {formats}",
     s!"  时间刻度     : {t.timescale}"]
    ++ durationLines t
    ++ [s!"  语言         : {t.language}",
        s!"  采样/块/关键帧: {t.sampleCount}/{t.chunkCount}/{t.keyFrameCount}"]
    ++ mediaLines t.metaData
    ++ [s!"  附加数据     : {t.metaData.extraData.length} 字节"]

def warningLines : List ParseWarning → List String
  | [] => []
  | ws => block "WARNINGS" "WARNINGS" (ws.map fun w => s!"  {w.text}")

mutual

/-- A box and the boxes inside it, each level two blanks further in. -/
def boxLines (depth : Nat) : Node → List String
  | .mk type offset size _ children =>
    (filled (2 * depth) "" ++ s!"{type.text} @{offset} ({size} 字节)")
      :: boxesLines (depth + 1) children

/-- Boxes one after the other. -/
def boxesLines (depth : Nat) : List Node → List String
  | [] => []
  | n :: ns => boxLines depth n ++ boxesLines depth ns

end

/-- The sample of the given number among those delivered. -/
def sampleLine (number : Nat) (s : SampleLine) : String :=
  s!"  #{filled 6 (toString number)} {filled 8 s.mediaType.name} {filled 10 s.codec.name} size={filled 8 (toString s.size)} pts={filled 10 (toString s.presentationTime)} dts={s.decodeTime}"

def totalLines (t : Totals) : List String :=
  let kilobytes := doubleQuotient t.bytes 1024
  block "SUMMARY" "SUMMARY"
    [s!"  采样总数     : {t.samples}",
     s!"  数据总量     : {t.bytes} 字节 ({kilobytes.fixed 2} KB)"]

/-- The lines of a report. -/
def lines (r : Report) : List String :=
  r.formatLines
    ++ r.tracks.flatMap trackLines
    ++ warningLines r.warnings
    ++ (r.boxes.map fun root =>
      block "BOXES" "BOXES" (boxesLines 1 root.children)).getD []
    ++ (r.samples.map fun samples =>
      block "SAMPLES" "SAMPLES" (samples.mapIdx sampleLine)).getD []
    ++ (r.totals.map totalLines).getD []

/-- The report as a text of complete lines. -/
def text (r : Report) : String := String.join (r.lines.map (· ++ "\n"))

end Report

end IsoMedia
