/-!
# Media types and codecs

Every codec belongs to exactly one media type (`Codec.mediaType`).
-/

namespace IsoMedia

/-- What a track carries. -/
inductive MediaType where
  | video
  | audio
  | subtitle
  | data
deriving DecidableEq

namespace MediaType

/-- The word used in file names and reports. -/
def name : MediaType → String
  | video => "video"
  | audio => "audio"
  | subtitle => "subtitle"
  | data => "data"

/-- The word shown in log lines. -/
def label : MediaType → String
  | video => "视频"
  | audio => "音频"
  | subtitle => "字幕"
  | data => "数据"

end MediaType

/-- A coding of media, whatever the container. -/
inductive Codec where
  | h264 | hevc | vp8 | vp9 | av1 | mpeg1Video | mpeg2Video | mpeg4 | h263 | mjpeg | proRes
  | png | rawVideo
  | aac | mp3 | mp2 | opus | flac | alac | ac3 | eac3 | dts | amrNarrow | amrWide
  | pcmS16be | pcmS16le | pcmS24be | pcmS32be | pcmF32be | pcmF64be | pcmALaw | pcmMuLaw
  | movText | eia608
  | binData
deriving DecidableEq

namespace Codec

def mediaType : Codec → MediaType
  | h264 | hevc | vp8 | vp9 | av1 | mpeg1Video | mpeg2Video | mpeg4 | h263 | mjpeg | proRes
  | png | rawVideo => .video
  | aac | mp3 | mp2 | opus | flac | alac | ac3 | eac3 | dts | amrNarrow | amrWide
  | pcmS16be | pcmS16le | pcmS24be | pcmS32be | pcmF32be | pcmF64be | pcmALaw | pcmMuLaw => .audio
  | movText | eia608 => .subtitle
  | binData => .data

/-- The name shown in reports. -/
def name : Codec → String
  | h264 => "h264"
  | hevc => "hevc"
  | vp8 => "vp8"
  | vp9 => "vp9"
  | av1 => "av1"
  | mpeg1Video => "mpeg1video"
  | mpeg2Video => "mpeg2video"
  | mpeg4 => "mpeg4"
  | h263 => "h263"
  | mjpeg => "mjpeg"
  | proRes => "prores"
  | png => "png"
  | rawVideo => "rawvideo"
  | aac => "aac"
  | mp3 => "mp3"
  | mp2 => "mp2"
  | opus => "opus"
  | flac => "flac"
  | alac => "alac"
  | ac3 => "ac3"
  | eac3 => "eac3"
  | dts => "dts"
  | amrNarrow => "amr_nb"
  | amrWide => "amr_wb"
  | pcmS16be => "pcm_s16be"
  | pcmS16le => "pcm_s16le"
  | pcmS24be => "pcm_s24be"
  | pcmS32be => "pcm_s32be"
  | pcmF32be => "pcm_f32be"
  | pcmF64be => "pcm_f64be"
  | pcmALaw => "pcm_alaw"
  | pcmMuLaw => "pcm_mulaw"
  | movText => "mov_text"
  | eia608 => "eia_608"
  | binData => "bin_data"

end Codec

end IsoMedia
