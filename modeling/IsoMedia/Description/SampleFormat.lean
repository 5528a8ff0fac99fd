import IsoMedia.FourCc
import IsoMedia.Media

/-!
# Sample formats

The type code of a sample entry names its format, and most formats name a codec.
-/

namespace IsoMedia.SampleFormat

/-- The formats of video codecs. -/
def videoFormats : List (Codec × List FourCc) :=
  [(.h264,
    [.ofChars 'a' 'v' 'c' '1', .ofChars 'a' 'v' 'c' '2', .ofChars 'a' 'v' 'c' '3',
     .ofChars 'a' 'v' 'c' '4', .ofChars 'd' 'v' 'a' '1', .ofChars 'd' 'v' 'a' 'v',
     .ofChars 'A' 'V' 'i' 'n', .ofChars 'a' 'i' '5' 'p', .ofChars 'a' 'i' '5' 'q',
     .ofChars 'a' 'i' '5' '2', .ofChars 'a' 'i' '5' '3', .ofChars 'a' 'i' '5' '5',
     .ofChars 'a' 'i' '5' '6', .ofChars 'a' 'i' '1' 'p', .ofChars 'a' 'i' '1' 'q',
     .ofChars 'a' 'i' '1' '2', .ofChars 'a' 'i' '1' '3', .ofChars 'a' 'i' '1' '5',
     .ofChars 'a' 'i' '1' '6', .ofChars 'a' 'i' 'v' 'x', .ofChars 'x' 'a' 'l' 'g',
     .ofChars 'a' 'v' 'l' 'g']),
   (.hevc,
    [.ofChars 'h' 'v' 'c' '1', .ofChars 'h' 'e' 'v' '1', .ofChars 'd' 'v' 'h' 'e',
     .ofChars 'd' 'v' 'h' '1']),
   (.vp8,
    [.ofChars 'v' 'p' '0' '8']),
   (.vp9,
    [.ofChars 'v' 'p' '0' '9']),
   (.av1,
    [.ofChars 'a' 'v' '0' '1']),
   (.mpeg1Video,
    [.ofChars 'm' '1' 'v' ' ', .ofChars 'm' '1' 'v' '1', .ofChars 'm' 'p' 'e' 'g',
     .ofChars 'm' 'p' '1' 'v']),
   (.mpeg2Video,
    [.ofChars 'm' '2' 'v' '1', .ofChars 'h' 'd' 'v' '1', .ofChars 'h' 'd' 'v' '2',
     .ofChars 'h' 'd' 'v' '3', .ofChars 'h' 'd' 'v' '4', .ofChars 'h' 'd' 'v' '5',
     .ofChars 'h' 'd' 'v' '6', .ofChars 'h' 'd' 'v' '7', .ofChars 'h' 'd' 'v' '8',
     .ofChars 'x' 'd' 'v' '1', .ofChars 'x' 'd' 'v' '2', .ofChars 'x' 'd' 'v' '3',
     .ofChars 'x' 'd' 'v' '4', .ofChars 'x' 'd' 'v' '5', .ofChars 'x' 'd' 'v' '6',
     .ofChars 'x' 'd' 'v' '7', .ofChars 'x' 'd' 'v' '8', .ofChars 'x' 'd' 'v' '9',
     .ofChars 'x' 'd' 'v' 'a', .ofChars 'x' 'd' 'v' 'b', .ofChars 'x' 'd' 'v' 'c',
     .ofChars 'x' 'd' 'v' 'd', .ofChars 'x' 'd' 'v' 'e', .ofChars 'x' 'd' 'v' 'f',
     .ofChars 'm' 'x' '5' 'n', .ofChars 'm' 'x' '5' 'p', .ofChars 'm' 'x' '4' 'n',
     .ofChars 'm' 'x' '4' 'p', .ofChars 'm' 'x' '3' 'n', .ofChars 'm' 'x' '3' 'p']),
   (.mpeg4,
    [.ofChars 'm' 'p' '4' 'v', .ofChars 'D' 'I' 'V' 'X', .ofChars 'X' 'V' 'I' 'D',
     .ofChars '3' 'I' 'V' '2']),
   (.h263,
    [.ofChars 'h' '2' '6' '3', .ofChars 's' '2' '6' '3']),
   (.mjpeg,
    [.ofChars 'j' 'p' 'e' 'g', .ofChars 'm' 'j' 'p' 'a', .ofChars 'A' 'V' 'D' 'J',
     .ofChars 'A' 'V' 'R' 'n', .ofChars 'd' 'm' 'b' '1']),
   (.proRes,
    [.ofChars 'a' 'p' 'c' 'h', .ofChars 'a' 'p' 'c' 'n', .ofChars 'a' 'p' 'c' 's',
     .ofChars 'a' 'p' 'c' 'o', .ofChars 'a' 'p' '4' 'h', .ofChars 'a' 'p' '4' 'x']),
   (.png,
    [.ofChars 'p' 'n' 'g' ' ', .ofChars 'M' 'N' 'G' ' ']),
   (.rawVideo,
    [.ofChars 'r' 'a' 'w' ' ', .ofChars 'y' 'u' 'v' '2', .ofChars '2' 'v' 'u' 'y',
     .ofChars 'y' 'u' 'v' 's', .ofChars 'L' '5' '5' '5', .ofChars 'L' '5' '6' '5',
     .ofChars 'B' '5' '6' '5', .ofChars '2' '4' 'B' 'G', .ofChars 'B' 'G' 'R' 'A',
     .ofChars 'R' 'G' 'B' 'A', .ofChars 'A' 'B' 'G' 'R', .ofChars 'b' '1' '6' 'g',
     .ofChars 'b' '4' '8' 'r', .ofChars 'b' '6' '4' 'a', .ofChars 'W' 'R' 'A' 'W'])]

/-- The formats of audio codecs. -/
def audioFormats : List (Codec × List FourCc) :=
  [(.aac,
    [.ofChars 'm' 'p' '4' 'a']),
   (.mp2,
    [.ofChars '.' 'm' 'p' '2']),
   (.mp3,
    [.ofChars '.' 'm' 'p' '3', .ofChars 'm' 'p' '3' ' ']),
   (.opus,
    [.ofChars 'O' 'p' 'u' 's']),
   (.flac,
    [.ofChars 'f' 'L' 'a' 'C']),
   (.alac,
    [.ofChars 'a' 'l' 'a' 'c']),
   (.ac3,
    [.ofChars 'a' 'c' '-' '3', .ofChars 's' 'a' 'c' '3']),
   (.eac3,
    [.ofChars 'e' 'c' '-' '3']),
   (.dts,
    [.ofChars 'd' 't' 's' 'c', .ofChars 'd' 't' 's' 'h', .ofChars 'd' 't' 's' 'l',
     .ofChars 'd' 't' 's' 'e', .ofChars 'D' 'T' 'S' ' ']),
   (.amrNarrow,
    [.ofChars 's' 'a' 'm' 'r']),
   (.amrWide,
    [.ofChars 's' 'a' 'w' 'b']),
   (.pcmS16be,
    [.ofChars 't' 'w' 'o' 's', .ofChars 'N' 'O' 'N' 'E']),
   (.pcmS16le,
    [.ofChars 's' 'o' 'w' 't']),
   (.pcmS24be,
    [.ofChars 'i' 'n' '2' '4']),
   (.pcmS32be,
    [.ofChars 'i' 'n' '3' '2']),
   (.pcmF32be,
    [.ofChars 'f' 'l' '3' '2']),
   (.pcmF64be,
    [.ofChars 'f' 'l' '6' '4']),
   (.pcmALaw,
    [.ofChars 'a' 'l' 'a' 'w']),
   (.pcmMuLaw,
    [.ofChars 'u' 'l' 'a' 'w'])]

/-- The formats of subtitle codecs. -/
def subtitleFormats : List (Codec × List FourCc) :=
  [(.movText,
    [.ofChars 't' 'x' '3' 'g', .ofChars 't' 'e' 'x' 't']),
   (.eia608,
    [.ofChars 'c' '6' '0' '8'])]

/-- The formats of timed data. -/
def dataFormats : List (Codec × List FourCc) :=
  [(.binData,
    [.ofChars 'g' 'p' 'm' 'd'])]

/-- Every format that is known, by codec. -/
def all : List (Codec × List FourCc) :=
  videoFormats ++ audioFormats ++ subtitleFormats ++ dataFormats

/-- The codec that a sample format names. -/
def codec? (format : FourCc) : Option Codec :=
  (all.find? fun entry => entry.2.contains format).map Prod.fst

end IsoMedia.SampleFormat
