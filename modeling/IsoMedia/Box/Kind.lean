import IsoMedia.FourCc

/-!
# The kinds of boxes

`BoxKind` is the closed set of boxes that are understood.  A kind may be a container, whose payload
holds further boxes, and it may be critical, so that damage to it makes the whole file useless.
-/

namespace IsoMedia

/-- A kind of box that is understood, named by its type code. -/
inductive BoxKind where
  | ftyp
  | free
  | skip
  | mdat
  | moov
  | mvhd
  | udta
  | trak
  | tkhd
  | tref
  /-- One of the reference types inside `tref`. -/
  | trackReference
  | trgr
  | msrc
  | edts
  | elst
  | mdia
  | mdhd
  | hdlr
  | elng
  | minf
  | vmhd
  | smhd
  | hmhd
  | sthd
  | nmhd
  | dinf
  | dref
  | url
  | urn
  | stbl
  | stsd
  | stts
  | ctts
  | cslg
  | stsc
  | stsz
  | stz2
  | stco
  | co64
  | stss
  | stsh
  | padb
  | stdp
  | sdtp
  | subs
  | saiz
  | saio
  | sbgp
  | sgpd
deriving DecidableEq

namespace BoxKind

/-- The type codes that are understood, each with its kind. -/
def codes : List (FourCc × BoxKind) :=
  [(.ofChars 'f' 't' 'y' 'p', ftyp),
   (.ofChars 'f' 'r' 'e' 'e', free),
   (.ofChars 's' 'k' 'i' 'p', skip),
   (.ofChars 'm' 'd' 'a' 't', mdat),
   (.ofChars 'm' 'o' 'o' 'v', moov),
   (.ofChars 'm' 'v' 'h' 'd', mvhd),
   (.ofChars 'u' 'd' 't' 'a', udta),
   (.ofChars 't' 'r' 'a' 'k', trak),
   (.ofChars 't' 'k' 'h' 'd', tkhd),
   (.ofChars 't' 'r' 'e' 'f', tref),
   (.ofChars 'h' 'i' 'n' 't', trackReference),
   (.ofChars 'c' 'd' 's' 'c', trackReference),
   (.ofChars 'f' 'o' 'n' 't', trackReference),
   (.ofChars 'h' 'i' 'n' 'd', trackReference),
   (.ofChars 'v' 'd' 'e' 'p', trackReference),
   (.ofChars 'v' 'p' 'l' 'x', trackReference),
   (.ofChars 's' 'u' 'b' 't', trackReference),
   (.ofChars 'c' 'h' 'a' 'p', trackReference),
   (.ofChars 't' 'r' 'g' 'r', trgr),
   (.ofChars 'm' 's' 'r' 'c', msrc),
   (.ofChars 'e' 'd' 't' 's', edts),
   (.ofChars 'e' 'l' 's' 't', elst),
   (.ofChars 'm' 'd' 'i' 'a', mdia),
   (.ofChars 'm' 'd' 'h' 'd', mdhd),
   (.ofChars 'h' 'd' 'l' 'r', hdlr),
   (.ofChars 'e' 'l' 'n' 'g', elng),
   (.ofChars 'm' 'i' 'n' 'f', minf),
   (.ofChars 'v' 'm' 'h' 'd', vmhd),
   (.ofChars 's' 'm' 'h' 'd', smhd),
   (.ofChars 'h' 'm' 'h' 'd', hmhd),
   (.ofChars 's' 't' 'h' 'd', sthd),
   (.ofChars 'n' 'm' 'h' 'd', nmhd),
   (.ofChars 'd' 'i' 'n' 'f', dinf),
   (.ofChars 'd' 'r' 'e' 'f', dref),
   (.ofChars 'u' 'r' 'l' ' ', url),
   (.ofChars 'u' 'r' 'n' ' ', urn),
   (.ofChars 's' 't' 'b' 'l', stbl),
   (.ofChars 's' 't' 's' 'd', stsd),
   (.ofChars 's' 't' 't' 's', stts),
   (.ofChars 'c' 't' 't' 's', ctts),
   (.ofChars 'c' 's' 'l' 'g', cslg),
   (.ofChars 's' 't' 's' 'c', stsc),
   (.ofChars 's' 't' 's' 'z', stsz),
   (.ofChars 's' 't' 'z' '2', stz2),
   (.ofChars 's' 't' 'c' 'o', stco),
   (.ofChars 'c' 'o' '6' '4', co64),
   (.ofChars 's' 't' 's' 's', stss),
   (.ofChars 's' 't' 's' 'h', stsh),
   (.ofChars 'p' 'a' 'd' 'b', padb),
   (.ofChars 's' 't' 'd' 'p', stdp),
   (.ofChars 's' 'd' 't' 'p', sdtp),
   (.ofChars 's' 'u' 'b' 's', subs),
   (.ofChars 's' 'a' 'i' 'z', saiz),
   (.ofChars 's' 'a' 'i' 'o', saio),
   (.ofChars 's' 'b' 'g' 'p', sbgp),
   (.ofChars 's' 'g' 'p' 'd', sgpd)]

/-- The kind of the boxes with the given type code, if they are understood. -/
def ofFourCc? (type : FourCc) : Option BoxKind := (codes.find? (·.1 = type)).map Prod.snd

/-- Whether the payload holds further boxes. -/
def isContainer : BoxKind → Bool
  | moov | trak | tref | trgr | edts | mdia | minf | dinf | dref | stbl => true
  | _ => false

/-- Whether damage to the box stops the opening of the file.  These are the boxes that lead to the
sample tables, and the headers and tables that the sample index is made from. -/
def isCritical : BoxKind → Bool
  | moov | mvhd | trak | tkhd | mdia | mdhd | hdlr | minf | stbl | stsd | stts | ctts | stsc
  | stsz | stz2 | stco | co64 | stss => true
  | _ => false

end BoxKind

end IsoMedia
