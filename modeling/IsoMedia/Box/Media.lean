import IsoMedia.Box.Kind
import IsoMedia.Box.Movie
import IsoMedia.Text.Utf8

/-!
# Media header, handler, information header and data references

The boxes that say what a track carries and where its data is.
-/

namespace IsoMedia

/-- The clock, duration and language of a track's media. -/
structure MediaHeader where
  full : VersionFlags
  creationTime : UInt64
  modificationTime : UInt64
  /-- Ticks per second. -/
  timescale : UInt32
  duration : UInt64
  /-- A language code of three letters. -/
  language : String
deriving DecidableEq

namespace MediaHeader

/-- Three letters of five bits each, counted from the character before `a`. -/
def unpackLanguage (packed : UInt16) : String :=
  String.ofList ([10, 5, 0].map fun shift =>
    Char.ofNat ((packed.toNat >>> shift) % 32 + 0x60))

def fields : Decode MediaHeader := do
  let full ← Decode.versionFlags
  let creationTime ← Decode.time full
  let modificationTime ← Decode.time full
  let timescale ← Decode.u32
  let duration ← Decode.time full
  let language := unpackLanguage (← Decode.u16)
  return { full, creationTime, modificationTime, timescale, duration, language }

def ofPayload (payload : List UInt8) : Except Error MediaHeader := fields.parse payload

end MediaHeader

/-- Who handles the media of a track. -/
structure Handler where
  full : VersionFlags
  /-- The component type, which is zero outside QuickTime. -/
  component : FourCc
  handlerType : FourCc
  name : String
deriving DecidableEq

namespace Handler

/-- A name is counted, where a component type is given and the first byte counts all others;
otherwise it ends with a zero byte. -/
def nameOf (component : FourCc) : List UInt8 → String
  | [] => ""
  | n :: bs =>
    if component ≠ .zero ∧ n.toNat = bs.length then Utf8.text bs else Utf8.textUntilZero (n :: bs)

def fields : Decode Handler := do
  let full ← Decode.versionFlags
  let component ← Decode.fourCc
  let handlerType ← Decode.fourCc
  Decode.skip 12
  return ⟨full, component, handlerType, nameOf component (← Decode.rest)⟩

def ofPayload (payload : List UInt8) : Except Error Handler := fields.parse payload

/-- Whether this handler is for data references and says nothing about the track. -/
def handlesData (h : Handler) : Bool := h.component = .ofChars 'd' 'h' 'l' 'r'

end Handler

/-- What is particular to one type of media. -/
inductive InfoHeader where
  | video (graphicsMode red green blue : UInt16)
  /-- The balance has 8 bits behind the point. -/
  | sound (balance : Int16)
  | hint (maxPacket avgPacket : UInt16) (maxBitrate avgBitrate : UInt32)
  | subtitle
  | null
deriving DecidableEq

namespace InfoHeader

def fields (kind : BoxKind) : Decode InfoHeader := do
  let _ ← Decode.versionFlags
  match kind with
  | .vmhd => return .video (← Decode.u16) (← Decode.u16) (← Decode.u16) (← Decode.u16)
  | .smhd => return .sound (← Decode.i16)
  | .hmhd => return .hint (← Decode.u16) (← Decode.u16) (← Decode.u32) (← Decode.u32)
  | .sthd => return .subtitle
  | _ => return .null

def ofPayload (kind : BoxKind) (payload : List UInt8) : Except Error InfoHeader :=
  (fields kind).parse payload

end InfoHeader

/-- Where the media data is. -/
structure DataEntry where
  full : VersionFlags
  name : Option String
  location : Option String
deriving DecidableEq

namespace DataEntry

/-- Whether the data is in the same file. -/
def isSelfContained (e : DataEntry) : Bool := e.full.lowBit

/-- A `urn` entry has a name and, behind it, perhaps a location.  The location is sought as many
bytes on as the decoded name has, and one more. -/
def namedFields (full : VersionFlags) (bs : List UInt8) : DataEntry :=
  let name := Utf8.textUntilZero bs
  let after := bs.drop (name.utf8ByteSize + 1)
  ⟨full, some name, if after = [] then none else some (Utf8.textUntilZero after)⟩

/-- A `url` entry has a location, unless its flags or its length say that there is none. -/
def plainFields (full : VersionFlags) (bs : List UInt8) : DataEntry :=
  if full.lowBit ∨ bs = [] then ⟨full, none, none⟩
  else ⟨full, none, some (Utf8.textUntilZero bs)⟩

def fields (kind : BoxKind) : Decode DataEntry := do
  let full ← Decode.versionFlags
  let bs ← Decode.rest
  return match kind with
    | .urn => namedFields full bs
    | _ => plainFields full bs

def ofPayload (kind : BoxKind) (payload : List UInt8) : Except Error DataEntry :=
  (fields kind).parse payload

end DataEntry

end IsoMedia
