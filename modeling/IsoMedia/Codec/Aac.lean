import IsoMedia.Bytes.Bits

/-!
# AAC configuration and ADTS headers

A sample in a file is a bare AAC frame; its configuration stands apart, in a few packed bits
(`AudioConfig.ofBytes`).  A frame in a stream of its own starts with an ADTS header of seven bytes
(`AudioConfig.adtsHeader`), which can express only some configurations.  Of a frame that is at hand the
length is a word, and all builds write the same header (`AudioConfig.headerFor`).
-/

namespace IsoMedia.Aac

/-- The sample rates that an index stands for. -/
def rates : List UInt32 :=
  [96000, 88200, 64000, 48000, 44100, 32000, 24000, 22050, 16000, 12000, 11025, 8000, 7350]

/-- The index that says that the rate itself follows. -/
def explicitRateIndex : UInt8 := 15

/-- The part of an AAC configuration that an ADTS header repeats. -/
structure AudioConfig where
  /-- The object type; 2 is the low complexity profile. -/
  objectType : UInt8
  rateIndex : UInt8
  sampleRate : UInt32
  channelConfig : UInt8
deriving DecidableEq

namespace AudioConfig

/-- The rate that a rate index announces, read from the bits if the index says so. -/
def rateFor (index : UInt8) (c : BitCursor) : Except Error (UInt32 × BitCursor) :=
  if index = explicitRateIndex then c.read 24
  else match rates[index.toNat]? with
    | some r => .ok (r, c)
    | none => malformed (.reservedRate index.toNat)

/-- Read the configuration at the start of a run of bytes. -/
def ofBytes (bs : List UInt8) : Except Error AudioConfig := do
  let (short, c) ← (BitCursor.start bs).read 5
  let (objectType, c) ←
    if short = 31 then do
      let (long, c) ← c.read 6
      pure (32 + long.toUInt8, c)
    else pure (short.toUInt8, c)
  let (index, c) ← c.read 4
  let (rate, c) ← rateFor index.toUInt8 c
  let (channels, _) ← c.read 4
  return ⟨objectType, index.toUInt8, rate, channels.toUInt8⟩

/-- Why no header can tell the configuration, if none can. -/
def inexpressible? (c : AudioConfig) : Option Inexpressible :=
  if 12 < c.rateIndex then some (.explicitRate c.sampleRate.toNat)
  else if c.objectType < 1 ∨ 4 < c.objectType then some (.objectType c.objectType.toNat)
  else none

/-- The seven bytes before a frame of the given length, which counts them too, without a checksum. -/
def header (c : AudioConfig) (length : Nat) : Except Error (List UInt8) :=
  if 0x1FFF < length then malformed (.adtsFrameLength length)
  else
    let length := UInt64.ofNat length
    let profile := c.objectType - 1
    let channels := c.channelConfig
    .ok [0xFF, 0xF1,
      profile <<< 6 ||| c.rateIndex <<< 2 ||| (channels >>> 2 &&& 0x01),
      (channels &&& 0x03) <<< 6 ||| (length >>> 11 &&& 0x03).toUInt8,
      (length >>> 3 &&& 0xFF).toUInt8,
      ((length &&& 0x07) <<< 5).toUInt8 ||| 0x1F,
      0xFC]

/-- The header of a frame of `payload` bytes.  The length of the frame is reckoned in a word of 64
bits. -/
def adtsHeader (o : Overflow) (c : AudioConfig) (payload : UInt64) : Machine (List UInt8) :=
  match c.inexpressible? with
  | some what => throw (.unsupported what)
  | none => do
    let length ← o.add 64 payload.toNat 7
    Machine.of (c.header length)

/-- The header of a frame that is at hand, whose length is a word. -/
def headerFor (c : AudioConfig) (sample : List UInt8) : Except Error (List UInt8) :=
  match c.inexpressible? with
  | some what => .error (.unsupported what)
  | none => c.header (sample.length + 7)

end AudioConfig

end IsoMedia.Aac
