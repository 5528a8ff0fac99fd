import IsoMedia.Bytes.Cursor

/-!
# Auxiliary tables

The tables beside those that the sample index is made from.  They are read and kept, and nothing
follows from them.
-/

namespace IsoMedia

/-- How composition and decoding times relate. -/
structure CompositionShift where
  compositionToDecode : Int64
  leastDelta : Int64
  greatestDelta : Int64
  start : Int64
  stop : Int64
deriving DecidableEq

/-- One part of a sample. -/
structure Subsample where
  size : UInt32
  priority : UInt8
  discardable : Bool
  parameters : UInt32
deriving DecidableEq

/-- The parts of a sample, and how many samples after the previous entry it comes. -/
structure SubsampleEntry where
  sampleDelta : UInt32
  subsamples : List Subsample
deriving DecidableEq

/-- The type of auxiliary information and its parameter. -/
structure InfoType where
  type : FourCc
  parameter : UInt32
deriving DecidableEq

/-- A table beside those that the sample index is made from, named by its type code. -/
inductive AuxiliaryTable where
  | cslg (shift : CompositionShift)
  /-- Pairs of a shadowed sample and the key frame that may stand in for it. -/
  | stsh (entries : List (UInt32 × UInt32))
  /-- One byte of dependency flags per sample. -/
  | sdtp (flags : List UInt8)
  /-- One byte of padding bits for two samples. -/
  | padb (sampleCount : UInt32) (bits : List UInt8)
  | stdp (priorities : List UInt16)
  | subs (entries : List SubsampleEntry)
  | saiz (info : Option InfoType) (defaultSize : UInt8) (sampleCount : UInt32)
      (sizes : List UInt8)
  | saio (info : Option InfoType) (offsets : List UInt64)
  /-- Pairs of a number of samples and the group they belong to. -/
  | sbgp (grouping : FourCc) (parameter : Option UInt32) (entries : List (UInt32 × UInt32))
  /-- The descriptions of groups, as they stand in the file. -/
  | sgpd (grouping : FourCc) (defaultIndex : Option UInt32) (entries : List (List UInt8))
deriving DecidableEq

namespace AuxiliaryTable

/-- A signed field, of four bytes in version 0 and of eight bytes otherwise. -/
def shiftField (f : VersionFlags) : Decode Int64 :=
  if f.version = 0 then Int32.toInt64 <$> Decode.i32 else Decode.i64

/-- Two fields of four bytes. -/
def pairRow : Decode (UInt32 × UInt32) := do return (← Decode.u32, ← Decode.u32)

/-- Numbers of two bytes each; an odd byte at the end is left out. -/
def words : List UInt8 → List UInt16
  | a :: b :: bs => UInt16.ofNat (bigEndian [a, b]) :: words bs
  | _ => []

/-- One part of a sample, with a size of four bytes in version 1 and of two bytes otherwise. -/
def subsample (f : VersionFlags) : Decode Subsample := do
  let size ← if f.version = 1 then Decode.u32 else UInt16.toUInt32 <$> Decode.u16
  let priority ← Decode.u8
  let discardable := (← Decode.u8) ≠ 0
  return ⟨size, priority, discardable, ← Decode.u32⟩

def subsampleEntry (f : VersionFlags) : Decode SubsampleEntry := do
  let sampleDelta ← Decode.u32
  return ⟨sampleDelta, ← Decode.rows (← Decode.u16).toNat (subsample f)⟩

/-- A type of information is given if bit 0 of the flags is set. -/
def infoType (f : VersionFlags) : Decode (Option InfoType) :=
  if f.lowBit then do return some ⟨← Decode.fourCc, ← Decode.u32⟩ else return none

/-- How the length of a group description is found. -/
inductive EntryLength where
  /-- All have the same length. -/
  | uniform (length : Nat)
  /-- Each is preceded by its length. -/
  | counted
  /-- It is not known, and all that is left is one description. -/
  | unknown
deriving DecidableEq

/-- Version 1 gives a length for all, or zero where each has its own. -/
def entryLength (version : UInt8) (common : UInt32) : EntryLength :=
  if version = 1 then if common = 0 then .counted else .uniform common.toNat else .unknown

def groupDescription : EntryLength → Decode (List UInt8)
  | .uniform n => Decode.bytes n
  | .counted => do Decode.bytes (← Decode.u32).toNat
  | .unknown => do Decode.bytes (← Decode.left)

/-- At most `n` descriptions, put in front of those already read, which are kept in reverse.  After
one that uses up the bytes no further one is sought. -/
def groupDescriptionsFrom (length : EntryLength) :
    Nat → List (List UInt8) → Decode (List (List UInt8))
  | 0, acc, c => .ok (acc.reverse, c)
  | n + 1, acc, c =>
    match groupDescription length c with
    | .error e => .error e
    | .ok (entry, c') =>
      if c'.rest = [] then .ok ((entry :: acc).reverse, c')
      else groupDescriptionsFrom length n (entry :: acc) c'

def cslgFields (f : VersionFlags) : Decode AuxiliaryTable := do
  let field := shiftField f
  return cslg ⟨← field, ← field, ← field, ← field, ← field⟩

def stshFields (_ : VersionFlags) : Decode AuxiliaryTable := do
  return stsh (← Decode.table (.ofChars 's' 't' 's' 'h') 8 pairRow)

def sdtpFields (_ : VersionFlags) : Decode AuxiliaryTable := do
  return sdtp (← Decode.rest)

def padbFields (_ : VersionFlags) : Decode AuxiliaryTable := do
  let sampleCount ← Decode.u32
  return padb sampleCount (← Decode.bytes ((sampleCount.toNat + 1) / 2))

def stdpFields (_ : VersionFlags) : Decode AuxiliaryTable := do
  return stdp (words (← Decode.rest))

def subsFields (f : VersionFlags) : Decode AuxiliaryTable := do
  return subs (← Decode.table (.ofChars 's' 'u' 'b' 's') 6 (subsampleEntry f))

/-- One size per sample is given if there is none for all. -/
def saizFields (f : VersionFlags) : Decode AuxiliaryTable := do
  let info ← infoType f
  let defaultSize ← Decode.u8
  let sampleCount ← Decode.u32
  let sizes ← if defaultSize = 0 then Decode.bytes sampleCount.toNat else pure []
  return saiz info defaultSize sampleCount sizes

/-- Offsets are of four bytes in version 0 and of eight bytes otherwise. -/
def saioFields (f : VersionFlags) : Decode AuxiliaryTable := do
  let info ← infoType f
  let name : FourCc := .ofChars 's' 'a' 'i' 'o'
  if f.version = 0 then
    return saio info (← Decode.table name 4 (UInt32.toUInt64 <$> Decode.u32))
  else return saio info (← Decode.table name 8 Decode.u64)

/-- A parameter is given in version 1. -/
def sbgpFields (f : VersionFlags) : Decode AuxiliaryTable := do
  let grouping ← Decode.fourCc
  let parameter ← if f.version = 1 then some <$> Decode.u32 else pure none
  return sbgp grouping parameter (← Decode.table (.ofChars 's' 'b' 'g' 'p') 8 pairRow)

/-- A default description is given from version 2 on. -/
def sgpdFields (f : VersionFlags) : Decode AuxiliaryTable := do
  let grouping ← Decode.fourCc
  let common ← if f.version = 1 then Decode.u32 else pure 0
  let defaultIndex ← if 2 ≤ f.version then some <$> Decode.u32 else pure none
  let count := (← Decode.u32).toNat
  return sgpd grouping defaultIndex
    (← groupDescriptionsFrom (entryLength f.version common) count [])

/-- How the payload of each table is read. -/
def readers : List (FourCc × (VersionFlags → Decode AuxiliaryTable)) :=
  [(.ofChars 'c' 's' 'l' 'g', cslgFields),
   (.ofChars 's' 't' 's' 'h', stshFields),
   (.ofChars 's' 'd' 't' 'p', sdtpFields),
   (.ofChars 'p' 'a' 'd' 'b', padbFields),
   (.ofChars 's' 't' 'd' 'p', stdpFields),
   (.ofChars 's' 'u' 'b' 's', subsFields),
   (.ofChars 's' 'a' 'i' 'z', saizFields),
   (.ofChars 's' 'a' 'i' 'o', saioFields),
   (.ofChars 's' 'b' 'g' 'p', sbgpFields),
   (.ofChars 's' 'g' 'p' 'd', sgpdFields)]

/-- The fields of the table with the given type code, behind its version and flags. -/
def fields (type : FourCc) : Decode AuxiliaryTable := do
  let full ← Decode.versionFlags
  match readers.find? (·.1 = type) with
  | some (_, reader) => reader full
  | none => Decode.refuse (.invalidArgument (.notAuxiliary type))

def ofPayload (type : FourCc) (payload : List UInt8) : Except Error AuxiliaryTable :=
  (fields type).parse payload

end AuxiliaryTable

end IsoMedia
