import IsoMedia.Box.Frame
import IsoMedia.Track
import IsoMedia.Tree.Node

/-!
# What a payload says

`Payload.interpret` reads the payload of a box of a known kind.  What belongs to a track goes into
the draft of the track in which the box stands.
-/

namespace IsoMedia.Payload

/-- What a payload says, the draft of the track it stands in, and how many bytes precede the first
box inside. -/
structure Reading where
  data : NodeData
  draft : Option TrackDraft
  inner : Nat

/-- A payload that says something only about itself. -/
def plain (draft : Option TrackDraft) (r : Except Error NodeData) : Checked Reading :=
  Checked.ofExcept (r.map fun data => ⟨data, draft, 0⟩)

/-- A payload that belongs to a track and is kept there.  It must stand in one. -/
def forTrack {α : Type} (f : Frame) (draft : Option TrackDraft) (value : α)
    (set : TrackDraft → α → Noted TrackDraft) (data : NodeData) : Checked Reading := do
  match draft with
  | none => throw (.invalidData (.outsideTrack f.type f.offset))
  | some d => return ⟨data, some (← ExceptT.lift (set d value)), 0⟩

/-- A table that belongs to a track and is kept there, while the tree only counts its entries. -/
def tableForTrack {α : Type} (f : Frame) (draft : Option TrackDraft)
    (parsed : Except Error α) (entryCount : α → Nat)
    (set : TrackDraft → α → Noted TrackDraft) : Checked Reading := do
  let value ← Checked.ofExcept parsed
  let full ← Checked.ofExcept (Decode.versionFlags.parse f.payload)
  forTrack f draft value set (.table full (entryCount value))

/-- The references to other tracks, four bytes each; an incomplete one at the end is left out. -/
def trackIds : List UInt8 → List UInt32
  | a :: b :: c :: d :: bs => UInt32.ofNat (bigEndian [a, b, c, d]) :: trackIds bs
  | _ => []

def trackGroup : Decode NodeData := do return .trackGroup (← Decode.versionFlags) (← Decode.u32)

def extendedLanguage : Decode NodeData := do
  return .extendedLanguage (← Decode.versionFlags) (Utf8.textUntilZero (← Decode.rest))

def dataReferences : Decode NodeData := do
  return .dataReferences (← Decode.versionFlags) (← Decode.u32)

/-- A handler belongs to the track it stands in; outside of a track it belongs to none. -/
def handler (f : Frame) (draft : Option TrackDraft) : Checked Reading := do
  let h ← Checked.ofExcept (Handler.ofPayload f.payload)
  match draft with
  | none => return ⟨.handler h, none, 0⟩
  | some d => return ⟨.handler h, some (← ExceptT.lift (d.setHandler h)), 0⟩

def description (f : Frame) (draft : Option TrackDraft) : Checked Reading := do
  let s ← SampleDescription.ofPayload f.payload
  forTrack f draft s TrackDraft.setDescription (.description s.full s.formats)

/-- Read the payload of a box of the given kind. -/
def interpret (kind : BoxKind) (f : Frame) (draft : Option TrackDraft) : Checked Reading :=
  match kind with
  | .moov | .trak | .tref | .trgr | .edts | .mdia | .minf | .dinf | .stbl =>
    plain draft (.ok .container)
  | .dref =>
    Checked.ofExcept ((dataReferences.parse f.payload).map fun data => ⟨data, draft, 8⟩)
  | .ftyp => plain draft ((FileType.ofPayload f.payload).map .fileType)
  | .free | .skip => plain draft (.ok .free)
  | .mdat => plain draft (.ok (.mediaData f.payloadOffset f.payload.length))
  | .mvhd => plain draft ((MovieHeader.ofPayload f.payload).map .movieHeader)
  | .udta => plain draft (.ok .userData)
  | .tkhd => do
    let h ← Checked.ofExcept (TrackHeader.ofPayload f.payload)
    forTrack f draft h TrackDraft.setHeader (.trackHeader h)
  | .trackReference => plain draft (.ok (.trackReference (trackIds f.payload)))
  | .msrc => plain draft (trackGroup.parse f.payload)
  | .elst => do
    let l ← Checked.ofExcept (EditList.ofPayload f.payload)
    forTrack f draft l TrackDraft.setEditList (.editList l)
  | .mdhd => do
    let h ← Checked.ofExcept (MediaHeader.ofPayload f.payload)
    forTrack f draft h TrackDraft.setMediaHeader (.mediaHeader h)
  | .hdlr => handler f draft
  | .elng => plain draft (extendedLanguage.parse f.payload)
  | .vmhd | .smhd | .hmhd | .sthd | .nmhd =>
    plain draft ((InfoHeader.ofPayload kind f.payload).map .infoHeader)
  | .url | .urn => plain draft ((DataEntry.ofPayload kind f.payload).map .dataEntry)
  | .stsd => description f draft
  | .stts =>
    tableForTrack f draft (TimeRun.ofPayload f.payload) List.length TrackDraft.setTimes
  | .ctts =>
    tableForTrack f draft (OffsetRun.ofPayload f.payload) List.length TrackDraft.setOffsets
  | .stsc =>
    tableForTrack f draft (ChunkRun.ofPayload f.payload) List.length TrackDraft.setRuns
  | .stsz =>
    tableForTrack f draft (SampleSizes.ofWide f.payload) (·.sampleCount.toNat)
      TrackDraft.setSizes
  | .stz2 =>
    tableForTrack f draft (SampleSizes.ofCompact f.payload) (·.sampleCount.toNat)
      TrackDraft.setSizes
  | .stco =>
    tableForTrack f draft (ChunkOffsets.ofNarrow f.payload) List.length
      TrackDraft.setChunkOffsets
  | .co64 =>
    tableForTrack f draft (ChunkOffsets.ofWide f.payload) List.length
      TrackDraft.setChunkOffsets
  | .stss =>
    tableForTrack f draft (SyncSamples.ofPayload f.payload) List.length TrackDraft.setSync
  | .cslg | .stsh | .padb | .stdp | .sdtp | .subs | .saiz | .saio | .sbgp | .sgpd =>
    plain draft ((AuxiliaryTable.ofPayload f.type f.payload).map .auxiliary)

end IsoMedia.Payload
