import IsoMedia.Tree.Payload
import IsoMedia.Proofs.Machine.Descriptions
import IsoMedia.Proofs.Machine.Tables

/-!
# Payloads on a machine

What the payload of a box says, for every kind of box.  The one word computed here is the place of a
payload in the file; all else comes from the readers of the kinds.
-/

namespace IsoMedia.Machine

open Payload (Reading)

variable {α : Type}

/-- Where the payload of a box starts in the file. -/
def payloadOffset (f : Frame) : Machine Nat := add 64 f.offset f.headerLength

def plain (draft : Option TrackDraft) (m : Machine NodeData) : Machine Reading := do
  return ⟨← m, draft, 0⟩

def forTrack (f : Frame) (draft : Option TrackDraft) (value : α)
    (set : TrackDraft → α → Noted TrackDraft) (data : NodeData) : Machine Reading :=
  match draft with
  | none => throw (.invalidData (.outsideTrack f.type f.offset))
  | some d => return ⟨data, some (set d value).value, 0⟩

/-- The version and flags of a table are read once more for what the tree keeps of it. -/
def tableForTrack (f : Frame) (draft : Option TrackDraft) (q : Scan α) (entryCount : α → Nat)
    (set : TrackDraft → α → Noted TrackDraft) : Machine Reading := do
  let value ← q.parse f.payload
  let full ← Scan.versionFlags.parse f.payload
  forTrack f draft value set (.table full (entryCount value))

def trackIds (bs : List UInt8) : Machine (List UInt32) := do
  return (← numbers 4 bs).map UInt32.ofNat

def trackGroup : Scan NodeData := do return .trackGroup (← Scan.versionFlags) (← Scan.u32)

def extendedLanguage : Scan NodeData := do
  return .extendedLanguage (← Scan.versionFlags) (← cString (← Scan.rest))

def dataReferences : Scan NodeData := do
  return .dataReferences (← Scan.versionFlags) (← Scan.u32)

def trackHandler (f : Frame) (draft : Option TrackDraft) : Machine Reading := do
  let h ← handler.parse f.payload
  match draft with
  | none => return ⟨.handler h, none, 0⟩
  | some d => return ⟨.handler h, some (d.setHandler h).value, 0⟩

/-- What the payload of a box of the given kind says. -/
def interpret (kind : BoxKind) (f : Frame) (draft : Option TrackDraft) : Machine Reading :=
  match kind with
  | .moov | .trak | .tref | .trgr | .edts | .mdia | .minf | .dinf | .stbl =>
    plain draft (return .container)
  | .dref => do return ⟨← dataReferences.parse f.payload, draft, 8⟩
  | .ftyp => plain draft (.fileType <$> fileType.parse f.payload)
  | .free | .skip => plain draft (return .free)
  | .mdat => plain draft (return .mediaData (← payloadOffset f) f.payload.length)
  | .mvhd => plain draft (.movieHeader <$> movieHeader.parse f.payload)
  | .udta => plain draft (return .userData)
  | .tkhd => do
    let h ← trackHeader.parse f.payload
    forTrack f draft h TrackDraft.setHeader (.trackHeader h)
  | .trackReference => plain draft (.trackReference <$> trackIds f.payload)
  | .msrc => plain draft (trackGroup.parse f.payload)
  | .elst => do
    let l ← editList.parse f.payload
    forTrack f draft l TrackDraft.setEditList (.editList l)
  | .mdhd => do
    let h ← mediaHeader.parse f.payload
    forTrack f draft h TrackDraft.setMediaHeader (.mediaHeader h)
  | .hdlr => trackHandler f draft
  | .elng => plain draft (extendedLanguage.parse f.payload)
  | .vmhd | .smhd | .hmhd | .sthd | .nmhd =>
    plain draft (.infoHeader <$> (infoHeader kind).parse f.payload)
  | .url | .urn => plain draft (.dataEntry <$> (dataEntry kind).parse f.payload)
  | .stsd => do
    let s ← sampleDescription f.payload
    forTrack f draft s TrackDraft.setDescription (.description s.full s.formats)
  | .stts => tableForTrack f draft timeRuns List.length TrackDraft.setTimes
  | .ctts => tableForTrack f draft offsetRuns List.length TrackDraft.setOffsets
  | .stsc => tableForTrack f draft chunkRuns List.length TrackDraft.setRuns
  | .stsz => tableForTrack f draft wideSizes (·.sampleCount.toNat) TrackDraft.setSizes
  | .stz2 => tableForTrack f draft compactSizes (·.sampleCount.toNat) TrackDraft.setSizes
  | .stco => tableForTrack f draft narrowOffsets List.length TrackDraft.setChunkOffsets
  | .co64 => tableForTrack f draft wideOffsets List.length TrackDraft.setChunkOffsets
  | .stss => tableForTrack f draft syncSamples List.length TrackDraft.setSync
  | .cslg | .stsh | .padb | .stdp | .sdtp | .subs | .saiz | .saio | .sbgp | .sgpd =>
    plain draft (.auxiliary <$> (auxiliary f.type).parse f.payload)

/-! ### No fault -/

variable {f : Frame} {draft : Option TrackDraft}

theorem computes_plain {m : Machine NodeData} {r : Except Error NodeData} (h : m = of r) :
    Computes (plain draft m) (Payload.plain draft r) := by
  rw [plain, h]
  cases r <;> rfl

/-- Fields that are read as a cursor reads them, and what they are kept as. -/
theorem computes_plain_map {q : Scan α} {p : Decode α} (h : Follows q p)
    (hf : Addressable f.payload) (g : α → NodeData) :
    Computes (plain draft (g <$> q.parse f.payload))
      (Payload.plain draft ((p.parse f.payload).map g)) :=
  computes_plain (by rw [h.parse hf, of_map])

theorem computes_forTrack (value : α) (set : TrackDraft → α → Noted TrackDraft) (data : NodeData) :
    Computes (forTrack f draft value set data) (Payload.forTrack f draft value set data) := by
  cases draft <;> rfl

theorem computes_tableForTrack {q : Scan α} {p : Decode α} (h : Follows q p)
    (hf : Addressable f.payload) (entryCount : α → Nat) (set : TrackDraft → α → Noted TrackDraft) :
    Computes (tableForTrack f draft q entryCount set)
      (Payload.tableForTrack f draft (p.parse f.payload) entryCount set) :=
  (Computes.ofExcept (h.parse hf)).bind fun value =>
    (Computes.ofExcept (follows_versionFlags.parse hf)).bind fun _ => computes_forTrack value set _

theorem trackIds_eq (bs : List UInt8) : trackIds bs = pure (Payload.trackIds bs) := by
  have hids : Payload.trackIds bs = (chunksExact 4 bs).map fun c => UInt32.ofNat (bigEndian c) := by
    refine eq_map_chunksExact Payload.trackIds (by decide) (fun c bs hc => ?_) (fun bs hbs => ?_) bs
    · match c, hc with
      | [_, _, _, _], _ => rfl
    · match bs, hbs with
      | [], _ | [_], _ | [_, _], _ | [_, _, _], _ => rfl
  rw [trackIds, numbers_eq, pure_bind, List.map_map, hids]
  rfl

theorem follows_trackGroup : Follows trackGroup Payload.trackGroup :=
  follows_versionFlags.bind fun _ => follows_u32.bind fun _ => .pure _

theorem follows_extendedLanguage : Follows extendedLanguage Payload.extendedLanguage :=
  follows_versionFlags.bind fun _ => .rest fun bs _ => .step (cString_eq bs) (.pure _)

theorem follows_dataReferences : Follows dataReferences Payload.dataReferences :=
  follows_versionFlags.bind fun _ => follows_u32.bind fun _ => .pure _

theorem computes_trackHandler (hf : Addressable f.payload) :
    Computes (trackHandler f draft) (Payload.handler f draft) := by
  refine (Computes.ofExcept (follows_handler.parse hf)).bind fun h => ?_
  cases draft <;> rfl

/-- **Every payload is read without a fault**, whatever its kind. -/
theorem computes_interpret (kind : BoxKind) (hf : Addressable f.payload)
    (hend : f.payloadOffset < 2 ^ 64) :
    Computes (interpret kind f draft) (Payload.interpret kind f draft) := by
  have read {α : Type} {q : Scan α} {p : Decode α} (h : Follows q p) :
      Computes (q.parse f.payload) (.ofExcept (p.parse f.payload)) := .ofExcept (h.parse hf)
  cases kind with
  | moov | trak | tref | trgr | edts | mdia | minf | dinf | stbl | free | skip | udta =>
    exact computes_plain rfl
  | dref =>
    unfold interpret Payload.interpret
    dsimp only
    rw [follows_dataReferences.parse hf]
    exact .ofExcept (of_map _ _).symm
  | ftyp => exact computes_plain_map follows_fileType hf _
  | mdat =>
    refine computes_plain ?_
    rw [payloadOffset, add_eq hend, pure_bind]
    rfl
  | mvhd => exact computes_plain_map follows_movieHeader hf _
  | tkhd => exact (read follows_trackHeader).bind fun _ => computes_forTrack _ _ _
  | trackReference =>
    refine computes_plain ?_
    rw [trackIds_eq]
    rfl
  | msrc => exact computes_plain (follows_trackGroup.parse hf)
  | elst => exact (read follows_editList).bind fun _ => computes_forTrack _ _ _
  | mdhd => exact (read follows_mediaHeader).bind fun _ => computes_forTrack _ _ _
  | hdlr => exact computes_trackHandler hf
  | elng => exact computes_plain (follows_extendedLanguage.parse hf)
  | vmhd | smhd | hmhd | sthd | nmhd => exact computes_plain_map (follows_infoHeader _) hf _
  | url | urn => exact computes_plain_map (follows_dataEntry _) hf _
  | stsd => exact (computes_sampleDescription hf).bind fun _ => computes_forTrack _ _ _
  | stts => exact computes_tableForTrack follows_timeRuns hf _ _
  | ctts => exact computes_tableForTrack follows_offsetRuns hf _ _
  | stsc => exact computes_tableForTrack follows_chunkRuns hf _ _
  | stsz => exact computes_tableForTrack follows_wideSizes hf _ _
  | stz2 => exact computes_tableForTrack follows_compactSizes hf _ _
  | stco => exact computes_tableForTrack follows_narrowOffsets hf _ _
  | co64 => exact computes_tableForTrack follows_wideOffsets hf _ _
  | stss => exact computes_tableForTrack follows_syncSamples hf _ _
  | cslg | stsh | padb | stdp | sdtp | subs | saiz | saio | sbgp | sgpd =>
    exact computes_plain_map (follows_auxiliary _) hf _

end IsoMedia.Machine
