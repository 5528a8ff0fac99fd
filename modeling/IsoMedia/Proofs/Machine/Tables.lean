import IsoMedia.Proofs.Bytes.Layout
import IsoMedia.Proofs.Machine.Reader
import IsoMedia.Sample.Auxiliary
import IsoMedia.Sample.Tables
import Mathlib.Data.List.Forall2

/-!
# Tables on a machine

The tables that the sample index is made from, and those beside them.  Their rows are held against the
bytes left before any is read; what is packed more tightly than in bytes is found by indices that the
declared number of samples gives.
-/

namespace IsoMedia.Machine

/-! ### Numbers of several bytes -/

/-- `n` runs of `width` bytes, one behind the other. -/
def chunks (width : Nat) : Nat → List UInt8 → List (List UInt8)
  | 0, _ => []
  | n + 1, bs => bs.take width :: chunks width n (bs.drop width)

/-- The runs of `width` bytes that bytes are made of, what is left at the end left out. -/
def chunksExact (width : Nat) (bs : List UInt8) : List (List UInt8) :=
  chunks width (bs.length / width) bs

/-- The numbers of `width` bytes each that bytes are made of. -/
def numbers (width : Nat) (bs : List UInt8) : Machine (List Nat) :=
  (chunksExact width bs).mapM fun c => do
    return bigEndian (← (List.range width).mapM (item c))

theorem length_of_mem_chunks {width n : Nat} {bs c : List UInt8} (h : width * n ≤ bs.length)
    (hc : c ∈ chunks width n bs) : c.length = width := by
  induction n generalizing bs with
  | zero => cases hc
  | succ n ih =>
    rw [Nat.mul_succ] at h
    rcases List.mem_cons.1 hc with rfl | hc
    · rw [List.length_take]
      omega
    · exact ih (by rw [List.length_drop]; omega) hc

/-- Every run has the bytes that are indexed. -/
theorem numbers_eq (width : Nat) (bs : List UInt8) :
    numbers width bs = pure ((chunksExact width bs).map bigEndian) := by
  refine mapM_eq fun c hc => ?_
  have hlength : c.length = width := length_of_mem_chunks (Nat.mul_div_le _ _) hc
  rw [← hlength, mapM_item, pure_bind]

theorem chunksExact_of_lt {width : Nat} {bs : List UInt8} (h : bs.length < width) :
    chunksExact width bs = [] := by
  rw [chunksExact, Nat.div_eq_of_lt h]
  rfl

theorem chunksExact_append {width : Nat} {c : List UInt8} (hc : c.length = width)
    (hwidth : 0 < width) (bs : List UInt8) :
    chunksExact width (c ++ bs) = c :: chunksExact width bs := by
  have hcount : (c ++ bs).length / width = bs.length / width + 1 := by
    rw [List.length_append, hc, Nat.add_comm, Nat.add_div_right _ hwidth]
  rw [chunksExact, hcount, chunks, List.take_left' hc, List.drop_left' hc]
  rfl

/-- What is done with one run of bytes after the other is done with the runs that they are made
of. -/
theorem eq_map_chunksExact {β : Type} {width : Nat} (read : List UInt8 → List β)
    {g : List UInt8 → β} (hwidth : 0 < width)
    (hstep : ∀ c bs, c.length = width → read (c ++ bs) = g c :: read bs)
    (hend : ∀ bs, bs.length < width → read bs = []) (bs : List UInt8) :
    read bs = (chunksExact width bs).map g := by
  by_cases hlt : bs.length < width
  · rw [hend bs hlt, chunksExact_of_lt hlt]
    rfl
  · have hfirst : (bs.take width).length = width := by
      rw [List.length_take]
      omega
    rw [← List.take_append_drop width bs, hstep _ _ hfirst, chunksExact_append hfirst hwidth,
      List.map_cons, eq_map_chunksExact read hwidth hstep hend (bs.drop width)]
termination_by bs.length
decreasing_by
  rw [List.length_drop]
  omega

/-! ### Tables of rows -/

variable {α : Type}

def fullTable (name : FourCc) (width : Nat) (row : Scan α) : Scan (List α) := do
  let _ ← Scan.versionFlags
  Scan.table name width row

theorem follows_fullTable (name : FourCc) {width : Nat} (hwidth : 0 < width) {q : Scan α}
    {p : Decode α} (h : Follows q p) :
    Follows (fullTable name width q) (Decode.fullTable name width p) :=
  follows_versionFlags.bind fun _ => follows_table name hwidth h

def timeRuns : Scan (List TimeRun) :=
  fullTable (.ofChars 's' 't' 't' 's') 8 do return ⟨← Scan.u32, ← Scan.u32⟩

def offsetRuns : Scan (List OffsetRun) :=
  fullTable (.ofChars 'c' 't' 't' 's') 8 do return ⟨← Scan.u32, ← Scan.i32⟩

def chunkRuns : Scan (List ChunkRun) :=
  fullTable (.ofChars 's' 't' 's' 'c') 12 do return ⟨← Scan.u32, ← Scan.u32, ← Scan.u32⟩

def narrowOffsets : Scan (List UInt64) :=
  fullTable (.ofChars 's' 't' 'c' 'o') 4 (UInt32.toUInt64 <$> Scan.u32)

def wideOffsets : Scan (List UInt64) := fullTable (.ofChars 'c' 'o' '6' '4') 8 Scan.u64

def syncSamples : Scan (List UInt32) := fullTable (.ofChars 's' 't' 's' 's') 4 Scan.u32

theorem follows_timeRuns :
    Follows timeRuns (Decode.fullTable (.ofChars 's' 't' 't' 's') 8 TimeRun.row) :=
  follows_fullTable _ (by decide) (follows_u32.bind fun _ => follows_u32.bind fun _ => .pure _)

theorem follows_offsetRuns :
    Follows offsetRuns (Decode.fullTable (.ofChars 'c' 't' 't' 's') 8 OffsetRun.row) :=
  follows_fullTable _ (by decide) (follows_u32.bind fun _ => follows_i32.bind fun _ => .pure _)

theorem follows_chunkRuns :
    Follows chunkRuns (Decode.fullTable (.ofChars 's' 't' 's' 'c') 12 ChunkRun.row) :=
  follows_fullTable _ (by decide) (follows_u32.bind fun _ => follows_u32.bind fun _ =>
    follows_u32.bind fun _ => .pure _)

theorem follows_narrowOffsets : Follows narrowOffsets
    (Decode.fullTable (.ofChars 's' 't' 'c' 'o') 4 (UInt32.toUInt64 <$> Decode.u32)) :=
  follows_fullTable _ (by decide) (follows_u32.map _)

theorem follows_wideOffsets : Follows wideOffsets
    (Decode.fullTable (.ofChars 'c' 'o' '6' '4') 8 Decode.u64) :=
  follows_fullTable _ (by decide) follows_u64

theorem follows_syncSamples : Follows syncSamples
    (Decode.fullTable (.ofChars 's' 't' 's' 's') 4 Decode.u32) :=
  follows_fullTable _ (by decide) follows_u32

/-! ### Sizes of samples -/

def wideSizes : Scan SampleSizes := do
  let _ ← Scan.versionFlags
  let fixedSize ← Scan.u32
  let sampleCount ← Scan.u32
  if fixedSize = 0 then
    Scan.roomFor (.ofChars 's' 't' 's' 'z') sampleCount.toNat 4
    return ⟨fixedSize, sampleCount, (← Scan.rows Scan.u32 sampleCount.toNat).toArray⟩
  else return ⟨fixedSize, sampleCount, #[]⟩

theorem follows_wideSizes : Follows wideSizes SampleSizes.wideFields :=
  follows_versionFlags.bind fun _ => follows_u32.bind fun _ => follows_u32.bind fun count =>
    .ite (fun _ => (follows_roomFor _ _ (by decide)).bind fun _ =>
      (follows_rows follows_u32 count.toNat).bind fun _ => .pure _) fun _ => .pure _

/-- The bytes that `count` fields of `width` bits take.  A product that is no word becomes the
largest word. -/
def packedLength (width count : Nat) : Machine (Option Nat) :=
  match width with
  | 4 => some <$> divCeil count 2
  | 8 => return some count
  | 16 => return some (min (count * 2) (2 ^ 64 - 1))
  | _ => return none

/-- The field of four bits at a place.  Of two fields in one byte the high half is the first. -/
def halfByte (packed : List UInt8) (place : Nat) : Machine UInt32 := do
  let b ← item packed (← div place 2)
  if place % 2 = 0 then return UInt32.ofNat (← shiftRight 8 b.toNat 4)
  else return (b &&& 0x0F).toUInt32

def unpack (width count : Nat) (packed : List UInt8) : Machine (List UInt32) :=
  match width with
  | 4 => (List.range count).mapM (halfByte packed)
  | 8 => return packed.map UInt8.toUInt32
  | _ => return (← numbers 2 packed).map UInt32.ofNat

def compactSizes : Scan SampleSizes := do
  let _ ← Scan.versionFlags
  Scan.skip 3
  let width := (← Scan.u8).toNat
  let sampleCount ← Scan.u32
  let count := sampleCount.toNat
  match ← packedLength width count with
  | none => throw (.invalidData (.compactFieldWidth width))
  | some need =>
    let packed ← (Scan.bytes need).orRefuse (.invalidData (.compactTableShort count need))
    return ⟨0, sampleCount, (← unpack width count packed).toArray⟩

theorem packedLength_eq {count : Nat} (width : Nat) (h : count < 2 ^ 32) :
    packedLength width count = pure (SampleSizes.packedLength? width count) := by
  unfold packedLength
  split
  · rw [divCeil_two (by omega)]
    rfl
  · rfl
  · rw [Nat.min_eq_left (by omega)]
    rfl
  · rw [SampleSizes.packedLength?] <;> assumption

theorem pairs_eq (bs : List UInt8) :
    SampleSizes.pairs bs = (chunksExact 2 bs).map fun c => UInt32.ofNat (bigEndian c) := by
  refine eq_map_chunksExact SampleSizes.pairs Nat.zero_lt_two (fun c bs hc => ?_) (fun bs hbs => ?_) bs
  · match c, hc with
    | [_, _], _ => rfl
  · match bs, hbs with
    | [], _ => rfl
    | [_], _ => rfl

/-- Each byte of a packed table has two fields, so every field lies in it. -/
theorem halfByte_eq {packed : List UInt8} {place : Nat} {n : UInt32}
    (h : (packed.flatMap halves)[place]? = some n) : halfByte packed place = pure n := by
  rw [getElem?_halves, Option.map_eq_some_iff] at h
  obtain ⟨b, hb, rfl⟩ := h
  rw [halfByte, div_eq (by decide), pure_bind, item_eq hb, pure_bind, shiftRight_eq (by decide),
    pure_bind]
  split
  · congr 1
    apply UInt32.toNat_inj.1
    have := b.toNat_lt
    simp [Nat.shiftRight_eq_div_pow]
    omega
  · rfl

theorem unpack_eq {width count need : Nat} {packed : List UInt8}
    (hneed : SampleSizes.packedLength? width count = some need) (hpacked : packed.length = need) :
    unpack width count packed = pure (SampleSizes.unpack width count packed) := by
  unfold unpack
  split
  · have hlength : (packed.flatMap halves).length = packed.length * 2 :=
      Decode.length_flatMap_rows length_halves packed
    have hcount : count ≤ (packed.flatMap halves).length := by
      cases hneed
      omega
    have hfields : ∀ place ∈ List.range count,
        halfByte packed place = pure ((packed.flatMap halves)[place]?.getD 0) := by
      intro place hplace
      have hlt : place < (packed.flatMap halves).length :=
        Nat.lt_of_lt_of_le (List.mem_range.1 hplace) hcount
      have hfield := List.getElem?_eq_getElem hlt
      rw [halfByte_eq hfield, hfield, Option.getD_some]
    rw [mapM_eq hfields]
    show _ = pure ((packed.flatMap halves).take count)
    congr 1
    have hboth : ((List.range count).map fun place => (packed.flatMap halves)[place]?.getD 0).length
        = ((packed.flatMap halves).take count).length := by
      rw [List.length_map, List.length_range, List.length_take, Nat.min_eq_left hcount]
    refine List.ext_getElem hboth fun place hplace hplace' => ?_
    rw [List.getElem_map, List.getElem_range, List.getElem_take, List.getElem?_eq_getElem,
      Option.getD_some]
  · rfl
  · rw [numbers_eq, pure_bind, List.map_map, SampleSizes.unpack, pairs_eq] <;>
      first | rfl | assumption

theorem follows_compactSizes : Follows compactSizes SampleSizes.compactFields := by
  refine follows_versionFlags.bind fun _ => (follows_skip 3).bind fun _ => follows_u8.bind
    fun width => follows_u32.bind fun count => .step (packedLength_eq _ count.toNat_lt) ?_
  dsimp only
  cases hneed : SampleSizes.packedLength? width.toNat count.toNat with
  | none => exact .throw _
  | some need =>
    exact ((follows_bytes need).orRefuse _).bind_of (fun h => length_of_bytes (of_orRefuse h))
      fun packed hpacked => .step (unpack_eq hneed hpacked) (.pure _)

/-! ### Auxiliary tables -/

open AuxiliaryTable

def shiftField (f : VersionFlags) : Scan Int64 :=
  if f.version = 0 then Int32.toInt64 <$> Scan.i32 else Scan.i64

def pairRow : Scan (UInt32 × UInt32) := do return (← Scan.u32, ← Scan.u32)

def subsample (f : VersionFlags) : Scan Subsample := do
  let size ← if f.version = 1 then Scan.u32 else UInt16.toUInt32 <$> Scan.u16
  let priority ← Scan.u8
  let discardable := (← Scan.u8) ≠ 0
  return ⟨size, priority, discardable, ← Scan.u32⟩

def subsampleEntry (f : VersionFlags) : Scan SubsampleEntry := do
  let sampleDelta ← Scan.u32
  return ⟨sampleDelta, ← Scan.rows (subsample f) (← Scan.u16).toNat⟩

def infoType (f : VersionFlags) : Scan (Option InfoType) :=
  if f.lowBit then do return some ⟨← Scan.fourCc, ← Scan.u32⟩ else return none

def groupDescription : EntryLength → Scan (List UInt8)
  | .uniform n => Scan.bytes n
  | .counted => do Scan.bytes (← Scan.u32).toNat
  | .unknown => do Scan.bytes (← Scan.left)

/-- At most `n` descriptions; after one that uses up the bytes no further one is sought. -/
def groupDescriptions (length : EntryLength) : Nat → Scan (List (List UInt8))
  | 0 => return []
  | n + 1 => do
    let entry ← groupDescription length
    if ← Scan.atEnd then return [entry]
    else return entry :: (← groupDescriptions length n)

def shiftTable (f : VersionFlags) : Scan AuxiliaryTable := do
  let field := shiftField f
  return cslg ⟨← field, ← field, ← field, ← field, ← field⟩

def shadowTable (_ : VersionFlags) : Scan AuxiliaryTable := do
  return stsh (← Scan.table (.ofChars 's' 't' 's' 'h') 8 pairRow)

def dependencyTable (_ : VersionFlags) : Scan AuxiliaryTable := do
  return sdtp (← Scan.rest)

def paddingTable (_ : VersionFlags) : Scan AuxiliaryTable := do
  let sampleCount ← Scan.u32
  return padb sampleCount (← Scan.bytes (← divCeil sampleCount.toNat 2))

def priorityTable (_ : VersionFlags) : Scan AuxiliaryTable := do
  return stdp ((← numbers 2 (← Scan.rest)).map UInt16.ofNat)

def subsampleTable (f : VersionFlags) : Scan AuxiliaryTable := do
  return subs (← Scan.table (.ofChars 's' 'u' 'b' 's') 6 (subsampleEntry f))

def infoSizeTable (f : VersionFlags) : Scan AuxiliaryTable := do
  let info ← infoType f
  let defaultSize ← Scan.u8
  let sampleCount ← Scan.u32
  let sizes ← if defaultSize = 0 then Scan.bytes sampleCount.toNat else pure []
  return saiz info defaultSize sampleCount sizes

def infoOffsetTable (f : VersionFlags) : Scan AuxiliaryTable := do
  let info ← infoType f
  let name : FourCc := .ofChars 's' 'a' 'i' 'o'
  if f.version = 0 then
    return saio info (← Scan.table name 4 (UInt32.toUInt64 <$> Scan.u32))
  else return saio info (← Scan.table name 8 Scan.u64)

def groupTable (f : VersionFlags) : Scan AuxiliaryTable := do
  let grouping ← Scan.fourCc
  let parameter ← if f.version = 1 then some <$> Scan.u32 else pure none
  return sbgp grouping parameter (← Scan.table (.ofChars 's' 'b' 'g' 'p') 8 pairRow)

def descriptionTable (f : VersionFlags) : Scan AuxiliaryTable := do
  let grouping ← Scan.fourCc
  let common ← if f.version = 1 then Scan.u32 else pure 0
  let defaultIndex ← if 2 ≤ f.version then some <$> Scan.u32 else pure none
  let count := (← Scan.u32).toNat
  return sgpd grouping defaultIndex (← groupDescriptions (entryLength f.version common) count)

/-- How the payload of each table is read. -/
def readers : List (FourCc × (VersionFlags → Scan AuxiliaryTable)) :=
  [(.ofChars 'c' 's' 'l' 'g', shiftTable),
   (.ofChars 's' 't' 's' 'h', shadowTable),
   (.ofChars 's' 'd' 't' 'p', dependencyTable),
   (.ofChars 'p' 'a' 'd' 'b', paddingTable),
   (.ofChars 's' 't' 'd' 'p', priorityTable),
   (.ofChars 's' 'u' 'b' 's', subsampleTable),
   (.ofChars 's' 'a' 'i' 'z', infoSizeTable),
   (.ofChars 's' 'a' 'i' 'o', infoOffsetTable),
   (.ofChars 's' 'b' 'g' 'p', groupTable),
   (.ofChars 's' 'g' 'p' 'd', descriptionTable)]

def auxiliary (type : FourCc) : Scan AuxiliaryTable := do
  let full ← Scan.versionFlags
  match readers.find? (·.1 = type) with
  | some (_, reader) => reader full
  | none => throw (.invalidArgument (.notAuxiliary type))

theorem words_eq (bs : List UInt8) :
    words bs = (chunksExact 2 bs).map fun c => UInt16.ofNat (bigEndian c) := by
  refine eq_map_chunksExact words Nat.zero_lt_two (fun c bs hc => ?_) (fun bs hbs => ?_) bs
  · match c, hc with
    | [_, _], _ => rfl
  · match bs, hbs with
    | [], _ => rfl
    | [_], _ => rfl

theorem follows_shiftField (f : VersionFlags) :
    Follows (shiftField f) (AuxiliaryTable.shiftField f) :=
  .ite (fun _ => follows_i32.map _) fun _ => follows_i64

theorem follows_pairRow : Follows pairRow AuxiliaryTable.pairRow :=
  follows_u32.bind fun _ => follows_u32.bind fun _ => .pure _

theorem follows_subsample (f : VersionFlags) :
    Follows (subsample f) (AuxiliaryTable.subsample f) := by
  refine .ite (fun _ => follows_u32.bind fun _ => ?_)
    fun _ => (follows_u16.map _).bind fun _ => ?_ <;>
  exact follows_u8.bind fun _ => follows_u8.bind fun _ => follows_u32.bind fun _ => .pure _

theorem follows_subsampleEntry (f : VersionFlags) :
    Follows (subsampleEntry f) (AuxiliaryTable.subsampleEntry f) :=
  follows_u32.bind fun _ => follows_u16.bind fun n =>
    (follows_rows (follows_subsample f) n.toNat).bind fun _ => .pure _

theorem follows_infoType (f : VersionFlags) : Follows (infoType f) (AuxiliaryTable.infoType f) :=
  .ite (fun _ => follows_fourCc.bind fun _ => follows_u32.bind fun _ => .pure _) fun _ => .pure _

theorem follows_groupDescription (length : EntryLength) :
    Follows (groupDescription length) (AuxiliaryTable.groupDescription length) := by
  cases length with
  | uniform n => exact follows_bytes n
  | counted => exact follows_u32.bind fun n => follows_bytes n.toNat
  | unknown => exact follows_left.bind fun n => follows_bytes n

theorem groupDescriptionsFrom_succ (length : EntryLength) (n : Nat) (acc : List (List UInt8)) :
    groupDescriptionsFrom length (n + 1) acc =
      AuxiliaryTable.groupDescription length >>= fun entry => Decode.atEnd >>= fun ended =>
        if ended then pure (entry :: acc).reverse
        else groupDescriptionsFrom length n (entry :: acc) := by
  funext c
  show _ = Except.bind (AuxiliaryTable.groupDescription length c) _
  rw [groupDescriptionsFrom]
  cases AuxiliaryTable.groupDescription length c with
  | error e => rfl
  | ok x =>
    obtain ⟨entry, c'⟩ := x
    show _ = (if c'.rest.isEmpty then pure (entry :: acc).reverse
      else groupDescriptionsFrom length n (entry :: acc)) c'
    dsimp only
    cases c'.rest <;> rfl

theorem follows_groupDescriptionsFrom (length : EntryLength) (n : Nat) (acc : List (List UInt8)) :
    Follows ((acc.reverse ++ ·) <$> groupDescriptions length n)
      (groupDescriptionsFrom length n acc) := by
  induction n generalizing acc with
  | zero =>
    show Follows (pure (acc.reverse ++ [])) (pure acc.reverse)
    rw [List.append_nil]
    exact .pure _
  | succ n ih =>
    have hentries : (acc.reverse ++ ·) <$> groupDescriptions length (n + 1) =
        groupDescription length >>= fun entry => Scan.atEnd >>= fun ended =>
          if ended then pure (entry :: acc).reverse
          else ((entry :: acc).reverse ++ ·) <$> groupDescriptions length n := by
      simp only [groupDescriptions, map_eq_pure_bind, bind_assoc]
      refine bind_congr fun entry => bind_congr fun ended => ?_
      split <;> simp
    rw [hentries, groupDescriptionsFrom_succ]
    exact (follows_groupDescription length).bind fun entry => follows_atEnd.bind fun _ =>
      .ite (fun _ => .pure _) fun _ => ih (entry :: acc)

theorem follows_groupDescriptions (length : EntryLength) (n : Nat) :
    Follows (groupDescriptions length n) (groupDescriptionsFrom length n []) := by
  have hfrom := follows_groupDescriptionsFrom length n []
  simp only [List.reverse_nil, List.nil_append, id_map'] at hfrom
  exact hfrom

theorem follows_shiftTable (f : VersionFlags) : Follows (shiftTable f) (cslgFields f) :=
  (follows_shiftField f).bind fun _ => (follows_shiftField f).bind fun _ =>
    (follows_shiftField f).bind fun _ => (follows_shiftField f).bind fun _ =>
      (follows_shiftField f).bind fun _ => .pure _

theorem follows_shadowTable (f : VersionFlags) : Follows (shadowTable f) (stshFields f) :=
  (follows_table _ (by decide) follows_pairRow).bind fun _ => .pure _

theorem follows_dependencyTable (f : VersionFlags) : Follows (dependencyTable f) (sdtpFields f) :=
  .rest fun _ _ => .pure _

theorem follows_paddingTable (f : VersionFlags) : Follows (paddingTable f) (padbFields f) :=
  follows_u32.bind fun count =>
    .step (divCeil_two (Nat.lt_trans count.toNat_lt (by decide))) <|
      (follows_bytes _).bind fun _ => .pure _

theorem follows_priorityTable (f : VersionFlags) : Follows (priorityTable f) (stdpFields f) :=
  .rest fun bs _ => .step (numbers_eq 2 bs) (by
    rw [List.map_map, words_eq]
    exact .pure _)

theorem follows_subsampleTable (f : VersionFlags) : Follows (subsampleTable f) (subsFields f) :=
  (follows_table _ (by decide) (follows_subsampleEntry f)).bind fun _ => .pure _

theorem follows_infoSizeTable (f : VersionFlags) : Follows (infoSizeTable f) (saizFields f) :=
  (follows_infoType f).bind fun _ => follows_u8.bind fun _ => follows_u32.bind fun count =>
    .ite (fun _ => (follows_bytes count.toNat).bind fun _ => .pure _)
      fun _ => (Follows.pure _).bind fun _ => .pure _

theorem follows_infoOffsetTable (f : VersionFlags) : Follows (infoOffsetTable f) (saioFields f) :=
  (follows_infoType f).bind fun _ =>
    .ite (fun _ => (follows_table _ (by decide) (follows_u32.map _)).bind fun _ => .pure _)
      fun _ => (follows_table _ (by decide) follows_u64).bind fun _ => .pure _

theorem follows_groupTable (f : VersionFlags) : Follows (groupTable f) (sbgpFields f) := by
  refine follows_fourCc.bind fun _ => .ite (fun _ => (follows_u32.map _).bind fun _ => ?_)
    fun _ => (Follows.pure _).bind fun _ => ?_ <;>
  exact (follows_table _ (by decide) follows_pairRow).bind fun _ => .pure _

theorem follows_descriptionTable (f : VersionFlags) :
    Follows (descriptionTable f) (sgpdFields f) := by
  have hentries (grouping : FourCc) (common : UInt32) (defaultIndex : Option UInt32) :
      Follows
        (do
          let count := (← Scan.u32).toNat
          return sgpd grouping defaultIndex
            (← groupDescriptions (entryLength f.version common) count))
        (do
          let count := (← Decode.u32).toNat
          return sgpd grouping defaultIndex
            (← groupDescriptionsFrom (entryLength f.version common) count [])) :=
    follows_u32.bind fun count => (follows_groupDescriptions _ count.toNat).bind fun _ => .pure _
  refine follows_fourCc.bind fun _ => .ite (fun _ => follows_u32.bind fun _ => ?_)
    fun _ => (Follows.pure _).bind fun _ => ?_ <;>
  exact .ite (fun _ => (follows_u32.map _).bind fun _ => hentries _ _ _)
    fun _ => (Follows.pure _).bind fun _ => hentries _ _ _

/-- Each table is read by the reader that has its type code. -/
theorem readers_follow : List.Forall₂
    (fun q p => q.1 = p.1 ∧ ∀ f, Follows (q.2 f) (p.2 f)) readers AuxiliaryTable.readers :=
  .cons ⟨rfl, follows_shiftTable⟩ <| .cons ⟨rfl, follows_shadowTable⟩ <|
    .cons ⟨rfl, follows_dependencyTable⟩ <| .cons ⟨rfl, follows_paddingTable⟩ <|
      .cons ⟨rfl, follows_priorityTable⟩ <| .cons ⟨rfl, follows_subsampleTable⟩ <|
        .cons ⟨rfl, follows_infoSizeTable⟩ <| .cons ⟨rfl, follows_infoOffsetTable⟩ <|
          .cons ⟨rfl, follows_groupTable⟩ <| .cons ⟨rfl, follows_descriptionTable⟩ .nil

/-- Of two lists with the same type codes the parts that are sought correspond. -/
theorem find?_forall₂ {β : Type} {R : FourCc × α → FourCc × β → Prop} {qs : List (FourCc × α)}
    {ps : List (FourCc × β)} (h : List.Forall₂ (fun q p => q.1 = p.1 ∧ R q p) qs ps)
    (type : FourCc) :
    (qs.find? (·.1 = type) = none ∧ ps.find? (·.1 = type) = none) ∨
      ∃ q p, qs.find? (·.1 = type) = some q ∧ ps.find? (·.1 = type) = some p ∧ R q p := by
  induction h with
  | nil => exact .inl ⟨rfl, rfl⟩
  | @cons q p qs ps h _ ih =>
    by_cases htype : q.1 = type
    · exact .inr ⟨q, p, List.find?_cons_of_pos (by simpa using htype),
        List.find?_cons_of_pos (by simpa [← h.1] using htype), h.2⟩
    · rw [List.find?_cons_of_neg (by simpa using htype),
        List.find?_cons_of_neg (by simpa [← h.1] using htype)]
      exact ih

theorem follows_auxiliary (type : FourCc) :
    Follows (auxiliary type) (AuxiliaryTable.fields type) := by
  unfold auxiliary AuxiliaryTable.fields
  refine follows_versionFlags.bind fun full => ?_
  rcases find?_forall₂ readers_follow type with ⟨hq, hp⟩ | ⟨q, p, hq, hp, hfollow⟩
  · rw [hq, hp]
    exact .throw _
  · rw [hq, hp]
    exact hfollow full

end IsoMedia.Machine
