import IsoMedia.Proofs.Bytes.Layout
import IsoMedia.Sample.Auxiliary

/-!
# Writing auxiliary tables, and reading them back

`AuxiliaryTable.bytes` writes a table behind a version and flags, on which depends how wide its
fields are and which of them are there (`AuxiliaryTable.Layout`).  A table that the layout has room
for (`AuxiliaryTable.Fits`) is read back as it was written (`AuxiliaryTable.ofPayload_bytes`).
-/

namespace IsoMedia

def CompositionShift.fields (s : CompositionShift) : List Int64 :=
  [s.compositionToDecode, s.leastDelta, s.greatestDelta, s.start, s.stop]

namespace AuxiliaryTable

/-- What a table is written with beside what it keeps. -/
structure Layout where
  full : VersionFlags
  /-- The length of every description of a group, or zero if each is preceded by its own. -/
  common : UInt32
  /-- The byte of a part that may be discarded. -/
  mark : UInt8
deriving DecidableEq

/-- The flags take three bytes, and a part that may be discarded is told from one that may not. -/
structure Layout.Sound (l : Layout) : Prop where
  flags : l.full.flags.toNat < 2 ^ 24
  mark : l.mark ≠ 0

/-! ### Writing -/

namespace Layout

variable (l : Layout)

/-- A signed field, of four bytes in version 0 and of eight bytes otherwise. -/
def shift (x : Int64) : List UInt8 :=
  if l.full.version = 0 then numberBytes 4 x.toInt32.toUInt32.toNat
  else numberBytes 8 x.toUInt64.toNat

/-- A part of a sample, with a size of four bytes in version 1 and of two bytes otherwise. -/
def part (s : Subsample) : List UInt8 :=
  [numberBytes (if l.full.version = 1 then 4 else 2) s.size.toNat, [s.priority],
    [if s.discardable then l.mark else 0], numberBytes 4 s.parameters.toNat].flatten

/-- The parts of a sample behind their number. -/
def parts (e : SubsampleEntry) : List UInt8 :=
  [numberBytes 4 e.sampleDelta.toNat, numberBytes 2 e.subsamples.length,
    e.subsamples.flatMap l.part].flatten

/-- An offset, of four bytes in version 0 and of eight bytes otherwise. -/
def offset (o : UInt64) : List UInt8 := numberBytes (if l.full.version = 0 then 4 else 8) o.toNat

/-- A description of a group, behind its length if there is none for all. -/
def description (d : List UInt8) : List UInt8 :=
  if l.common = 0 then [numberBytes 4 d.length, d].flatten else d

end Layout

def pairBytes (p : UInt32 × UInt32) : List UInt8 :=
  [numberBytes 4 p.1.toNat, numberBytes 4 p.2.toNat].flatten

def infoBytes : Option InfoType → List UInt8
  | none => []
  | some info => [info.type.bytes, numberBytes 4 info.parameter.toNat].flatten

def parameterBytes : Option UInt32 → List UInt8
  | none => []
  | some n => numberBytes 4 n.toNat

/-- The type of the box of the table. -/
def type : AuxiliaryTable → FourCc
  | cslg _ => .ofChars 'c' 's' 'l' 'g'
  | stsh _ => .ofChars 's' 't' 's' 'h'
  | sdtp _ => .ofChars 's' 'd' 't' 'p'
  | padb _ _ => .ofChars 'p' 'a' 'd' 'b'
  | stdp _ => .ofChars 's' 't' 'd' 'p'
  | subs _ => .ofChars 's' 'u' 'b' 's'
  | saiz _ _ _ _ => .ofChars 's' 'a' 'i' 'z'
  | saio _ _ => .ofChars 's' 'a' 'i' 'o'
  | sbgp _ _ _ => .ofChars 's' 'b' 'g' 'p'
  | sgpd _ _ _ => .ofChars 's' 'g' 'p' 'd'

/-- The fields of the table behind the version and the flags. -/
def fieldsBytes (l : Layout) : AuxiliaryTable → List (List UInt8)
  | cslg s => s.fields.map l.shift
  | stsh entries => [numberBytes 4 entries.length, entries.flatMap pairBytes]
  | sdtp flags => [flags]
  | padb sampleCount bits => [numberBytes 4 sampleCount.toNat, bits]
  | stdp priorities => [priorities.flatMap fun p => numberBytes 2 p.toNat]
  | subs entries => [numberBytes 4 entries.length, entries.flatMap l.parts]
  | saiz info defaultSize sampleCount sizes =>
    [infoBytes info, [defaultSize], numberBytes 4 sampleCount.toNat, sizes]
  | saio info offsets => [infoBytes info, numberBytes 4 offsets.length, offsets.flatMap l.offset]
  | sbgp grouping parameter entries =>
    [grouping.bytes, parameterBytes parameter, numberBytes 4 entries.length,
      entries.flatMap pairBytes]
  | sgpd grouping _ entries =>
    [grouping.bytes, numberBytes 4 l.common.toNat, numberBytes 4 entries.length,
      entries.flatMap l.description]

/-- The payload of the table. -/
def bytes (l : Layout) (t : AuxiliaryTable) : List UInt8 :=
  (l.full.bytes :: t.fieldsBytes l).flatten

/-- The layout has room for every field of the table, and has the optional ones that are there. -/
def Fits (l : Layout) : AuxiliaryTable → Prop
  | cslg s => l.full.version = 0 → ∀ x ∈ s.fields, -2 ^ 31 ≤ x.toInt ∧ x.toInt < 2 ^ 31
  | stsh entries => entries.length < 2 ^ 32
  | sdtp _ => True
  | padb sampleCount bits => bits.length = (sampleCount.toNat + 1) / 2
  | stdp _ => True
  | subs entries => entries.length < 2 ^ 32 ∧ ∀ e ∈ entries, e.subsamples.length < 2 ^ 16 ∧
      (l.full.version ≠ 1 → ∀ s ∈ e.subsamples, s.size.toNat < 2 ^ 16)
  | saiz info defaultSize sampleCount sizes => info.isSome = l.full.lowBit ∧
      sizes.length = if defaultSize = 0 then sampleCount.toNat else 0
  | saio info offsets => info.isSome = l.full.lowBit ∧ offsets.length < 2 ^ 32 ∧
      (l.full.version = 0 → ∀ o ∈ offsets, o.toNat < 2 ^ 32)
  | sbgp _ parameter entries =>
    (parameter.isSome ↔ l.full.version = 1) ∧ entries.length < 2 ^ 32
  | sgpd _ defaultIndex entries => l.full.version = 1 ∧ defaultIndex = none ∧
      entries.length < 2 ^ 32 ∧
      ∀ d ∈ entries, if l.common = 0 then d.length < 2 ^ 32 else d.length = l.common.toNat

/-- Where the table declares how many entries it has, and how many these are. -/
def declared? : AuxiliaryTable → Option (Nat × Nat)
  | cslg _ | sdtp _ | stdp _ | padb _ _ | saiz _ _ _ _ => none
  | stsh entries => some (4, entries.length)
  | subs entries => some (4, entries.length)
  | saio info offsets => some (4 + (infoBytes info).length, offsets.length)
  | sbgp _ parameter entries => some (8 + (parameterBytes parameter).length, entries.length)
  | sgpd _ _ entries => some (12, entries.length)

/-! ### Reading -/

open Decode

variable {l : Layout}

theorem toInt64_toInt32 {x : Int64} (h : -2 ^ 31 ≤ x.toInt ∧ x.toInt < 2 ^ 31) :
    x.toInt32.toInt64 = x := by
  refine Int64.toInt_inj.1 ?_
  rw [Int32.toInt_toInt64, Int64.toInt_toInt32, Int.bmod_eq_of_le (by omega) (by omega)]

theorem reads_shiftField {x : Int64}
    (h : l.full.version = 0 → -2 ^ 31 ≤ x.toInt ∧ x.toInt < 2 ^ 31) :
    Reads (shiftField l.full) (l.shift x) x := by
  unfold shiftField Layout.shift
  by_cases hversion : l.full.version = 0
  · have hread := (reads_i32 x.toInt32).map Int32.toInt64
    rw [toInt64_toInt32 (h hversion)] at hread
    rwa [if_pos hversion, if_pos hversion]
  · rw [if_neg hversion, if_neg hversion]
    exact reads_i64 x

theorem reads_pairRow (p : UInt32 × UInt32) : Reads pairRow (pairBytes p) p :=
  (reads_u32 p.1).bind ((reads_u32 p.2).bind (.pure _))

theorem length_pairBytes (p : UInt32 × UInt32) : (pairBytes p).length = 8 := by
  simp [pairBytes]

/-- A number that fits a half word is read from it as a word. -/
theorem reads_narrowSize {n : UInt32} (h : n.toNat < 2 ^ 16) :
    Reads (UInt16.toUInt32 <$> u16) (numberBytes 2 n.toNat) n := by
  have hread := (reads_halfWord (UInt16.ofNat n.toNat)).map UInt16.toUInt32
  have hvalue : (UInt16.ofNat n.toNat).toUInt32 = n := by
    refine UInt32.toNat_inj.1 ?_
    rw [UInt16.toNat_toUInt32, UInt16.toNat_ofNat_of_lt' h]
  rwa [UInt16.toNat_ofNat_of_lt' h, hvalue] at hread

/-- Every mark but zero tells that a part may be discarded. -/
theorem decide_mark_ne (hl : l.Sound) (discardable : Bool) :
    decide ((if discardable then l.mark else 0) ≠ 0) = discardable := by
  cases discardable with
  | false => rfl
  | true => exact decide_eq_true hl.mark

theorem reads_subsample (hl : l.Sound) {s : Subsample}
    (h : l.full.version ≠ 1 → s.size.toNat < 2 ^ 16) :
    Reads (subsample l.full) (l.part s) s := by
  have hrest : ∀ size, Reads
      (do
        let priority ← u8
        let discardable := (← u8) ≠ 0
        return ⟨size, priority, discardable, ← u32⟩ : Decode Subsample)
      [[s.priority], [if s.discardable then l.mark else 0],
        numberBytes 4 s.parameters.toNat].flatten
      ⟨size, s.priority, s.discardable, s.parameters⟩ := by
    intro size
    refine (reads_u8 _).bind ((reads_u8 _).bind ?_)
    dsimp only
    rw [decide_mark_ne hl]
    exact (reads_u32 _).bind (.pure _)
  unfold subsample Layout.part
  by_cases hversion : l.full.version = 1
  · rw [if_pos hversion, if_pos hversion]
    exact (reads_u32 s.size).bind (hrest _)
  · rw [if_neg hversion, if_neg hversion]
    exact (reads_narrowSize (h hversion)).bind (hrest _)

theorem reads_subsampleEntry (hl : l.Sound) {e : SubsampleEntry}
    (hcount : e.subsamples.length < 2 ^ 16)
    (h : l.full.version ≠ 1 → ∀ s ∈ e.subsamples, s.size.toNat < 2 ^ 16) :
    Reads (subsampleEntry l.full) (l.parts e) e := by
  have hparts : Reads (rows e.subsamples.length (subsample l.full)) (e.subsamples.flatMap l.part)
      e.subsamples := reads_rows fun s hs => reads_subsample hl fun hversion => h hversion s hs
  have hnumber := reads_halfWord (UInt16.ofNat e.subsamples.length)
  rw [UInt16.toNat_ofNat_of_lt' hcount] at hnumber
  refine (reads_u32 _).bind (hnumber.bind ?_)
  rw [UInt16.toNat_ofNat_of_lt' hcount]
  exact hparts.bind (.pure _)

theorem six_le_length_parts (l : Layout) (e : SubsampleEntry) : 6 ≤ (l.parts e).length := by
  simp only [Layout.parts, List.flatten_cons, List.length_append, length_numberBytes]
  omega

theorem reads_infoType {info : Option InfoType} (h : info.isSome = l.full.lowBit) :
    Reads (infoType l.full) (infoBytes info) info := by
  unfold infoType
  rw [← h]
  cases info with
  | none => exact .pure none
  | some info => exact (reads_fourCc _).bind ((reads_u32 _).bind (.pure _))

theorem reads_narrowOffset {o : UInt64} (h : o.toNat < 2 ^ 32) :
    Reads (UInt32.toUInt64 <$> u32) (numberBytes 4 o.toNat) o := by
  have hread := (reads_u32 (UInt32.ofNat o.toNat)).map UInt32.toUInt64
  have hvalue : (UInt32.ofNat o.toNat).toUInt64 = o := by
    refine UInt64.toNat_inj.1 ?_
    rw [UInt32.toNat_toUInt64, UInt32.toNat_ofNat_of_lt' h]
  rwa [UInt32.toNat_ofNat_of_lt' h, hvalue] at hread

/-- Descriptions are read one after the other: as each of them takes bytes, the end is not reached
before the last one. -/
theorem reads_groupDescriptionsFrom {length : EntryLength} {write : List UInt8 → List UInt8}
    {ds : List (List UInt8)} (h : ∀ d ∈ ds, Reads (groupDescription length) (write d) d)
    (hsome : ∀ d ∈ ds, write d ≠ []) (acc : List (List UInt8)) :
    Reads (groupDescriptionsFrom length ds.length acc) (ds.flatMap write) (acc.reverse ++ ds) := by
  induction ds generalizing acc with
  | nil =>
    intro rest pos
    rw [List.append_nil]
    rfl
  | cons d ds ih =>
    rw [List.forall_mem_cons] at h hsome
    intro rest pos
    have hnext := ih h.2 hsome.2 (d :: acc) rest (pos + (write d).length)
    rw [List.flatMap_cons, List.append_assoc, List.length_cons, groupDescriptionsFrom, h.1]
    dsimp only
    rw [List.length_append, ← Nat.add_assoc]
    rw [List.reverse_cons, List.append_assoc, List.singleton_append] at hnext
    by_cases hend : ds.flatMap write ++ rest = []
    · obtain ⟨hds, rfl⟩ := List.append_eq_nil_iff.1 hend
      obtain rfl : ds = [] := by
        cases ds with
        | nil => rfl
        | cons d' ds =>
          have hempty := List.flatMap_eq_nil_iff.1 hds d' List.mem_cons_self
          exact absurd hempty (hsome.2 d' List.mem_cons_self)
      rw [if_pos hend, List.reverse_cons]
      rfl
    · rw [if_neg hend]
      exact hnext

theorem words_flatMap (ps : List UInt16) :
    words (ps.flatMap fun p => numberBytes 2 p.toNat) = ps := by
  induction ps with
  | nil => rfl
  | cons p ps ih =>
    have hp : UInt16.ofNat (bigEndian (numberBytes 2 p.toNat)) = p := by
      rw [bigEndian_numberBytes (by simpa using p.toNat_lt), UInt16.ofNat_toNat]
    show UInt16.ofNat (bigEndian (numberBytes 2 p.toNat)) ::
      words (ps.flatMap fun p => numberBytes 2 p.toNat) = _
    rw [hp, ih]

/-! ### All tables -/

theorem reads_cslgFields {s : CompositionShift} (h : (cslg s).Fits l) :
    Reads (cslgFields l.full) ((cslg s).fieldsBytes l).flatten (cslg s) := by
  have hfield : ∀ x ∈ s.fields, Reads (shiftField l.full) (l.shift x) x :=
    fun x hx => reads_shiftField fun hversion => h hversion x hx
  simp only [CompositionShift.fields, List.forall_mem_cons] at hfield
  obtain ⟨h₁, h₂, h₃, h₄, h₅, -⟩ := hfield
  exact h₁.bind (h₂.bind (h₃.bind (h₄.bind (h₅.bind (.pure _)))))

theorem reads_pairs (name : FourCc) {entries : List (UInt32 × UInt32)}
    (h : entries.length < 2 ^ 32) :
    Reads (table name 8 pairRow) [numberBytes 4 entries.length, entries.flatMap pairBytes].flatten
      entries :=
  reads_table name (by decide) (fun p _ => Nat.le_of_eq (length_pairBytes p).symm)
    (fun p _ => reads_pairRow p) h

theorem reads_stshFields {entries : List (UInt32 × UInt32)} (h : (stsh entries).Fits l) :
    Reads (stshFields l.full) ((stsh entries).fieldsBytes l).flatten (stsh entries) :=
  (reads_pairs _ h).returning stsh

theorem reads_padbFields {sampleCount : UInt32} {bits : List UInt8}
    (h : (padb sampleCount bits).Fits l) :
    Reads (padbFields l.full) ((padb sampleCount bits).fieldsBytes l).flatten
      (padb sampleCount bits) := by
  refine (reads_u32 _).bind ?_
  rw [← show bits.length = _ from h]
  exact (reads_bytes bits).bind (.pure _)

theorem reads_subsFields (hl : l.Sound) {entries : List SubsampleEntry}
    (h : (subs entries).Fits l) :
    Reads (subsFields l.full) ((subs entries).fieldsBytes l).flatten (subs entries) :=
  (reads_table _ (by decide) (fun e _ => six_le_length_parts l e)
    (fun e he => reads_subsampleEntry hl (h.2 e he).1 (h.2 e he).2) h.1).returning subs

theorem reads_saizFields {info : Option InfoType} {defaultSize : UInt8} {sampleCount : UInt32}
    {sizes : List UInt8} (h : (saiz info defaultSize sampleCount sizes).Fits l) :
    Reads (saizFields l.full) ((saiz info defaultSize sampleCount sizes).fieldsBytes l).flatten
      (saiz info defaultSize sampleCount sizes) := by
  obtain ⟨hinfo, hsizes⟩ := h
  refine (reads_infoType hinfo).bind ((reads_u8 _).bind ((reads_u32 _).bind ?_))
  by_cases hdefault : defaultSize = 0
  · rw [if_pos hdefault] at hsizes ⊢
    rw [← hsizes]
    exact (reads_bytes sizes).bind (.pure _)
  · rw [if_neg hdefault] at hsizes ⊢
    obtain rfl := List.eq_nil_of_length_eq_zero hsizes
    exact (Reads.pure []).bind (.pure _)

theorem reads_saioFields {info : Option InfoType} {offsets : List UInt64}
    (h : (saio info offsets).Fits l) :
    Reads (saioFields l.full) ((saio info offsets).fieldsBytes l).flatten (saio info offsets) := by
  obtain ⟨hinfo, hcount, hnarrow⟩ := h
  refine (reads_infoType hinfo).bind ?_
  dsimp only
  unfold Layout.offset
  by_cases hversion : l.full.version = 0
  · simp only [if_pos hversion]
    exact (reads_table _ (by decide) (fun o _ => Nat.le_of_eq (length_numberBytes 4 _).symm)
      (fun o ho => reads_narrowOffset (hnarrow hversion o ho)) hcount).returning _
  · simp only [if_neg hversion]
    exact (reads_table _ (by decide) (fun o _ => Nat.le_of_eq (length_numberBytes 8 _).symm)
      (fun o _ => reads_u64 o) hcount).returning _

theorem reads_sbgpFields {grouping : FourCc} {parameter : Option UInt32}
    {entries : List (UInt32 × UInt32)} (h : (sbgp grouping parameter entries).Fits l) :
    Reads (sbgpFields l.full) ((sbgp grouping parameter entries).fieldsBytes l).flatten
      (sbgp grouping parameter entries) := by
  obtain ⟨hparameter, hcount⟩ := h
  refine (reads_fourCc _).bind ?_
  by_cases hversion : l.full.version = 1
  · obtain ⟨n, rfl⟩ := Option.isSome_iff_exists.1 (hparameter.2 hversion)
    rw [if_pos hversion]
    exact ((reads_u32 n).map some).bind ((reads_pairs _ hcount).returning _)
  · obtain rfl := Option.not_isSome_iff_eq_none.1 fun hsome => hversion (hparameter.1 hsome)
    rw [if_neg hversion]
    exact (Reads.pure none).bind ((reads_pairs _ hcount).returning _)

/-- A description is read by its length, which stands before it or is that of all of them. -/
theorem reads_groupDescription {d : List UInt8} (hversion : l.full.version = 1)
    (h : if l.common = 0 then d.length < 2 ^ 32 else d.length = l.common.toNat) :
    Reads (groupDescription (entryLength l.full.version l.common)) (l.description d) d := by
  unfold entryLength Layout.description
  rw [if_pos hversion]
  by_cases hcommon : l.common = 0
  · rw [if_pos hcommon] at h ⊢
    rw [if_pos hcommon]
    refine (reads_count h).bind ?_
    rw [UInt32.toNat_ofNat_of_lt' h]
    exact (reads_bytes d).last
  · rw [if_neg hcommon] at h ⊢
    rw [if_neg hcommon, ← h]
    exact reads_bytes d

/-- Every description takes bytes: those of its length, or its own. -/
theorem description_ne_nil {d : List UInt8}
    (h : if l.common = 0 then d.length < 2 ^ 32 else d.length = l.common.toNat) :
    l.description d ≠ [] := by
  intro hnil
  have hlength := congrArg List.length hnil
  unfold Layout.description at hlength
  by_cases hcommon : l.common = 0
  · rw [if_pos hcommon] at hlength
    simp at hlength
  · rw [if_neg hcommon] at h hlength
    exact hcommon (UInt32.toNat_inj.1 (h.symm.trans hlength))

theorem reads_sgpdFields {grouping : FourCc} {defaultIndex : Option UInt32}
    {entries : List (List UInt8)} (h : (sgpd grouping defaultIndex entries).Fits l) :
    Reads (sgpdFields l.full) ((sgpd grouping defaultIndex entries).fieldsBytes l).flatten
      (sgpd grouping defaultIndex entries) := by
  obtain ⟨hversion, rfl, hcount, hentries⟩ := h
  have hdescriptions := reads_groupDescriptionsFrom
    (fun d hd => reads_groupDescription hversion (hentries d hd))
    (fun d hd => description_ne_nil (hentries d hd)) []
  have hlow : ¬ 2 ≤ l.full.version := by
    rw [hversion]
    decide
  refine (reads_fourCc _).bind ?_
  rw [if_pos hversion]
  refine (reads_u32 _).bind ?_
  dsimp only
  rw [if_neg hlow, pure_bind]
  refine (reads_count hcount).bind ?_
  rw [UInt32.toNat_ofNat_of_lt' hcount]
  exact hdescriptions.bind (.pure _)

variable {t : AuxiliaryTable}

/-- Every table has a reader, which reads it to its end. -/
theorem exists_reader (hl : l.Sound) (h : t.Fits l) :
    ∃ reader, readers.find? (·.1 = t.type) = some (t.type, reader) ∧
      ReadsBefore (t.fieldsBytes l).flatten (reader l.full) [] t := by
  cases t with
  | cslg s => exact ⟨cslgFields, rfl, (reads_cslgFields h).upToEnd⟩
  | stsh entries => exact ⟨stshFields, rfl, (reads_stshFields h).upToEnd⟩
  | sdtp flags =>
    refine ⟨sdtpFields, rfl, ?_⟩
    rw [fieldsBytes, List.flatten_singleton]
    exact readsBefore_rest flags sdtp
  | padb sampleCount bits => exact ⟨padbFields, rfl, (reads_padbFields h).upToEnd⟩
  | stdp priorities =>
    have hread := readsBefore_rest (priorities.flatMap fun p => numberBytes 2 p.toNat)
      fun bs => stdp (words bs)
    rw [words_flatMap] at hread
    refine ⟨stdpFields, rfl, ?_⟩
    rw [fieldsBytes, List.flatten_singleton]
    exact hread
  | subs entries => exact ⟨subsFields, rfl, (reads_subsFields hl h).upToEnd⟩
  | saiz info defaultSize sampleCount sizes =>
    exact ⟨saizFields, rfl, (reads_saizFields h).upToEnd⟩
  | saio info offsets => exact ⟨saioFields, rfl, (reads_saioFields h).upToEnd⟩
  | sbgp grouping parameter entries => exact ⟨sbgpFields, rfl, (reads_sbgpFields h).upToEnd⟩
  | sgpd grouping defaultIndex entries => exact ⟨sgpdFields, rfl, (reads_sgpdFields h).upToEnd⟩

theorem ofPayload_bytes (hl : l.Sound) (h : t.Fits l) : ofPayload t.type (t.bytes l) = .ok t := by
  obtain ⟨reader, hreader, hread⟩ := exists_reader hl h
  have hall : ReadsBefore (t.fieldsBytes l).flatten (fields t.type) [l.full.bytes].flatten t := by
    unfold fields
    rw [hreader]
    exact (reads_fullHead hl.flags).before hread
  rw [ofPayload, bytes, List.flatten_cons, ← hall.parse, List.flatten_singleton]

theorem wordAt_declared (h : t.Fits l) {place n : Nat} (hdeclared : t.declared? = some (place, n)) :
    (wordAt (t.bytes l) place).toNat = n := by
  have hnumber (before : List (List UInt8)) {after : List (List UInt8)} {count : Nat}
      (hcount : count < 2 ^ 32)
      (hbytes : t.bytes l = (before ++ numberBytes 4 count :: after).flatten)
      (hplace : before.flatten.length = place) : (wordAt (t.bytes l) place).toNat = count := by
    rw [hbytes, wordAt_flatten before count after hplace, UInt32.toNat_ofNat_of_lt' hcount]
  cases t with
  | cslg | sdtp | padb | stdp | saiz => cases hdeclared
  | stsh entries =>
    cases hdeclared
    exact hnumber [l.full.bytes] h rfl rfl
  | subs entries =>
    cases hdeclared
    exact hnumber [l.full.bytes] h.1 rfl rfl
  | saio info offsets =>
    cases hdeclared
    exact hnumber [l.full.bytes, infoBytes info] h.2.1 rfl (by simp)
  | sbgp grouping parameter entries =>
    cases hdeclared
    exact hnumber [l.full.bytes, grouping.bytes, parameterBytes parameter] h.2 rfl
      (by simp; omega)
  | sgpd grouping defaultIndex entries =>
    cases hdeclared
    exact hnumber [l.full.bytes, grouping.bytes, numberBytes 4 l.common.toNat] h.2.2.1 rfl
      (by simp)

/-- **A table is read as what was written**: in every layout that has room for it, all of its fields
are found again, and as many entries as its payload declares. -/
theorem read_written (hl : l.Sound) (h : t.Fits l) :
    ofPayload t.type (t.bytes l) = .ok t ∧
      ∀ place n, t.declared? = some (place, n) → (wordAt (t.bytes l) place).toNat = n :=
  ⟨ofPayload_bytes hl h, fun _ _ => wordAt_declared h⟩

/-- Two descriptions of groups behind their lengths, and an empty one behind them. -/
def lengthsApart : AuxiliaryTable := sgpd (.ofChars 'r' 'o' 'l' 'l') none [[0xFF, 0xFE], [7], []]

/-- Parts of samples of which one may be discarded, behind a sample without any. -/
def wideParts : AuxiliaryTable :=
  subs [⟨1, []⟩, ⟨2, [⟨0x10000, 5, true, 9⟩, ⟨3, 0, false, 0⟩]⟩]

/-- The empty description at the end is read, and a size that takes more than two bytes. -/
theorem lengthsApart_and_wideParts_read :
    (lengthsApart.Fits ⟨⟨1, 0⟩, 0, 1⟩ ∧ wideParts.Fits ⟨⟨1, 5⟩, 0, 0x80⟩) ∧
    ofPayload (.ofChars 's' 'g' 'p' 'd')
        [1, 0, 0, 0, 0x72, 0x6F, 0x6C, 0x6C, 0, 0, 0, 0, 0, 0, 0, 3, 0, 0, 0, 2, 0xFF, 0xFE,
          0, 0, 0, 1, 7, 0, 0, 0, 0] = .ok lengthsApart ∧
    ofPayload (.ofChars 's' 'u' 'b' 's')
        [1, 0, 0, 5, 0, 0, 0, 2, 0, 0, 0, 1, 0, 0, 0, 0, 0, 2, 0, 2, 0, 1, 0, 0, 5, 0x80,
          0, 0, 0, 9, 0, 0, 0, 3, 0, 0, 0, 0, 0, 0] = .ok wideParts := by
  have hlengths : lengthsApart.Fits ⟨⟨1, 0⟩, 0, 1⟩ := by
    refine ⟨rfl, rfl, by decide, ?_⟩
    decide
  have hparts : wideParts.Fits ⟨⟨1, 5⟩, 0, 0x80⟩ := by
    refine ⟨by decide, fun e he => ⟨?_, fun hversion => absurd rfl hversion⟩⟩
    revert e
    decide
  exact ⟨⟨hlengths, hparts⟩, (read_written ⟨by decide, by decide⟩ hlengths).1,
    (read_written ⟨by decide, by decide⟩ hparts).1⟩

end AuxiliaryTable

end IsoMedia
