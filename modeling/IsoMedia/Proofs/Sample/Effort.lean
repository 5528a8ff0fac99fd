import IsoMedia.Proofs.Bytes.Counting
import IsoMedia.Proofs.Machine.Tables

/-!
# The effort of reading auxiliary tables

Auxiliary tables are read once more with the turns of their loops counted
(`AuxiliaryTable.counted`).  Each turn but the last takes bytes, so there are at most as many turns
as bytes, whatever number of entries is declared, and no more entries and bytes are kept
(`AuxiliaryTable.counted_within_payload`).
-/

namespace IsoMedia.AuxiliaryTable

open Tally

/-! ### Counting -/

/-- How many entries a table has, the parts of its samples among them. -/
def entryCount : AuxiliaryTable → Nat
  | cslg _ => 0
  | stsh entries => entries.length
  | sdtp flags => flags.length
  | padb _ bits => bits.length
  | stdp priorities => priorities.length
  | subs entries => entries.length + (entries.map fun e => e.subsamples.length).sum
  | saiz _ _ _ sizes => sizes.length
  | saio _ offsets => offsets.length
  | sbgp _ _ entries => entries.length
  | sgpd _ _ entries => entries.length

/-- How many bytes a table keeps as they stand in the file. -/
def rawLength : AuxiliaryTable → Nat
  | cslg _ | stsh _ | stdp _ | subs _ | saio _ _ | sbgp _ _ _ => 0
  | sdtp flags => flags.length
  | padb _ bits => bits.length
  | saiz _ _ _ sizes => sizes.length
  | sgpd _ _ entries => (entries.map List.length).sum

/-- How many turns it takes to read a table: one for each entry and each part of a sample, unless
the entries are bytes, which are taken together. -/
def turnCount : AuxiliaryTable → Nat
  | cslg _ | sdtp _ | padb _ _ | saiz _ _ _ _ => 0
  | t => t.entryCount

def countedWords : List UInt8 → Tally (List UInt16)
  | a :: b :: bs => do
    turn
    return UInt16.ofNat (bigEndian [a, b]) :: (← countedWords bs)
  | _ => return []

def countedEntry (f : VersionFlags) : Tally SubsampleEntry := do
  let sampleDelta ← read Decode.u32
  let count ← read Decode.u16
  return ⟨sampleDelta, ← rows (read (subsample f)) count.toNat⟩

/-- At most `n` descriptions; after one that uses up the bytes no further turn begins. -/
def countedDescriptions (length : EntryLength) : Nat → Tally (List (List UInt8))
  | 0 => return []
  | n + 1 => do
    turn
    let entry ← read (groupDescription length)
    if ← read Decode.atEnd then return [entry]
    else return entry :: (← countedDescriptions length n)

def countedStsh (_ : VersionFlags) : Tally AuxiliaryTable := do
  return stsh (← table (.ofChars 's' 't' 's' 'h') 8 (read pairRow))

def countedStdp (_ : VersionFlags) : Tally AuxiliaryTable := do
  return stdp (← countedWords (← read Decode.rest))

def countedSubs (f : VersionFlags) : Tally AuxiliaryTable := do
  return subs (← table (.ofChars 's' 'u' 'b' 's') 6 (countedEntry f))

def countedSaio (f : VersionFlags) : Tally AuxiliaryTable := do
  let info ← read (infoType f)
  let name : FourCc := .ofChars 's' 'a' 'i' 'o'
  if f.version = 0 then
    return saio info (← table name 4 (read (UInt32.toUInt64 <$> Decode.u32)))
  else return saio info (← table name 8 (read Decode.u64))

def countedSbgp (f : VersionFlags) : Tally AuxiliaryTable := do
  let grouping ← read Decode.fourCc
  let parameter ← read (if f.version = 1 then some <$> Decode.u32 else pure none)
  return sbgp grouping parameter (← table (.ofChars 's' 'b' 'g' 'p') 8 (read pairRow))

def countedSgpd (f : VersionFlags) : Tally AuxiliaryTable := do
  let grouping ← read Decode.fourCc
  let common ← read (if f.version = 1 then Decode.u32 else pure 0)
  let defaultIndex ← read (if 2 ≤ f.version then some <$> Decode.u32 else pure none)
  let count ← read Decode.u32
  return sgpd grouping defaultIndex
    (← countedDescriptions (entryLength f.version common) count.toNat)

/-- How the payload of each table is read, with the turns of loops counted. -/
def countedReaders : List (FourCc × (VersionFlags → Tally AuxiliaryTable)) :=
  [(.ofChars 'c' 's' 'l' 'g', fun f => read (cslgFields f)),
   (.ofChars 's' 't' 's' 'h', countedStsh),
   (.ofChars 's' 'd' 't' 'p', fun f => read (sdtpFields f)),
   (.ofChars 'p' 'a' 'd' 'b', fun f => read (padbFields f)),
   (.ofChars 's' 't' 'd' 'p', countedStdp),
   (.ofChars 's' 'u' 'b' 's', countedSubs),
   (.ofChars 's' 'a' 'i' 'z', fun f => read (saizFields f)),
   (.ofChars 's' 'a' 'i' 'o', countedSaio),
   (.ofChars 's' 'b' 'g' 'p', countedSbgp),
   (.ofChars 's' 'g' 'p' 'd', countedSgpd)]

/-- The fields of the table with the given type code, behind its version and flags. -/
def counted (type : FourCc) : Tally AuxiliaryTable := do
  let full ← read Decode.versionFlags
  match countedReaders.find? (·.1 = type) with
  | some (_, reader) => reader full
  | none => read (Decode.refuse (.invalidArgument (.notAuxiliary type)))

/-! ### The same tables -/

theorem counts_words (bs : List UInt8) : Counts (countedWords bs) (pure (words bs)) := by
  induction bs using words.induct with
  | case1 a b bs ih => exact (ih.bind fun _ => .pure _).turn
  | case2 bs h =>
    match bs, h with
    | [], _ => exact .pure []
    | [_], _ => exact .pure []
    | a :: b :: bs, h => exact absurd rfl (h a b bs)

theorem counts_entry (f : VersionFlags) : Counts (countedEntry f) (subsampleEntry f) :=
  (Counts.read _).bind fun _ => (Counts.read _).bind fun count =>
    ((Counts.read _).rows count.toNat).bind fun _ => .pure _

theorem counts_descriptionsFrom (length : EntryLength) (n : Nat) (acc : List (List UInt8)) :
    Counts ((acc.reverse ++ ·) <$> countedDescriptions length n)
      (groupDescriptionsFrom length n acc) := by
  induction n generalizing acc with
  | zero =>
    show Counts (pure (acc.reverse ++ [])) (pure acc.reverse)
    rw [List.append_nil]
    exact .pure _
  | succ n ih =>
    have hentries : (acc.reverse ++ ·) <$> countedDescriptions length (n + 1) =
        turn >>= fun _ => read (groupDescription length) >>= fun entry =>
          read Decode.atEnd >>= fun ended =>
            if ended then pure (entry :: acc).reverse
            else ((entry :: acc).reverse ++ ·) <$> countedDescriptions length n := by
      simp only [countedDescriptions, map_eq_pure_bind, bind_assoc]
      refine bind_congr fun _ => bind_congr fun entry => bind_congr fun ended => ?_
      split <;> simp
    rw [hentries, Machine.groupDescriptionsFrom_succ]
    exact ((Counts.read _).bind fun entry => (Counts.read _).bind fun _ =>
      .ite (.pure _) (ih (entry :: acc))).turn

theorem counts_descriptions (length : EntryLength) (n : Nat) :
    Counts (countedDescriptions length n) (groupDescriptionsFrom length n []) := by
  have hfrom := counts_descriptionsFrom length n []
  simp only [List.reverse_nil, List.nil_append, id_map'] at hfrom
  exact hfrom

theorem counts_stsh (f : VersionFlags) : Counts (countedStsh f) (stshFields f) :=
  ((Counts.read _).table _ 8).bind fun _ => .pure _

theorem counts_stdp (f : VersionFlags) : Counts (countedStdp f) (stdpFields f) :=
  (Counts.read _).bind fun bs => (counts_words bs).bind fun _ => .pure _

theorem counts_subs (f : VersionFlags) : Counts (countedSubs f) (subsFields f) :=
  ((counts_entry f).table _ 6).bind fun _ => .pure _

theorem counts_saio (f : VersionFlags) : Counts (countedSaio f) (saioFields f) :=
  (Counts.read _).bind fun _ => .ite (((Counts.read _).table _ 4).bind fun _ => .pure _)
    (((Counts.read _).table _ 8).bind fun _ => .pure _)

theorem counts_sbgp (f : VersionFlags) : Counts (countedSbgp f) (sbgpFields f) := by
  have hfields : sbgpFields f = do
      let grouping ← Decode.fourCc
      let parameter ← (if f.version = 1 then some <$> Decode.u32 else pure none : Decode _)
      return sbgp grouping parameter
        (← Decode.table (.ofChars 's' 'b' 'g' 'p') 8 pairRow) := by
    unfold sbgpFields
    split <;> rfl
  rw [hfields]
  exact (Counts.read _).bind fun _ => (Counts.read _).bind fun _ =>
    ((Counts.read _).table _ 8).bind fun _ => .pure _

theorem counts_sgpd (f : VersionFlags) : Counts (countedSgpd f) (sgpdFields f) := by
  have hfields : sgpdFields f = do
      let grouping ← Decode.fourCc
      let common ← (if f.version = 1 then Decode.u32 else pure 0 : Decode _)
      let defaultIndex ← (if 2 ≤ f.version then some <$> Decode.u32 else pure none : Decode _)
      let count ← Decode.u32
      return sgpd grouping defaultIndex
        (← groupDescriptionsFrom (entryLength f.version common) count.toNat []) := by
    unfold sgpdFields
    split <;> split <;> rfl
  rw [hfields]
  exact (Counts.read _).bind fun _ => (Counts.read _).bind fun common => (Counts.read _).bind
    fun _ => (Counts.read _).bind fun count =>
      (counts_descriptions (entryLength f.version common) count.toNat).bind fun _ => .pure _

/-! ### What an entry takes -/

open Decode (Takes)

theorem takes_shiftField (f : VersionFlags) : ∃ n, (shiftField f).Takes n := by
  unfold shiftField
  split
  · exact ⟨4, Decode.takes_i32.map _⟩
  · exact ⟨8, Decode.takes_i64⟩

theorem takes_pairRow : pairRow.Takes 8 :=
  Decode.takes_u32.bind fun _ => Decode.takes_u32.bind fun _ => Decode.takes_pure _

theorem takes_infoType (f : VersionFlags) : ∃ n, (infoType f).Takes n :=
  (Decode.takes_fourCc.bind fun _ => Decode.takes_u32.bind fun _ =>
    Decode.takes_pure _).optional (f.lowBit = true) none

theorem takes_subsample (f : VersionFlags) : ∃ n, 8 ≤ n ∧ (subsample f).Takes n := by
  unfold subsample
  split
  · exact ⟨10, by decide, Decode.takes_u32.bind fun _ => Decode.takes_u8.bind fun _ =>
      Decode.takes_u8.bind fun _ => Decode.takes_u32.bind fun _ => Decode.takes_pure _⟩
  · exact ⟨8, by decide, (Decode.takes_u16.map _).bind fun _ => Decode.takes_u8.bind fun _ =>
      Decode.takes_u8.bind fun _ => Decode.takes_u32.bind fun _ => Decode.takes_pure _⟩

/-- The turns of an entry are its parts, each of which takes bytes. -/
theorem ends_entry (f : VersionFlags) :
    Ends (countedEntry f) fun e turns taken =>
      turns = e.subsamples.length ∧ turns + 1 ≤ taken := by
  obtain ⟨n, hn, hpart⟩ := takes_subsample f
  refine .read_bind Decode.takes_u32 fun _ => .read_bind Decode.takes_u16 fun count => ?_
  refine (Ends.plainRows hpart (by omega) count.toNat).bind fun parts turns taken hparts =>
    .pure ⟨hparts.1, by omega⟩

theorem within_entry (f : VersionFlags) : Within (countedEntry f) 1 := by
  obtain ⟨n, hn, hpart⟩ := takes_subsample f
  have hrow : Ends (read (subsample f)) fun _ turns taken => turns + 1 ≤ taken :=
    (Ends.row hpart (by omega)).mono fun _ _ _ hrow => hrow.2
  refine .read_bind Decode.takes_u32 fun _ => .read_bind Decode.takes_u16 fun count => ?_
  exact ((((Within.read _).rows hrow count.toNat).returning _)).mono (by omega)

/-- A description takes the bytes that are kept of it; if these may be none, it takes others. -/
theorem ends_description (length : EntryLength) :
    Ends (read (groupDescription length)) fun d turns taken =>
      turns = 0 ∧ d.length ≤ taken := by
  cases length with
  | uniform n =>
    exact (Ends.bytes n).mono fun d turns taken hd => ⟨hd.1, by omega⟩
  | counted =>
    rw [groupDescription, read_bind]
    exact .read_bind Decode.takes_u32 fun n =>
      (Ends.bytes n.toNat).mono fun d turns taken hd => ⟨hd.1, by omega⟩
  | unknown =>
    rw [groupDescription, read_bind]
    exact .read_bind Decode.takes_left fun n =>
      (Ends.bytes n).mono fun d turns taken hd => ⟨hd.1, by omega⟩

theorem ends_descriptions (length : EntryLength) (n : Nat) :
    Ends (countedDescriptions length n) fun ds turns taken =>
      turns = ds.length ∧ (ds.map List.length).sum ≤ taken := by
  induction n with
  | zero => exact .pure ⟨rfl, Nat.le_refl 0⟩
  | succ n ih =>
    refine Ends.turn.bind fun _ turns taken hturn => (ends_description length).bind
      fun d turns' taken' hd => .read_bind Decode.takes_atEnd fun _ => .ite (.pure ?_)
        (ih.bind fun ds turns'' taken'' hds => .pure ?_)
    · simp only [List.map_cons, List.map_nil, List.sum_cons, List.sum_nil, List.length_singleton]
      omega
    · rw [List.length_cons, List.map_cons, List.sum_cons]
      omega

/-- If every description takes bytes, those that are left pay for all turns but the last. -/
theorem within_descriptions_of_paid {length : EntryLength}
    (h : Ends (read (groupDescription length)) fun _ turns taken => turns + 1 ≤ taken) (n : Nat) :
    Within (countedDescriptions length n) 1 := by
  induction n with
  | zero => exact (Within.pure []).mono (Nat.zero_le 1)
  | succ n ih =>
    refine ((Within.read _).bind h fun entry => ?_).turn
    refine .read_bind Decode.takes_atEnd fun ended => ?_
    split
    · exact (Within.pure _).mono (Nat.zero_le _)
    · exact ih.returning (entry :: ·)

/-- A description of unknown length takes all bytes, and its turn is the only one. -/
theorem within_descriptions_unknown (n : Nat) : Within (countedDescriptions .unknown n) 1 := by
  intro c
  cases n with
  | zero => exact Nat.zero_le _
  | succ n =>
    have hturn : (turn c).outcome = .ok ((), c) := rfl
    have hall : (read (groupDescription .unknown) c).outcome =
        .ok (c.rest, ⟨[], c.pos + c.rest.length⟩) := by
      show Decode.bytes c.rest.length c = _
      simp [Decode.bytes]
    rw [countedDescriptions, bind_of_ok hturn, bind_of_ok hall]
    exact Nat.le_add_left 1 _

theorem within_descriptions {version : UInt8} {common : UInt32} (n : Nat) :
    Within (countedDescriptions (entryLength version common) n) 1 := by
  unfold entryLength
  split
  · split
    · refine within_descriptions_of_paid ?_ n
      rw [groupDescription, read_bind]
      exact .read_bind Decode.takes_u32 fun m =>
        (Ends.bytes m.toNat).mono fun _ _ _ hd => by omega
    · rename_i hcommon
      have hlength : common.toNat ≠ 0 := fun hzero => hcommon (UInt32.toNat_inj.1 hzero)
      refine within_descriptions_of_paid ?_ n
      exact (Ends.bytes common.toNat).mono fun _ _ _ hd => by omega
  · exact within_descriptions_unknown n

/-! ### All tables -/

/-- There are at most four more turns than bytes, and four more entries and bytes that are kept: as
many as a version and flags take.  Success takes the turns of the table. -/
structure Bounded (q : Tally AuxiliaryTable) : Prop where
  turns : Within q 4
  spent : ∀ c t c', (q c).outcome = .ok (t, c') → (q c).turns = t.turnCount ∧
    t.entryCount ≤ c.rest.length + 4 ∧ t.rawLength ≤ c.rest.length + 4

namespace Bounded

/-- Each entry was read in a turn, or takes a byte. -/
theorem of_ends {q : Tally AuxiliaryTable} {beyond : Nat} (h : Within q beyond)
    (hbeyond : beyond ≤ 4)
    (hends : Ends q fun t turns taken =>
      turns = t.turnCount ∧ t.entryCount ≤ max turns taken ∧ t.rawLength ≤ taken) :
    Bounded q where
  turns := h.mono hbeyond
  spent c t c' hq := by
    obtain ⟨taken, hlength, hexact, hentries, hraw⟩ := hends c t c' hq
    have hturns := h c
    omega

theorem ite {c : Prop} [Decidable c] {q q' : Tally AuxiliaryTable} (h : Bounded q)
    (h' : Bounded q') : Bounded (if c then q else q') := by
  split
  · exact h
  · exact h'

/-- Fields before the entries do not matter. -/
theorem read_bind {α : Type} {p : Decode α} {n : Nat} {k : α → Tally AuxiliaryTable} (h : p.Takes n)
    (hk : ∀ a, Bounded (k a)) : Bounded (read p >>= k) where
  turns := .read_bind h fun a => (hk a).turns.mono (Nat.le_add_right 4 n)
  spent c t c'' ht := by
    rcases hp : p c with e | ⟨a, c'⟩
    · rw [bind_of_error hp] at ht
      cases ht
    · rw [bind_of_ok hp] at ht ⊢
      obtain ⟨hturns, hentries, hraw⟩ := (hk a).spent c' t c'' ht
      have hlength := h c a c' hp
      exact ⟨(Nat.zero_add _).trans hturns, by omega, by omega⟩

/-- A table of rows has an entry for each turn. -/
theorem rows {α : Type} (name : FourCc) (width : Nat) {p : Decode α} {n : Nat} (h : p.Takes n)
    (hn : 0 < n) {toTable : List α → AuxiliaryTable}
    (hturns : ∀ as, (toTable as).turnCount = as.length)
    (hentries : ∀ as, (toTable as).entryCount = as.length)
    (hraw : ∀ as, (toTable as).rawLength = 0) :
    Bounded (table name width (read p) >>= fun as => pure (toTable as)) := by
  refine of_ends ((Within.plainTable name width h hn).returning toTable) (by decide) ?_
  refine (Ends.plainTable name width h hn).bind fun as turns taken has => .pure ?_
  rw [hturns, hentries, hraw]
  omega

/-- Bytes that are kept as they are. -/
theorem bytes (n : Nat) {toTable : List UInt8 → AuxiliaryTable}
    (hturns : ∀ bs, (toTable bs).turnCount = 0)
    (hentries : ∀ bs, (toTable bs).entryCount = bs.length)
    (hraw : ∀ bs, (toTable bs).rawLength = bs.length) :
    Bounded (read (Decode.bytes n) >>= fun bs => pure (toTable bs)) := by
  refine of_ends ((Within.read _).returning toTable) (by decide) ?_
  refine (Ends.bytes n).bind fun bs turns taken hbs => .pure ?_
  rw [hturns, hentries, hraw]
  omega

end Bounded

theorem bounded_cslg (f : VersionFlags) : Bounded (read (cslgFields f)) := by
  obtain ⟨n, hfield⟩ := takes_shiftField f
  simp only [cslgFields, read_bind, read_pure]
  exact .read_bind hfield fun _ => .read_bind hfield fun _ => .read_bind hfield fun _ =>
    .read_bind hfield fun _ => .read_bind hfield fun _ =>
      .of_ends (.pure _) (by decide) (.pure ⟨rfl, Nat.zero_le _, Nat.zero_le _⟩)

theorem bounded_stsh (f : VersionFlags) : Bounded (countedStsh f) :=
  .rows _ 8 takes_pairRow (by decide) (fun _ => rfl) (fun _ => rfl) fun _ => rfl

theorem bounded_sdtp (f : VersionFlags) : Bounded (read (sdtpFields f)) where
  turns := (Within.read _).mono (Nat.zero_le _)
  spent := by
    rintro c _ _ ⟨⟩
    exact ⟨rfl, Nat.le_add_right _ _, Nat.le_add_right _ _⟩

theorem bounded_padb (f : VersionFlags) : Bounded (read (padbFields f)) := by
  simp only [padbFields, read_bind, read_pure]
  exact .read_bind Decode.takes_u32 fun _ => .bytes _ (fun _ => rfl) (fun _ => rfl) fun _ => rfl

theorem turns_countedWords (bs : List UInt8) (c : Cursor) :
    (countedWords bs c).turns = (words bs).length := by
  induction bs using words.induct with
  | case1 a b bs ih =>
    have hturn : (turn c).outcome = .ok ((), c) := rfl
    have hwords : (countedWords bs c).outcome = .ok (words bs, c) := counts_words bs c
    rw [countedWords, bind_of_ok hturn, bind_of_ok hwords, ih]
    exact Nat.add_comm 1 _
  | case2 bs h =>
    match bs, h with
    | [], _ => rfl
    | [_], _ => rfl
    | a :: b :: bs, h => exact absurd rfl (h a b bs)

theorem length_words_le (bs : List UInt8) : (words bs).length ≤ bs.length := by
  induction bs using words.induct with
  | case1 a b bs ih => exact Nat.succ_le_succ (Nat.le_succ_of_le ih)
  | case2 bs h => rw [words] <;> first | exact Nat.zero_le _ | assumption

theorem turns_countedStdp (f : VersionFlags) (c : Cursor) :
    (countedStdp f c).turns = (words c.rest).length := by
  have hrest : (read Decode.rest c).outcome = .ok (c.rest, c) := rfl
  have hwords : (countedWords c.rest c).outcome = .ok (words c.rest, c) := counts_words c.rest c
  rw [countedStdp, bind_of_ok hrest, bind_of_ok hwords, turns_countedWords]
  exact Nat.zero_add _

theorem bounded_stdp (f : VersionFlags) : Bounded (countedStdp f) where
  turns c := by
    rw [turns_countedStdp]
    exact Nat.le_trans (length_words_le c.rest) (Nat.le_add_right _ _)
  spent c t c' ht := by
    rw [counts_stdp f c] at ht
    cases ht
    exact ⟨turns_countedStdp f c,
      Nat.le_trans (length_words_le c.rest) (Nat.le_add_right _ _), Nat.zero_le _⟩

theorem bounded_subs (f : VersionFlags) : Bounded (countedSubs f) := by
  have hentry : Ends (countedEntry f) fun _ turns taken => turns + 1 ≤ taken :=
    (ends_entry f).mono fun _ _ _ h => h.2
  refine .of_ends (((within_entry f).table _ 6 hentry).returning _) (by decide) ?_
  exact ((ends_entry f).table _ 6).bind fun entries _ _ h => .pure
    ⟨h.1, le_max_of_le_left (Nat.le_of_eq h.1.symm), Nat.zero_le _⟩

theorem bounded_saiz (f : VersionFlags) : Bounded (read (saizFields f)) := by
  obtain ⟨n, hinfo⟩ := takes_infoType f
  simp only [saizFields, read_bind]
  refine .read_bind hinfo fun _ => .read_bind Decode.takes_u8 fun defaultSize =>
    .read_bind Decode.takes_u32 fun count => ?_
  split
  · rw [read_bind]
    exact .bytes _ (fun _ => rfl) (fun _ => rfl) fun _ => rfl
  · exact .of_ends (.read _) (by decide) (.pure ⟨rfl, Nat.zero_le _, Nat.zero_le _⟩)

theorem bounded_saio (f : VersionFlags) : Bounded (countedSaio f) := by
  obtain ⟨n, hinfo⟩ := takes_infoType f
  have hnarrow := Decode.takes_u32.map UInt32.toUInt64
  exact .read_bind hinfo fun _ =>
    .ite (.rows _ 4 hnarrow (by decide) (fun _ => rfl) (fun _ => rfl) fun _ => rfl)
      (.rows _ 8 Decode.takes_u64 (by decide) (fun _ => rfl) (fun _ => rfl) fun _ => rfl)

theorem bounded_sbgp (f : VersionFlags) : Bounded (countedSbgp f) := by
  obtain ⟨n, hparameter⟩ := (Decode.takes_u32.map some).optional (f.version = 1) none
  exact .read_bind Decode.takes_fourCc fun _ => .read_bind hparameter fun _ =>
    .rows _ 8 takes_pairRow (by decide) (fun _ => rfl) (fun _ => rfl) fun _ => rfl

theorem bounded_sgpd (f : VersionFlags) : Bounded (countedSgpd f) := by
  obtain ⟨m, hcommon⟩ := Decode.takes_u32.optional (f.version = 1) 0
  obtain ⟨n, hdefault⟩ := (Decode.takes_u32.map some).optional (2 ≤ f.version) none
  refine .read_bind Decode.takes_fourCc fun _ => .read_bind hcommon fun common =>
    .read_bind hdefault fun _ => .read_bind Decode.takes_u32 fun count => ?_
  refine .of_ends ((within_descriptions count.toNat).returning _) (by decide) ?_
  exact (ends_descriptions _ count.toNat).bind fun entries _ _ h => .pure
    ⟨h.1, le_max_of_le_left (Nat.le_of_eq h.1.symm), h.2⟩

/-- Each table is counted by the reader that has its type code. -/
theorem countedReaders_count : List.Forall₂
    (fun q p => q.1 = p.1 ∧ ∀ f, Counts (q.2 f) (p.2 f) ∧ Bounded (q.2 f))
    countedReaders readers :=
  .cons ⟨rfl, fun f => ⟨.read _, bounded_cslg f⟩⟩ <|
    .cons ⟨rfl, fun f => ⟨counts_stsh f, bounded_stsh f⟩⟩ <|
    .cons ⟨rfl, fun f => ⟨.read _, bounded_sdtp f⟩⟩ <|
    .cons ⟨rfl, fun f => ⟨.read _, bounded_padb f⟩⟩ <|
    .cons ⟨rfl, fun f => ⟨counts_stdp f, bounded_stdp f⟩⟩ <|
    .cons ⟨rfl, fun f => ⟨counts_subs f, bounded_subs f⟩⟩ <|
    .cons ⟨rfl, fun f => ⟨.read _, bounded_saiz f⟩⟩ <|
    .cons ⟨rfl, fun f => ⟨counts_saio f, bounded_saio f⟩⟩ <|
    .cons ⟨rfl, fun f => ⟨counts_sbgp f, bounded_sbgp f⟩⟩ <|
    .cons ⟨rfl, fun f => ⟨counts_sgpd f, bounded_sgpd f⟩⟩ .nil

/-- What is counted is what is read, and behind the version and flags it is bounded. -/
theorem counted_spec (type : FourCc) : Counts (counted type) (fields type) ∧
    ∃ reader : VersionFlags → Tally AuxiliaryTable,
      counted type = (read Decode.versionFlags >>= reader) ∧ ∀ f, Bounded (reader f) := by
  unfold counted fields
  rcases Machine.find?_forall₂ countedReaders_count type with
    ⟨hq, hp⟩ | ⟨q, p, hq, hp, hreader⟩
  · rw [hq, hp]
    refine ⟨(Counts.read _).bind fun _ => .read _, _, rfl, fun _ => ?_⟩
    exact ⟨(Within.read _).mono (Nat.zero_le _), nofun⟩
  · rw [hq, hp]
    exact ⟨(Counts.read _).bind fun f => (hreader f).1, _, rfl, fun f => (hreader f).2⟩

/-- The version and flags pay for the last turn. -/
theorem within_counted (type : FourCc) : Within (counted type) 0 := by
  obtain ⟨reader, hreader, hbounded⟩ := (counted_spec type).2
  rw [hreader]
  exact .read_bind Decode.takes_versionFlags fun f => (hbounded f).turns

/-- The version and flags have no bearing on the turns of the table, and pay for the last of its
entries. -/
theorem spent_of_counted {type : FourCc} {c c' : Cursor} {t : AuxiliaryTable}
    (h : (counted type c).outcome = .ok (t, c')) :
    (counted type c).turns = t.turnCount ∧
      t.entryCount ≤ c.rest.length ∧ t.rawLength ≤ c.rest.length := by
  obtain ⟨reader, hreader, hbounded⟩ := (counted_spec type).2
  rw [hreader] at h ⊢
  rcases hfull : Decode.versionFlags c with e | ⟨f, c₁⟩
  · rw [bind_of_error hfull] at h
    cases h
  · rw [bind_of_ok hfull] at h ⊢
    have hlength := Decode.takes_versionFlags c f c₁ hfull
    obtain ⟨hturns, hentries, hraw⟩ := (hbounded f).spent c₁ t c' h
    exact ⟨(Nat.zero_add _).trans hturns, by omega, by omega⟩

/-- **Reading an auxiliary table takes at most as many turns of loops, those for the parts of
samples among them, as the payload has bytes, whether or not it succeeds and whatever numbers of
entries the payload declares.  If it succeeds, there was a turn for every entry that was not taken
together with others, and the table has at most as many entries, and keeps at most as many bytes.**
-/
theorem counted_within_payload (type : FourCc) (payload : List UInt8) :
    (counted type ⟨payload, 0⟩).outcome = fields type ⟨payload, 0⟩ ∧
    (counted type ⟨payload, 0⟩).turns ≤ payload.length ∧
    ∀ t, ofPayload type payload = .ok t →
      (counted type ⟨payload, 0⟩).turns = t.turnCount ∧
      t.entryCount ≤ payload.length ∧ t.rawLength ≤ payload.length := by
  have hcounts := (counted_spec type).1 ⟨payload, 0⟩
  refine ⟨hcounts, within_counted type ⟨payload, 0⟩, fun t ht => ?_⟩
  obtain ⟨c, hc⟩ := Machine.parse_eq_ok ht
  exact spent_of_counted (hcounts.trans hc)

/-- Descriptions of one byte each, of which the most are declared that can be, and two are there. -/
def overdeclared : List UInt8 :=
  [1, 0, 0, 0, 0x72, 0x6F, 0x6C, 0x6C, 0, 0, 0, 1, 0xFF, 0xFF, 0xFF, 0xFF, 0xAA, 0xBB]

theorem overdeclared_counted :
    ofPayload (.ofChars 's' 'g' 'p' 'd') overdeclared =
      .ok (sgpd (.ofChars 'r' 'o' 'l' 'l') none [[0xAA], [0xBB]]) ∧
    (counted (.ofChars 's' 'g' 'p' 'd') ⟨overdeclared, 0⟩).turns ≤ 18 ∧
    (counted (.ofChars 's' 'g' 'p' 'd') ⟨overdeclared, 0⟩).turns = 2 ∧
    (sgpd (.ofChars 'r' 'o' 'l' 'l') none [[0xAA], [0xBB]]).entryCount ≤ 18 ∧
    (sgpd (.ofChars 'r' 'o' 'l' 'l') none [[0xAA], [0xBB]]).rawLength ≤ 18 := by
  have hread : ofPayload (.ofChars 's' 'g' 'p' 'd') overdeclared =
      .ok (sgpd (.ofChars 'r' 'o' 'l' 'l') none [[0xAA], [0xBB]]) := rfl
  obtain ⟨-, hwithin, hspent⟩ := counted_within_payload (.ofChars 's' 'g' 'p' 'd') overdeclared
  obtain ⟨hturns, hentries, hraw⟩ := hspent _ hread
  exact ⟨hread, hwithin, hturns, hentries, hraw⟩

end IsoMedia.AuxiliaryTable
