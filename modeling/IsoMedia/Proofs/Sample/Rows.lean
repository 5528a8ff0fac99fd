import IsoMedia.Proofs.Bytes.Layout

/-!
# The layout of the tables of samples

A table of samples has a head with a number of rows in it, and then the rows, all of one width.  It is
read if and only if it has as many rows as its head says, and then as what stands there
(`RowTable.ofPayload_eq_ok_iff`, `SampleSizes.ofWide_eq_ok_iff`): a number of rows that the payload
does not hold is refused before any row is read, and what stands behind the rows does not matter.
`tables_readByLayout` puts this together for all of the tables.
-/

namespace IsoMedia

/-- The tables of samples that are rows and nothing else. -/
inductive RowTable where
  | times
  | offsets
  | runs
  | narrowOffsets
  | wideOffsets
  | sync
deriving DecidableEq

namespace RowTable

/-- What a row of the table is. -/
def Row : RowTable → Type
  | times => TimeRun
  | offsets => OffsetRun
  | runs => ChunkRun
  | narrowOffsets => UInt64
  | wideOffsets => UInt64
  | sync => UInt32

/-- The type of the box of the table. -/
def name : RowTable → FourCc
  | times => .ofChars 's' 't' 't' 's'
  | offsets => .ofChars 'c' 't' 't' 's'
  | runs => .ofChars 's' 't' 's' 'c'
  | narrowOffsets => .ofChars 's' 't' 'c' 'o'
  | wideOffsets => .ofChars 'c' 'o' '6' '4'
  | sync => .ofChars 's' 't' 's' 's'

/-- How many bytes a row has. -/
def width : RowTable → Nat
  | times => 8
  | offsets => 8
  | runs => 12
  | narrowOffsets => 4
  | wideOffsets => 8
  | sync => 4

/-- What the bytes of a row say. -/
def value : (t : RowTable) → List UInt8 → t.Row
  | times, bs => TimeRun.mk (wordAt bs 0) (wordAt bs 4)
  | offsets, bs => OffsetRun.mk (wordAt bs 0) (wordAt bs 4).toInt32
  | runs, bs => ChunkRun.mk (wordAt bs 0) (wordAt bs 4) (wordAt bs 8)
  | narrowOffsets, bs => (wordAt bs 0).toUInt64
  | wideOffsets, bs => UInt64.ofNat (bigEndian (bytesAt bs 0 8))
  | sync, bs => wordAt bs 0

/-- How the table is read. -/
def ofPayload : (t : RowTable) → List UInt8 → Except Error (List t.Row)
  | times => TimeRun.ofPayload
  | offsets => OffsetRun.ofPayload
  | runs => ChunkRun.ofPayload
  | narrowOffsets => ChunkOffsets.ofNarrow
  | wideOffsets => ChunkOffsets.ofWide
  | sync => SyncSamples.ofPayload

/-- How a row is read. -/
def row : (t : RowTable) → Decode t.Row
  | times => TimeRun.row
  | offsets => OffsetRun.row
  | runs => ChunkRun.row
  | narrowOffsets => UInt32.toUInt64 <$> Decode.u32
  | wideOffsets => Decode.u64
  | sync => Decode.u32

theorem ofPayload_eq (t : RowTable) (payload : List UInt8) :
    t.ofPayload payload = (Decode.fullTable t.name t.width t.row).parse payload := by
  cases t <;> rfl

theorem width_pos (t : RowTable) : 0 < t.width := by
  cases t <;> decide

/-- A row is read as what its bytes say. -/
theorem reads_row (t : RowTable) {bs : List UInt8} (h : bs.length = t.width) :
    Decode.Reads t.row bs (t.value bs) := by
  cases t with
  | times =>
    match bs, h with
    | [_, _, _, _, _, _, _, _], _ => exact fun _ _ => rfl
  | offsets =>
    match bs, h with
    | [_, _, _, _, _, _, _, _], _ => exact fun _ _ => rfl
  | runs =>
    match bs, h with
    | [_, _, _, _, _, _, _, _, _, _, _, _], _ => exact fun _ _ => rfl
  | narrowOffsets =>
    match bs, h with
    | [_, _, _, _], _ => exact fun _ _ => rfl
  | wideOffsets =>
    match bs, h with
    | [_, _, _, _, _, _, _, _], _ => exact fun _ _ => rfl
  | sync =>
    match bs, h with
    | [_, _, _, _], _ => exact fun _ _ => rfl

/-! ### What is accepted -/

/-- How many rows the head of a payload says there are. -/
def declared (payload : List UInt8) : Nat := (wordAt payload 4).toNat

/-- The rows are those that the head announces, and stand behind it one after the other. -/
structure LaidOut (t : RowTable) (payload : List UInt8) (rows : List t.Row) : Prop where
  count : rows.length = declared payload
  rows : RowsAt payload 8 t.width t.value rows

variable {t : RowTable} {payload : List UInt8} {rows : List t.Row}

theorem exists_of_room (t : RowTable) (h : 8 + declared payload * t.width ≤ payload.length) :
    ∃ rows, t.ofPayload payload = .ok rows ∧ t.LaidOut payload rows := by
  obtain ⟨rows, hread, hcount, hrows⟩ :=
    Decode.parse_fullTable_of_room t.name t.width_pos (fun _ => t.reads_row) h
  exact ⟨rows, (t.ofPayload_eq payload).trans hread, hcount, hrows⟩

/-- Rows that are not there are refused by their number, if the head is there. -/
theorem ofPayload_of_crowded (t : RowTable) (hhead : 8 ≤ payload.length)
    (h : payload.length < 8 + declared payload * t.width) :
    t.ofPayload payload =
      malformed (.entryCount t.name (declared payload) (payload.length - 8)) :=
  (t.ofPayload_eq payload).trans (Decode.parse_fullTable_of_crowded t.name t.width_pos hhead h)

theorem room_of_ofPayload (h : t.ofPayload payload = .ok rows) :
    8 + declared payload * t.width ≤ payload.length := by
  refine Nat.le_of_not_lt fun hshort => ?_
  by_cases hhead : 8 ≤ payload.length
  · rw [t.ofPayload_of_crowded hhead hshort] at h
    cases h
  · obtain ⟨e, he⟩ := (Decode.needs_fullTable t.name).parse (Nat.lt_of_not_le hhead)
    rw [t.ofPayload_eq, he] at h
    cases h

theorem LaidOut.room (h : t.LaidOut payload rows) :
    8 + declared payload * t.width ≤ payload.length := h.count ▸ h.rows.inside

/-- A table is read as the rows that are laid out in its payload. -/
theorem ofPayload_eq_ok_iff : t.ofPayload payload = .ok rows ↔ t.LaidOut payload rows := by
  constructor
  · intro h
    obtain ⟨rows', hread, hlaid⟩ := t.exists_of_room (room_of_ofPayload h)
    rw [h] at hread
    cases hread
    exact hlaid
  · intro h
    obtain ⟨rows', hread, hlaid⟩ := t.exists_of_room h.room
    rw [hread, hlaid.rows.unique h.rows (hlaid.count.trans h.count.symm)]

/-- The head of a longer payload says the same. -/
theorem declared_append (h : 8 ≤ payload.length) (extra : List UInt8) :
    declared (payload ++ extra) = declared payload := by
  rw [declared, wordAt_append h, declared]

theorem LaidOut.append (h : t.LaidOut payload rows) (extra : List UInt8) :
    t.LaidOut (payload ++ extra) rows := by
  have hroom := h.room
  exact ⟨h.count.trans (declared_append (by omega) extra).symm, h.rows.append extra⟩

/-- A table that is written row by row is read back, as far as a word can count its rows. -/
theorem ofPayload_tableBytes (t : RowTable) {full : List UInt8} (hfull : full.length = 4)
    {write : t.Row → List UInt8} (hlength : ∀ a, (write a).length = t.width) {as : List t.Row}
    (hvalue : ∀ a ∈ as, t.value (write a) = a) :
    t.ofPayload (Decode.tableBytes full write as) = .ok (as.take (as.length % 2 ^ 32)) := by
  have hcount : wordAt (Decode.tableBytes full write as) 4 = UInt32.ofNat as.length :=
    wordAt_flatten [full] as.length [as.flatMap write] (by rw [List.flatten_singleton, hfull])
  have hdrop : (Decode.tableBytes full write as).drop 8 = as.flatMap write :=
    drop_flatten [full, numberBytes 4 as.length] _ (by simp [hfull])
  have hhead : 8 ≤ (Decode.tableBytes full write as).length := by
    rw [Decode.tableBytes, List.flatten_cons, List.length_append, hfull, List.flatten_cons,
      List.length_append, length_numberBytes]
    omega
  have hrows := rowsAt_flatMap hlength hvalue
  rw [← hdrop] at hrows
  refine ofPayload_eq_ok_iff.2 ⟨?_, (hrows.take _).of_drop hhead⟩
  rw [declared, hcount, UInt32.toNat_ofNat', List.length_take_of_le (Nat.mod_le _ _)]

end RowTable

namespace SampleSizes

/-- How many sizes the head of a payload says there are: none if there is one for all samples. -/
def declared (payload : List UInt8) : Nat :=
  if wordAt payload 4 = 0 then (wordAt payload 8).toNat else 0

/-- The head has a size for all samples and their number, and the sizes that it announces stand behind
it one after the other. -/
structure LaidOut (payload : List UInt8) (s : SampleSizes) : Prop where
  fixedSize : s.fixedSize = wordAt payload 4
  sampleCount : s.sampleCount = wordAt payload 8
  count : s.sizes.size = declared payload
  rows : RowsAt payload 12 4 (fun bs => wordAt bs 0) s.sizes.toList

variable {payload : List UInt8} {s : SampleSizes}

theorem needs_wideFields : Decode.Needs wideFields 12 := by
  obtain ⟨f, hf⟩ := Decode.versionFlags_eq
  rw [wideFields, hf, Decode.u32_eq]
  exact .field (fun _ => .field (fun _ => .field (fun _ => Decode.needs_zero _) _ 4) _ 4) f 4

/-- Behind the head there is nothing to be read if there is one size for all. -/
theorem wideFields_of_head (h : 12 ≤ payload.length) :
    wideFields ⟨payload, 0⟩ =
      (if wordAt payload 4 = 0 then
        Decode.roomFor (.ofChars 's' 't' 's' 'z') (wordAt payload 8).toNat 4 >>= fun _ =>
          Decode.rows (wordAt payload 8).toNat Decode.u32 >>= fun sizes =>
            pure ⟨wordAt payload 4, wordAt payload 8, sizes.toArray⟩
      else pure ⟨wordAt payload 4, wordAt payload 8, #[]⟩) ⟨payload.drop 12, 12⟩ := by
  obtain ⟨f, hf⟩ := Decode.versionFlags_eq
  show wideFields ⟨payload.drop 0, 0⟩ = _
  rw [wideFields, hf, Decode.bind_fieldAt _ _ (by omega), Decode.u32_eq,
    Decode.bind_fieldAt _ _ (by omega), Decode.bind_fieldAt _ _ (by omega)]
  rfl

theorem exists_ofWide_of_room (h : 12 + declared payload * 4 ≤ payload.length) :
    ∃ s, ofWide payload = .ok s ∧ s.LaidOut payload := by
  have hhead : 12 ≤ payload.length := by omega
  have hrun := wideFields_of_head hhead
  by_cases hfixed : wordAt payload 4 = 0
  · have hdeclared : declared payload = (wordAt payload 8).toNat := if_pos hfixed
    have hroom : (wordAt payload 8).toNat * 4 ≤ (payload.drop 12).length := by
      rw [hdeclared] at h
      rw [List.length_drop]
      omega
    have hrow : ∀ bs, bs.length = 4 → Decode.Reads Decode.u32 bs (wordAt bs 0) :=
      fun _ => RowTable.sync.reads_row
    obtain ⟨sizes, c, hread, hcount, hrows⟩ := Decode.exists_rows hrow hroom 12
    rw [if_pos hfixed, Decode.bind_roomFor _ (by decide), if_pos hroom,
      Decode.bind_of_eq_ok hread] at hrun
    exact ⟨⟨_, _, sizes.toArray⟩, Decode.parse_of_eq_ok hrun, rfl, rfl,
      hcount.trans hdeclared.symm, hrows.of_drop hhead⟩
  · rw [if_neg hfixed] at hrun
    have hdeclared : declared payload = 0 := if_neg hfixed
    exact ⟨⟨_, _, #[]⟩, Decode.parse_of_eq_ok hrun, rfl, rfl, hdeclared.symm,
      ⟨hhead, fun i hi => absurd hi (Nat.not_lt_zero i)⟩⟩

/-- Sizes that are not there are refused by their number. -/
theorem ofWide_of_crowded (hhead : 12 ≤ payload.length)
    (h : payload.length < 12 + declared payload * 4) :
    ofWide payload =
      malformed (.entryCount (.ofChars 's' 't' 's' 'z') (declared payload)
        (payload.length - 12)) := by
  have hfixed : wordAt payload 4 = 0 := by
    by_contra hfixed
    rw [declared, if_neg hfixed] at h
    omega
  have hdeclared : declared payload = (wordAt payload 8).toNat := if_pos hfixed
  have hcrowded : ¬ (wordAt payload 8).toNat * 4 ≤ (payload.drop 12).length := by
    rw [hdeclared] at h
    rw [List.length_drop]
    omega
  unfold ofWide Decode.parse
  rw [StateT.run, wideFields_of_head hhead, if_pos hfixed, Decode.bind_roomFor _ (by decide),
    if_neg hcrowded, List.length_drop, hdeclared]

theorem room_of_ofWide (h : ofWide payload = .ok s) :
    12 + declared payload * 4 ≤ payload.length := by
  refine Nat.le_of_not_lt fun hshort => ?_
  by_cases hhead : 12 ≤ payload.length
  · rw [ofWide_of_crowded hhead hshort] at h
    cases h
  · obtain ⟨e, he⟩ := needs_wideFields.parse (Nat.lt_of_not_le hhead)
    rw [ofWide, he] at h
    cases h

theorem LaidOut.room (h : s.LaidOut payload) : 12 + declared payload * 4 ≤ payload.length := by
  have hinside := h.rows.inside
  rwa [Array.length_toList, h.count] at hinside

theorem LaidOut.unique {s' : SampleSizes} (h : s.LaidOut payload) (h' : s'.LaidOut payload) :
    s = s' := by
  have hsizes : s.sizes = s'.sizes :=
    Array.toList_inj.1 (h.rows.unique h'.rows (h.count.trans h'.count.symm))
  obtain ⟨fixedSize, sampleCount, sizes⟩ := s
  obtain ⟨fixedSize', sampleCount', sizes'⟩ := s'
  obtain rfl : fixedSize = fixedSize' := h.fixedSize.trans h'.fixedSize.symm
  obtain rfl : sampleCount = sampleCount' := h.sampleCount.trans h'.sampleCount.symm
  obtain rfl : sizes = sizes' := hsizes
  rfl

/-- A table of sizes is read as what is laid out in its payload. -/
theorem ofWide_eq_ok_iff : ofWide payload = .ok s ↔ s.LaidOut payload := by
  constructor
  · intro h
    obtain ⟨s', hread, hlaid⟩ := exists_ofWide_of_room (room_of_ofWide h)
    rw [h] at hread
    cases hread
    exact hlaid
  · intro h
    obtain ⟨s', hread, hlaid⟩ := exists_ofWide_of_room h.room
    rw [hread, hlaid.unique h]

theorem LaidOut.append (h : s.LaidOut payload) (extra : List UInt8) :
    s.LaidOut (payload ++ extra) := by
  have hroom := h.room
  have hfixed : wordAt (payload ++ extra) 4 = wordAt payload 4 := wordAt_append (by omega) extra
  have hcount : wordAt (payload ++ extra) 8 = wordAt payload 8 := wordAt_append (by omega) extra
  refine ⟨h.fixedSize.trans hfixed.symm, h.sampleCount.trans hcount.symm, ?_, h.rows.append extra⟩
  rw [h.count, declared, declared, hfixed, hcount]

end SampleSizes

/-! ### All tables -/

/-- Tables are read by their layout: a head of some bytes, and rows of some width that are as many as
the head announces. -/
structure ReadsByLayout {α : Type} (read : List UInt8 → Except Error α) (name : FourCc)
    (head width : Nat) (announced : List UInt8 → Nat) (laidOut : List UInt8 → α → Prop)
    (stored : α → Nat) : Prop where
  /-- Accepted is what has room for the head and the rows. -/
  accepts : ∀ payload,
    (∃ a, read payload = .ok a) ↔ head + announced payload * width ≤ payload.length
  /-- What is read is what is laid out. -/
  reads : ∀ payload a, read payload = .ok a ↔ laidOut payload a
  /-- A head that announces more rows than there are is refused as such. -/
  refuses : ∀ payload, head ≤ payload.length →
    payload.length < head + announced payload * width →
      read payload = malformed (.entryCount name (announced payload) (payload.length - head))
  /-- Bytes behind the rows do not matter. -/
  trailing : ∀ payload a extra, read payload = .ok a → read (payload ++ extra) = .ok a
  /-- No more rows are stored than the payload holds. -/
  bounded : ∀ payload a, read payload = .ok a → stored a * width ≤ payload.length

theorem RowTable.readsByLayout (t : RowTable) :
    ReadsByLayout t.ofPayload t.name 8 t.width declared t.LaidOut List.length where
  accepts payload := by
    constructor
    · rintro ⟨rows, h⟩
      exact room_of_ofPayload h
    · intro h
      obtain ⟨rows, hread, -⟩ := t.exists_of_room h
      exact ⟨rows, hread⟩
  reads payload rows := ofPayload_eq_ok_iff
  refuses payload hhead h := t.ofPayload_of_crowded hhead h
  trailing payload rows extra h := by
    rw [ofPayload_eq_ok_iff] at h ⊢
    exact h.append extra
  bounded payload rows h := by
    have hinside := (ofPayload_eq_ok_iff.1 h).rows.inside
    omega

theorem SampleSizes.readsByLayout :
    ReadsByLayout ofWide (.ofChars 's' 't' 's' 'z') 12 4 declared (fun payload s => s.LaidOut payload)
      fun s => s.sizes.size where
  accepts payload := by
    constructor
    · rintro ⟨s, h⟩
      exact room_of_ofWide h
    · intro h
      obtain ⟨s, hread, -⟩ := exists_ofWide_of_room h
      exact ⟨s, hread⟩
  reads payload s := ofWide_eq_ok_iff
  refuses payload hhead h := ofWide_of_crowded hhead h
  trailing payload s extra h := by
    rw [ofWide_eq_ok_iff] at h ⊢
    exact h.append extra
  bounded payload s h := by
    have hinside := (ofWide_eq_ok_iff.1 h).rows.inside
    rw [Array.length_toList] at hinside
    omega

/-- **All tables that an index is made from are read by their layout**, and none of them stores more
than its payload holds.  The numbers in them have their most significant byte first. -/
theorem tables_readByLayout :
    (∀ t : RowTable,
      ReadsByLayout t.ofPayload t.name 8 t.width RowTable.declared t.LaidOut List.length) ∧
    ReadsByLayout SampleSizes.ofWide (.ofChars 's' 't' 's' 'z') 12 4 SampleSizes.declared
      (fun payload s => s.LaidOut payload) (fun s => s.sizes.size) ∧
    ∀ bs : List UInt8, bigEndian bs = Nat.ofDigits 256 (bs.reverse.map UInt8.toNat) :=
  ⟨RowTable.readsByLayout, SampleSizes.readsByLayout, bigEndian_eq_ofDigits⟩

end IsoMedia
