import IsoMedia.Proofs.Movie.Entries
import Mathlib.Data.List.Nodup

/-!
# Walking a written track

The boxes of a written track fill its draft with everything that the plan of the track says
(`TrackPlan.Drafted`).  The order of the tables does not matter, since no two of them fill the same
field.
-/

namespace IsoMedia

open IsoMedia.Tree

variable {policy : UnknownBoxPolicy} {levels : Nat}

/-! ### Tables in any order -/

/-- Tables are entered one after the other. -/
theorem walked_tables {tables : List Table}
    (h : ∀ t ∈ tables, t.box.Fits ∧ t.Narrow ∧ t.Sized) (g : Gathered) (d : TrackDraft) :
    Walked policy (levels + 1) (tables.map Table.box) { g with draft := some d }
      { g with draft := some (tables.foldl Table.enter d) } := by
  induction tables generalizing d with
  | nil => exact walked_nil
  | cons t tables ih =>
    rw [List.forall_mem_cons] at h
    obtain ⟨⟨hfits, hnarrow, hsized⟩, hrest⟩ := h
    exact walked_leaf (t.enters hfits hnarrow hsized d) (ih hrest (t.enter d))

/-- The field of a draft that a table fills. -/
def Table.field : Table → Nat
  | times _ => 0
  | runs _ => 1
  | sizes _ => 2
  | narrowOffsets _ => 3
  | wideOffsets _ => 3
  | offsets _ => 4
  | sync _ => 5

/-- Tables that fill different fields may be entered in either order. -/
theorem Table.enter_comm {t u : Table} (h : t.field ≠ u.field) (d : TrackDraft) :
    u.enter (t.enter d) = t.enter (u.enter d) := by
  cases t <;> cases u <;> first | rfl | exact absurd rfl h

namespace TrackPlan

variable {p : TrackPlan}

/-- No two tables of a plan fill the same field. -/
theorem nodup_fields (p : TrackPlan) : (p.allTables.map Table.field).Nodup := by
  unfold allTables
  cases p.wide <;> cases p.offsets <;> cases p.sync <;> simp [Table.field]

theorem foldl_enter_of_perm (h : p.tables.Perm p.allTables) (d : TrackDraft) :
    p.tables.foldl Table.enter d = p.allTables.foldl Table.enter d := by
  refine h.foldl_eq' (fun t ht u hu d => ?_) d
  by_cases heq : t = u
  · rw [heq]
  · have hinj := List.inj_on_of_nodup_map p.nodup_fields (h.mem_iff.1 ht) (h.mem_iff.1 hu)
    exact Table.enter_comm (fun hfield => heq (hinj hfield)) d

/-- The draft with every table of the plan. -/
theorem foldl_enter_allTables (p : TrackPlan) {d : TrackDraft} (hoffsets : d.offsets = none)
    (hsync : d.sync = none) :
    p.allTables.foldl Table.enter d =
      { d with times := some p.times, runs := some p.runs, sizes := some p.sizes,
               chunkOffsets := some p.chunkOffsets, offsets := p.offsets,
               sync := p.sync.map Table.keyNumbers } := by
  obtain ⟨_, _, _, _, _, _, _, _, _, _, _, _⟩ := d
  dsimp only at hoffsets hsync
  subst hoffsets hsync
  unfold allTables
  cases p.wide <;> cases p.offsets <;> cases p.sync <;> rfl

/-- What the draft of a written track holds. -/
structure Drafted (p : TrackPlan) (number : Nat) (d : TrackDraft) : Prop where
  number : d.number = number
  header : ∃ h, d.header = some h ∧ h.trackId = p.trackId
  handler : ∃ h, d.handler = some h ∧ h.handlerType = p.handlerType
  mediaHeader : ∃ h, d.mediaHeader = some h ∧ h.timescale = p.timescale
  description : ∃ s metaData, d.description = some s ∧ s.metaData? = some metaData ∧
    SampleFormat.codec? p.format = some metaData.codec ∧
    metaData.mediaType = metaData.codec.mediaType
  times : d.times = some p.times
  offsets : d.offsets = p.offsets
  runs : d.runs = some p.runs
  chunkOffsets : d.chunkOffsets = some p.chunkOffsets
  sizes : d.sizes = some p.sizes
  sync : d.sync = p.sync.map Table.keyNumbers

/-- The sizes are one for all samples, or one for each. -/
theorem Valid.sized (hp : p.Valid) : (Table.sizes p.sizes).Sized := by
  unfold Table.Sized sizes
  dsimp only
  by_cases hfixed : p.fixedSize = 0
  · rw [if_pos hfixed, if_pos hfixed, List.size_toArray, List.length_map,
      UInt32.toNat_ofNat_of_lt' hp.counted.1]
  · rw [if_neg hfixed, if_neg hfixed]

/-- The tables of a valid plan can be read again. -/
theorem Valid.table_reads (hp : p.Valid) {t : Table} (ht : t ∈ p.tables) : t.Narrow ∧ t.Sized := by
  have hmem := hp.tables.mem_iff.1 ht
  simp only [allTables, List.mem_append, List.mem_cons, List.not_mem_nil, or_false, List.mem_map,
    Option.mem_toList] at hmem
  rcases hmem with ((rfl | rfl | rfl | rfl) | ⟨runs, -, rfl⟩) | ⟨numbers, -, rfl⟩
  · exact ⟨trivial, trivial⟩
  · exact ⟨trivial, trivial⟩
  · exact ⟨trivial, hp.sized⟩
  · split
    · exact ⟨trivial, trivial⟩
    · rename_i hwide
      refine ⟨fun o ho => ?_, trivial⟩
      obtain ⟨c, hc, rfl⟩ := List.mem_map.1 ho
      exact hp.narrow (Bool.eq_false_iff.2 hwide) c hc
  · exact ⟨trivial, trivial⟩
  · exact ⟨trivial, trivial⟩

/-- If the size of a track can be written, so can those of the boxes in it. -/
theorem fits_inside (hfits : p.box.Fits) :
    p.media.Fits ∧ (Box.container (.ofChars 'm' 'i' 'n' 'f') [p.sampleTable]).Fits ∧
      p.sampleTable.Fits ∧ p.description.Fits ∧ ∀ t ∈ p.tables, t.box.Fits := by
  have hmedia : p.media.Fits := Box.fits_of_mem (by simp) hfits
  have hinfo : (Box.container (.ofChars 'm' 'i' 'n' 'f') [p.sampleTable]).Fits :=
    Box.fits_of_mem (by simp) hmedia
  have htable : p.sampleTable.Fits := Box.fits_of_mem (by simp) hinfo
  exact ⟨hmedia, hinfo, htable, Box.fits_of_mem List.mem_cons_self htable,
    fun t ht => Box.fits_of_mem (List.mem_cons_of_mem _ (List.mem_map_of_mem ht)) htable⟩

/-- There are fewer chunks than numbers for them. -/
theorem Valid.length_chunks_lt (hp : p.Valid) (hfits : p.box.Fits) : p.chunks.length < 2 ^ 32 := by
  obtain ⟨-, -, -, -, htables⟩ := fits_inside hfits
  have hlength : p.chunkOffsets.length = p.chunks.length := List.length_map _
  rw [← hlength]
  cases hwide : p.wide with
  | true =>
    have hmem : .wideOffsets p.chunkOffsets ∈ p.tables :=
      hp.tables.mem_iff.2 (by simp [allTables, hwide])
    exact Table.length_lt_of_fits (by decide) (fun _ => length_numberBytes 8 _) (htables _ hmem)
  | false =>
    have hmem : .narrowOffsets p.chunkOffsets ∈ p.tables :=
      hp.tables.mem_iff.2 (by simp [allTables, hwide])
    exact Table.length_lt_of_fits (by decide) (fun _ => length_numberBytes 4 _) (htables _ hmem)

/-- A written track is walked, and its draft holds what the plan says. -/
theorem Valid.walked (hp : p.Valid) (hfits : p.box.Fits) (g : Gathered) :
    ∃ d, p.Drafted g.nextNumber d ∧ ∀ {boxes : List Box} {g' : Gathered},
      Walked policy (levels + 5) boxes
        { g with nextNumber := g.nextNumber + 1, finished := g.finished ++ #[d] } g' →
      Walked policy (levels + 5) (p.box :: boxes) g g' := by
  obtain ⟨hmediaFits, hinfoFits, htableFits, hdescriptionFits, htablesFit⟩ := fits_inside hfits
  have htables : ∀ t ∈ p.tables, t.box.Fits ∧ t.Narrow ∧ t.Sized := fun t ht =>
    ⟨htablesFit t ht, hp.table_reads ht⟩
  obtain ⟨header, hid, hheader⟩ := p.enters_trackHeader
  obtain ⟨mediaHeader, htimescale, hmediaHeader⟩ := p.enters_mediaHeader
  obtain ⟨handler, htype, hhandler⟩ := p.enters_handler
  obtain ⟨description, metaData, hmetaData, hcodec, hmedia, hdescription⟩ :=
    hp.enters_description hdescriptionFits
  let opened : TrackDraft := { number := g.nextNumber }
  let headed : TrackDraft := { opened with header := some header }
  let timed : TrackDraft := { headed with mediaHeader := some mediaHeader }
  let handled : TrackDraft := { timed with handler := some handler }
  let described : TrackDraft := { handled with description := some description }
  refine ⟨p.tables.foldl Table.enter described, ?_, fun hrest => ?_⟩
  · rw [foldl_enter_of_perm hp.tables, foldl_enter_allTables p rfl rfl]
    exact ⟨rfl, ⟨_, rfl, hid⟩, ⟨_, rfl, htype⟩, ⟨_, rfl, htimescale⟩,
      ⟨_, _, rfl, hmetaData, hcodec, hmedia⟩, rfl, rfl, rfl, rfl, rfl, rfl⟩
  · -- From the sample table, which lies innermost, outwards.
    let g₁ : Gathered := { g with nextNumber := g.nextNumber + 1 }
    have hsampleTable : Walked policy (levels + 1) (p.description :: p.tables.map Table.box)
        { g₁ with draft := some handled }
        { g₁ with draft := some (p.tables.foldl Table.enter described) } :=
      walked_leaf (hdescription handled) (walked_tables htables g₁ described)
    have hinfo : Walked policy (levels + 2) [p.sampleTable] _ _ :=
      walked_container rfl (by decide) rfl (fun _ _ => rfl) htableFits hsampleTable walked_nil
    have hmedia : Walked policy (levels + 3) [p.mediaHeader, p.handler, _]
        { g₁ with draft := some headed } _ :=
      walked_leaf (hmediaHeader headed) (walked_leaf (hhandler timed)
        (walked_container rfl (by decide) rfl (fun _ _ => rfl) hinfoFits hinfo walked_nil))
    have htrack : Walked policy (levels + 4) [p.trackHeader, p.media]
        { g₁ with draft := some opened } _ :=
      walked_leaf (hheader opened)
        (walked_container rfl (by decide) rfl (fun _ _ => rfl) hmediaFits hmedia walked_nil)
    exact walked_track rfl hfits htrack hrest

end TrackPlan

end IsoMedia
