import IsoMedia.Proofs.Track.Order
import IsoMedia.Proofs.Track.Samples

/-!
# Marks of the tables that came

A `MarkedDraft` gathers the tables of a track without saying in each of them whether it came: it keeps
a word of marks apart from them.  It is built when the marks say that no required table is missing, and
has an error ready should a table be missing all the same.

* `MarkedDraft.shows_gather` : the marks and the tables go together, whatever is put in.
* `MarkedDraft.finish_gather` : the order in which tables come does not matter, the error that is kept
  ready never shows, and the missing table that is told is the first in order.
-/

namespace IsoMedia

/-! ### Bits of a sum of powers -/

theorem dvd_markBits {present : List (Nat × Bool)} {bit : Nat} (h : ∀ p ∈ present, bit ≤ p.1) :
    2 ^ bit ∣ markBits present := by
  induction present with
  | nil => exact Nat.dvd_zero _
  | cons p present ih =>
    rw [List.forall_mem_cons] at h
    refine Nat.dvd_add ?_ (ih h.2)
    split
    · rw [Nat.one_shiftLeft]
      exact Nat.pow_dvd_pow 2 h.1
    · exact Nat.dvd_zero _

/-- If every bit is named once, the sum has just the bits whose table is there. -/
theorem testBit_markBits {present : List (Nat × Bool)} (h : present.Pairwise (·.1 < ·.1))
    (bit : Nat) : (markBits present).testBit bit = true ↔ (bit, true) ∈ present := by
  induction h with
  | nil => simp [markBits]
  | @cons p present hlt _ ih =>
    obtain ⟨first, here⟩ := p
    obtain ⟨rest, hrest⟩ : 2 ^ (first + 1) ∣ markBits present := dvd_markBits hlt
    have hlow : (if here then 1 <<< first else 0) < 2 ^ (first + 1) := by
      rw [Nat.one_shiftLeft]
      split
      · exact Nat.pow_lt_pow_succ (by decide)
      · exact Nat.two_pow_pos _
    have hsum : markBits ((first, here) :: present) =
        2 ^ (first + 1) * rest + if here then 1 <<< first else 0 := by
      rw [← hrest, Nat.add_comm]
      rfl
    rw [hsum, Nat.testBit_two_pow_mul_add _ hlow, List.mem_cons]
    by_cases hbit : bit < first + 1
    · have hnot : (bit, true) ∉ present := fun hmem => by
        have := hlt _ hmem
        dsimp only at this
        omega
      rw [if_pos hbit, or_iff_left hnot, Nat.one_shiftLeft]
      cases here <;> simp [Nat.testBit_two_pow, eq_comm]
    · have hne : (bit, true) ≠ (first, here) := fun heq => by
        cases heq
        omega
      rw [hrest, Nat.testBit_two_pow_mul] at ih
      rw [if_neg hbit, or_iff_right hne, ← ih]
      simp
      omega

/-! ### Malformed tables -/

namespace IndexTables

variable {t : IndexTables} {e : Error}

theorem sizeAt_malformed {sizes : SampleSizes} {sample : Nat} (h : sizes.sizeAt sample = .error e) :
    ∃ fault, e = .invalidData fault := by
  unfold SampleSizes.sizeAt at h
  split at h
  · cases h
  · split at h
    · cases h
    · cases h
      exact ⟨_, rfl⟩

theorem placeSamples_malformed {chunk n pos : Nat} {placed : Array Extent}
    (h : t.placeSamples chunk n pos placed = .error e) : ∃ fault, e = .invalidData fault := by
  fun_induction placeSamples t chunk n pos placed with
  | case1 => cases h
  | case2 | case4 =>
    cases h
    exact ⟨_, rfl⟩
  | case3 n pos placed sample hcount e' hsize =>
    cases h
    exact sizeAt_malformed hsize
  | case5 n pos placed sample hcount size hsize stop hstop ih => exact ih h

theorem placeChunks_malformed {n chunk : Nat} {offsets : List UInt64} {placed : Array Extent}
    (h : t.placeChunks n chunk offsets placed = .error e) : ∃ fault, e = .invalidData fault := by
  fun_induction placeChunks t n chunk offsets placed with
  | case1 => cases h
  | case2 chunk placed offset offsets e' hplaced =>
    cases h
    exact placeSamples_malformed hplaced
  | case3 chunk placed offset offsets placed' hplaced ih => exact ih h

theorem lastChunk_malformed {number : Nat} {run : ChunkRun} {next : Option ChunkRun}
    (h : t.lastChunk number run next = .error e) : ∃ fault, e = .invalidData fault := by
  unfold lastChunk at h
  grind

theorem placeRuns_malformed {number : Nat} {runs : List ChunkRun} {placed : Array Extent}
    (h : t.placeRuns number runs placed = .error e) : ∃ fault, e = .invalidData fault := by
  fun_induction placeRuns t number runs placed with
  | case1 => cases h
  | case2 number placed run runs e' hlast =>
    cases h
    exact lastChunk_malformed hlast
  | case3 number placed run runs last hlast first offsets e' hplaced =>
    cases h
    exact placeChunks_malformed hplaced
  | case4 number placed run runs last hlast first offsets placed' hplaced ih => exact ih h

/-- **Tables without an index are malformed**; nothing else can be wrong with them. -/
theorem index_malformed (h : t.index = .error e) : ∃ fault, e = .invalidData fault := by
  unfold index layout at h
  split at h
  · rename_i e' hplaced
    cases h
    exact placeRuns_malformed hplaced
  · dsimp only at h
    split at h
    · cases h
    · cases h
      exact ⟨_, rfl⟩

end IndexTables

namespace TrackDraft

/-- The tables, in the order of their bits. -/
def TableKind.all : List TableKind :=
  [description, times, runs, chunkOffsets, sizes, mediaHeader, sync, offsets, editList]

/-- The bit of a table among the marks. -/
def TableKind.bit : TableKind → Nat
  | description => 0
  | times => 1
  | runs => 2
  | chunkOffsets => 3
  | sizes => 4
  | mediaHeader => 5
  | sync => 6
  | offsets => 7
  | editList => 8

/-- Whether a table came. -/
def has (d : TrackDraft) : TableKind → Bool
  | .description => d.description.isSome
  | .times => d.times.isSome
  | .runs => d.runs.isSome
  | .chunkOffsets => d.chunkOffsets.isSome
  | .sizes => d.sizes.isSome
  | .mediaHeader => d.mediaHeader.isSome
  | .sync => d.sync.isSome
  | .offsets => d.offsets.isSome
  | .editList => d.editList.isSome

theorem TableKind.mem_all (t : TableKind) : t ∈ all := by cases t <;> decide

theorem TableKind.pairwise_bit : all.Pairwise (·.bit < ·.bit) := by decide

theorem TableKind.bit_lt (t : TableKind) : t.bit < 16 := by cases t <;> decide

theorem TableKind.bit_inj {t t' : TableKind} : t.bit = t'.bit ↔ t = t' := by
  cases t <;> cases t' <;> decide

theorem testBit_mark (d : TrackDraft) (bit : Nat) :
    d.mark.testBit bit = true ↔ ∃ t : TableKind, t.bit = bit ∧ d.has t = true := by
  have hmark : d.mark = markBits (TableKind.all.map fun t => (t.bit, d.has t)) := rfl
  rw [hmark, testBit_markBits (List.pairwise_map.2 TableKind.pairwise_bit)]
  simp [TableKind.mem_all]

/-- A table is there if it was there before or is put in. -/
theorem has_set (d : TrackDraft) (s : Setting) (t : TableKind) :
    (d.set s).value.has t = (decide (s.slot? = some (.table t)) || d.has t) := by
  cases s with
  | handler h =>
    have hslot : (Setting.handler h).slot? ≠ some (.table t) := by
      show (if h.handlesData then none else some Slot.handler) ≠ _
      split <;> simp
    rw [decide_eq_false hslot, Bool.false_or]
    exact field_setHandler (·.has t) (fun _ _ => by cases t <;> rfl) d h
  | _ => cases t <;> rfl

/-- A table is there if it was put in. -/
theorem has_gather (number : Nat) (settings : List Setting) (t : TableKind) :
    (gather number settings).value.has t = true ↔
      ∃ s ∈ settings, s.slot? = some (.table t) := by
  induction settings using List.reverseRecOn with
  | nil => cases t <;> simp [gather, has]
  | append_singleton settings s ih =>
    rw [gather] at ih ⊢
    rw [value_foldlM_append, value_foldlM_cons, List.foldlM_nil, Noted.value_pure, has_set,
      Bool.or_eq_true, decide_eq_true_iff, ih]
    simp [List.mem_append, or_and_right, exists_or, or_comm]

end TrackDraft

/-- What is known so far of a track.  A word of marks says which tables came; those that did not are
empty. -/
structure MarkedDraft where
  number : Nat
  header : Option TrackHeader := none
  handler : Option Handler := none
  mediaHeader : Option MediaHeader := none
  editList : Option EditList := none
  description : Option SampleDescription := none
  times : List TimeRun := []
  offsets : List OffsetRun := []
  runs : List ChunkRun := []
  chunkOffsets : List UInt64 := []
  sizes : SampleSizes := ⟨0, 0, #[]⟩
  /-- In ascending order and without repetitions. -/
  sync : List UInt32 := []
  marks : BitVec 16 := 0

open TrackDraft (TableKind Setting)

/-- The table that is required under a name. -/
def RequiredTable.table : RequiredTable → TableKind
  | sampleDescription => .description
  | timeToSample => .times
  | sampleToChunk => .runs
  | chunkOffset => .chunkOffsets
  | sampleSize => .sizes
  | mediaHeader => .mediaHeader

/-- The required tables, in the order in which they are looked for. -/
def RequiredTable.all : List RequiredTable :=
  [sampleDescription, timeToSample, sampleToChunk, chunkOffset, sampleSize, mediaHeader]

namespace MarkedDraft

/-- Whether a table is marked. -/
def has (m : MarkedDraft) (t : TableKind) : Bool := m.marks.getLsbD t.bit

/-- Note that a table of the given name comes again. -/
def noteRepeated (m : MarkedDraft) (t : TableKind) (name : String) : Noted Unit :=
  if m.has t then
    Noted.say .warn .track s!"MP4: 轨道 #{m.number} 出现重复的 {name}, 使用后出现的"
  else pure ()

/-- Mark a table, and note one that comes again. -/
def mark (m : MarkedDraft) (t : TableKind) (name : String) : Noted MarkedDraft := do
  m.noteRepeated t name
  return { m with marks := m.marks ||| BitVec.twoPow 16 t.bit }

/-- Put a thing into the draft. -/
def set (m : MarkedDraft) : Setting → Noted MarkedDraft
  | .header h => return { m with header := some h }
  | .handler h => return if h.handlesData then m else { m with handler := some h }
  | .mediaHeader h => return { (← m.mark .mediaHeader "mdhd") with mediaHeader := some h }
  | .editList l => return { (← m.mark .editList "elst") with editList := some l }
  | .description s => return { (← m.mark .description "stsd") with description := some s }
  | .times runs => return { (← m.mark .times "stts") with times := runs }
  | .offsets runs => return { (← m.mark .offsets "ctts") with offsets := runs }
  | .runs runs => return { (← m.mark .runs "stsc") with runs := runs }
  | .chunkOffsets offsets =>
    return { (← m.mark .chunkOffsets "stco/co64") with chunkOffsets := offsets }
  | .sizes sizes => return { (← m.mark .sizes "stsz/stz2") with sizes := sizes }
  | .sync numbers => return { (← m.mark .sync "stss") with sync := TrackDraft.ascending numbers }

/-- The draft of the track of the given number after things were put into it one after the other. -/
def gather (number : Nat) (settings : List Setting) : Noted MarkedDraft :=
  settings.foldlM set { number }

/-- A table that need not be there. -/
def optional {α : Type} (m : MarkedDraft) (t : TableKind) (table : α) : Option α :=
  if m.has t then some table else none

/-- The track, if the marks say that no required table is missing and its samples lie within an input
of the given length.  The error is kept ready for a draft that has none to a mark. -/
def finishOr (otherwise : Error) (m : MarkedDraft) (inputLength : Nat) : Except Error Track :=
  match RequiredTable.all.find? (fun required => !m.has required.table) with
  | some missing => .error (.incompleteTrack m.number missing)
  | none =>
    match m.description, m.mediaHeader with
    | some description, some mediaHeader => do
      let offsets := m.optional .offsets m.offsets
      let sync := m.optional .sync m.sync
      let tables : IndexTables :=
        { times := m.times, offsets, runs := m.runs, chunkOffsets := m.chunkOffsets
          sizes := m.sizes, sync, inputLength }
      let samples ← tables.index.mapError (TrackDraft.located { number := m.number })
      match description.metaData? with
      | none => malformed (.inTrack m.number .noSampleEntry)
      | some metaData =>
        return { number := m.number, header := m.header
                 handlerType := m.handler.map (·.handlerType)
                 metaData, description, mediaHeader, editList := m.editList
                 times := m.times, offsets, runs := m.runs, chunkOffsets := m.chunkOffsets
                 sizes := m.sizes, sync, samples, cursor := 0 }
    | _, _ => .error otherwise

/-- The track of a draft, which takes a missing description for an error without a mark. -/
def finish (m : MarkedDraft) (inputLength : Nat) : Except Error Track :=
  m.finishOr (.incompleteTrack m.number .sampleDescription) inputLength

/-- The marked draft holds what the draft holds. -/
structure Shows (m : MarkedDraft) (d : TrackDraft) : Prop where
  number : m.number = d.number
  header : m.header = d.header
  handler : m.handler = d.handler
  mediaHeader : m.mediaHeader = d.mediaHeader
  editList : m.editList = d.editList
  description : m.description = d.description
  times : m.times = d.times.getD []
  offsets : m.offsets = d.offsets.getD []
  runs : m.runs = d.runs.getD []
  chunkOffsets : m.chunkOffsets = d.chunkOffsets.getD []
  sizes : m.sizes = d.sizes.getD ⟨0, 0, #[]⟩
  sync : m.sync = d.sync.getD []
  /-- The bits that are set are those of the tables that are there. -/
  marks : ∀ bit, m.marks.getLsbD bit = true ↔ ∃ t : TableKind, t.bit = bit ∧ d.has t = true

variable {m : MarkedDraft} {d : TrackDraft}

theorem Shows.has_eq (h : m.Shows d) (t : TableKind) : m.has t = d.has t := by
  rw [Bool.eq_iff_iff, has, h.marks]
  simp [TableKind.bit_inj]

theorem Shows.mark_eq (h : m.Shows d) : d.mark = m.marks.toNat := by
  refine Nat.eq_of_testBit_eq fun bit => ?_
  rw [BitVec.testBit_toNat, Bool.eq_iff_iff, h.marks, TrackDraft.testBit_mark]

/-- The marks after one more. -/
theorem Shows.marks_or (h : m.Shows d) {d' : TrackDraft} {t : TableKind}
    (hd' : ∀ u, d'.has u = (decide (u = t) || d.has u)) (bit : Nat) :
    (m.marks ||| BitVec.twoPow 16 t.bit).getLsbD bit = true ↔
      ∃ u : TableKind, u.bit = bit ∧ d'.has u = true := by
  rw [BitVec.getLsbD_or, BitVec.getLsbD_twoPow, decide_eq_true t.bit_lt, Bool.true_and,
    Bool.or_eq_true, h.marks, decide_eq_true_iff]
  simp only [hd', Bool.or_eq_true, decide_eq_true_iff]
  constructor
  · rintro (⟨u, hbit, hu⟩ | hbit)
    · exact ⟨u, hbit, .inr hu⟩
    · exact ⟨t, hbit, .inl rfl⟩
  · rintro ⟨u, hbit, rfl | hu⟩
    · exact .inr hbit
    · exact .inl ⟨u, hbit, hu⟩

theorem Shows.noteRepeated (h : m.Shows d) {α : Type} {t : TableKind} {before : Option α}
    (hbefore : d.has t = before.isSome) (name : String) :
    m.noteRepeated t name = d.noteRepeated name before := by
  unfold MarkedDraft.noteRepeated TrackDraft.noteRepeated
  rw [h.has_eq, hbefore, h.number]

/-- To put in a thing does the same to both, and the same is noted. -/
theorem Shows.set (h : m.Shows d) (s : Setting) :
    (m.set s).value.Shows (d.set s).value ∧ (m.set s).notes = (d.set s).notes := by
  have hmarks := @h.marks_or
  have hnotes {α : Type} {t : TableKind} {before : Option α} (hbefore : d.has t = before.isSome)
      (name : String) :
      ((m.noteRepeated t name).notes ++ []) ++ [] = (d.noteRepeated name before).notes ++ [] := by
    rw [h.noteRepeated hbefore, List.append_nil]
  cases s with
  | header header => exact ⟨{ h with header := rfl }, rfl⟩
  | handler handler =>
    refine ⟨?_, rfl⟩
    show Shows (if handler.handlesData then m else _) (if handler.handlesData then d else _)
    split
    · exact h
    · exact { h with handler := rfl }
  | mediaHeader header =>
    exact ⟨{ h with mediaHeader := rfl, marks := hmarks fun u => by cases u <;> rfl },
      hnotes rfl _⟩
  | editList l =>
    exact ⟨{ h with editList := rfl, marks := hmarks fun u => by cases u <;> rfl }, hnotes rfl _⟩
  | description description =>
    exact ⟨{ h with description := rfl, marks := hmarks fun u => by cases u <;> rfl },
      hnotes rfl _⟩
  | times runs =>
    exact ⟨{ h with times := rfl, marks := hmarks fun u => by cases u <;> rfl }, hnotes rfl _⟩
  | offsets runs =>
    exact ⟨{ h with offsets := rfl, marks := hmarks fun u => by cases u <;> rfl }, hnotes rfl _⟩
  | runs runs =>
    exact ⟨{ h with runs := rfl, marks := hmarks fun u => by cases u <;> rfl }, hnotes rfl _⟩
  | chunkOffsets offsets =>
    exact ⟨{ h with chunkOffsets := rfl, marks := hmarks fun u => by cases u <;> rfl },
      hnotes rfl _⟩
  | sizes sizes =>
    exact ⟨{ h with sizes := rfl, marks := hmarks fun u => by cases u <;> rfl }, hnotes rfl _⟩
  | sync numbers =>
    exact ⟨{ h with sync := rfl, marks := hmarks fun u => by cases u <;> rfl }, hnotes rfl _⟩

theorem shows_start (number : Nat) : Shows { number } { number } where
  number := rfl
  header := rfl
  handler := rfl
  mediaHeader := rfl
  editList := rfl
  description := rfl
  times := rfl
  offsets := rfl
  runs := rfl
  chunkOffsets := rfl
  sizes := rfl
  sync := rfl
  marks bit := by
    constructor
    · intro hbit
      rw [show MarkedDraft.marks { number } = 0#16 from rfl, BitVec.getLsbD_zero] at hbit
      cases hbit
    · rintro ⟨t, -, ht⟩
      cases t <;> cases ht

/-- **The marks and the tables go together**, whatever is put in. -/
theorem shows_gather (number : Nat) (settings : List Setting) :
    (gather number settings).value.Shows (TrackDraft.gather number settings).value := by
  have hrun {m : MarkedDraft} {d : TrackDraft} (h : m.Shows d) :
      (settings.foldlM set m).value.Shows (settings.foldlM TrackDraft.set d).value := by
    induction settings generalizing m d with
    | nil => exact h
    | cons s settings ih =>
      rw [List.foldlM_cons, List.foldlM_cons, Noted.value_bind, Noted.value_bind]
      exact ih (h.set s).1
  exact hrun (shows_start number)

/-! ### Building -/

theorem located_eq (d : TrackDraft) : TrackDraft.located { number := d.number } = d.located := by
  funext e
  cases e <;> rfl

theorem Shows.optional_offsets (h : m.Shows d) : m.optional .offsets m.offsets = d.offsets := by
  unfold optional
  rw [h.has_eq, h.offsets, TrackDraft.has]
  cases d.offsets <;> rfl

theorem Shows.optional_sync (h : m.Shows d) : m.optional .sync m.sync = d.sync := by
  unfold optional
  rw [h.has_eq, h.sync, TrackDraft.has]
  cases d.sync <;> rfl

/-- **A marked draft makes the track of the draft that it shows.**  The error that is kept ready does
not matter. -/
theorem Shows.finishOr_eq (h : m.Shows d) (otherwise : Error) (inputLength : Nat) :
    m.finishOr otherwise inputLength = d.finish inputLength := by
  have hhas : (fun required : RequiredTable => !m.has required.table) =
      fun required => !d.has required.table := funext fun required => by rw [h.has_eq]
  unfold finishOr
  rw [hhas, h.optional_offsets, h.optional_sync, h.number, located_eq, h.header, h.handler,
    h.mediaHeader, h.editList, h.description, h.times, h.runs, h.chunkOffsets, h.sizes]
  obtain ⟨number, header, handler, mediaHeader, editList, description, times, offsets, runs,
    chunkOffsets, sizes, sync⟩ := d
  -- The tables are looked for in the order in which they are required.
  cases description with
  | none => rfl
  | some description =>
  cases times with
  | none => rfl
  | some times =>
  cases runs with
  | none => rfl
  | some runs =>
  cases chunkOffsets with
  | none => rfl
  | some chunkOffsets =>
  cases sizes with
  | none => rfl
  | some sizes => cases mediaHeader <;> rfl

/-! ### What is missing -/

/-- What is found first in a list is the first of it in an order in which the list stands. -/
theorem find?_eq_some_iff_of_pairwise {α : Type} {f : α → Nat} {p : α → Bool} {l : List α}
    (h : l.Pairwise (f · < f ·)) {a : α} :
    l.find? p = some a ↔ a ∈ l ∧ p a = true ∧ ∀ b ∈ l, f b < f a → p b = false := by
  induction h with
  | nil => simp
  | @cons b l hlt _ ih =>
    cases hb : p b with
    | true =>
      rw [List.find?_cons_of_pos hb]
      constructor
      · rintro ⟨⟩
        refine ⟨List.mem_cons_self, hb, fun c hc hcb => ?_⟩
        rcases List.mem_cons.1 hc with rfl | hc
        · exact absurd hcb (Nat.lt_irrefl _)
        · exact absurd hcb (Nat.lt_asymm (hlt c hc))
      · rintro ⟨ha, -, hfirst⟩
        rcases List.mem_cons.1 ha with rfl | ha
        · rfl
        · have := hfirst b List.mem_cons_self (hlt a ha)
          rw [hb] at this
          cases this
    | false =>
      rw [List.find?_cons_of_neg (by simp [hb]), ih]
      constructor
      · rintro ⟨ha, hpa, hfirst⟩
        refine ⟨List.mem_cons_of_mem b ha, hpa, fun c hc hca => ?_⟩
        rcases List.mem_cons.1 hc with rfl | hc
        · exact hb
        · exact hfirst c hc hca
      · rintro ⟨ha, hpa, hfirst⟩
        rcases List.mem_cons.1 ha with rfl | ha
        · rw [hb] at hpa
          cases hpa
        · exact ⟨ha, hpa, fun c hc => hfirst c (List.mem_cons_of_mem b hc)⟩

/-- Nothing was put in for the table, but for each that is looked for before it. -/
structure FirstMissing (settings : List Setting) (missing : RequiredTable) : Prop where
  absent : ∀ s ∈ settings, s.slot? ≠ some (.table missing.table)
  before : ∀ earlier : RequiredTable, earlier.table.bit < missing.table.bit →
    ∃ s ∈ settings, s.slot? = some (.table earlier.table)

theorem RequiredTable.mem_all (required : RequiredTable) : required ∈ RequiredTable.all := by
  cases required <;> decide

theorem find?_eq_some_iff_firstMissing {number : Nat} {settings : List Setting}
    {missing : RequiredTable} :
    RequiredTable.all.find?
        (fun required => !(gather number settings).value.has required.table) = some missing ↔
      FirstMissing settings missing := by
  have hhas (t : TableKind) : (gather number settings).value.has t = true ↔
      ∃ s ∈ settings, s.slot? = some (.table t) := by
    rw [(shows_gather number settings).has_eq, TrackDraft.has_gather]
  have hnot (t : TableKind) : (!(gather number settings).value.has t) = true ↔
      ∀ s ∈ settings, s.slot? ≠ some (.table t) := by
    rw [Bool.not_eq_true', ← Bool.not_eq_true, hhas]
    simp
  rw [find?_eq_some_iff_of_pairwise (f := fun required => required.table.bit) (by decide), hnot]
  simp only [RequiredTable.mem_all, true_and, forall_const, Bool.not_eq_false', hhas]
  exact ⟨fun ⟨habsent, hbefore⟩ => ⟨habsent, hbefore⟩, fun ⟨habsent, hbefore⟩ => ⟨habsent, hbefore⟩⟩

/-- With all required tables marked, none is told to be missing unless the error that is kept ready
tells it. -/
theorem finishOr_ne_incomplete {otherwise : Error} {inputLength track : Nat} {missing : RequiredTable}
    (hother : otherwise ≠ .incompleteTrack track missing)
    (hnone : RequiredTable.all.find? (fun required => !m.has required.table) = none) :
    m.finishOr otherwise inputLength ≠ .error (.incompleteTrack track missing) := by
  intro h
  rw [finishOr, hnone] at h
  dsimp only at h
  split at h
  · rename_i description mediaHeader hdescription hmediaHeader
    revert h
    generalize hindex : IndexTables.index _ = index
    cases index with
    | error e =>
      obtain ⟨fault, rfl⟩ := IndexTables.index_malformed hindex
      nofun
    | ok samples =>
      intro h
      change (match description.metaData? with | none => _ | some metaData => _) = _ at h
      cases hmetaData : description.metaData? with
      | none =>
        rw [hmetaData] at h
        cases h
      | some metaData =>
        rw [hmetaData] at h
        cases h
  · exact hother (Except.error.inj h)

/-- **The missing table that is told is the first in order**, and none is told if none is missing. -/
theorem finish_incomplete_iff (number : Nat) (settings : List Setting) (inputLength track : Nat)
    (missing : RequiredTable) :
    (gather number settings).value.finish inputLength = .error (.incompleteTrack track missing) ↔
      track = number ∧ FirstMissing settings missing := by
  have hshows := shows_gather number settings
  have hnumber : (gather number settings).value.number = number := by
    rw [hshows.number, TrackDraft.value_gather]
    rfl
  -- With another error kept ready there is one place left where a table is told to be missing.
  rw [finish, hshows.finishOr_eq, ← hshows.finishOr_eq .needMoreData,
    ← @find?_eq_some_iff_firstMissing number]
  cases hfind : RequiredTable.all.find?
      (fun required => !(gather number settings).value.has required.table) with
  | some first =>
    rw [finishOr, hfind, hnumber]
    simp [eq_comm]
  | none => exact iff_of_false (finishOr_ne_incomplete nofun hfind) nofun

/-- A track has the marks of its draft. -/
theorem mark_of_finish {inputLength : Nat} {t : Track} (h : d.finish inputLength = .ok t) :
    t.mark = d.mark := by
  obtain ⟨c, samples, -, rfl⟩ := TrackDraft.finish_eq_ok_iff.1 h
  simp [Track.mark, TrackDraft.mark, TrackDraft.Complete.track, c.description_eq, c.times_eq,
    c.runs_eq, c.chunkOffsets_eq, c.sizes_eq, c.mediaHeader_eq]

/-- **What becomes of a draft.**  Whatever is put into it, in any order and however often, it makes the
same track or comes to the same error as if only the last thing of each slot was put in, in any order;
and there are such sequences.  A bit of the marks is set exactly if a table with that bit was put in, and
the track has these marks.  So the error that is kept ready for a table without its mark never shows,
and a table is told to be missing exactly if it is the first required one that was not put in. -/
theorem finish_gather (number : Nat) (settings : List Setting) (inputLength : Nat) :
    let m := (gather number settings).value
    let d := (TrackDraft.gather number settings).value
    m.finish inputLength = (d.build inputLength).result ∧
    (∃ once, TrackDraft.LastOfEach settings once) ∧
    (∀ once, TrackDraft.LastOfEach settings once →
      (gather number once).value.finish inputLength = m.finish inputLength) ∧
    (∀ bit, m.marks.getLsbD bit = true ↔
      ∃ s ∈ settings, ∃ t : TableKind, s.slot? = some (.table t) ∧ t.bit = bit) ∧
    d.mark = m.marks.toNat ∧
    (∀ t, m.finish inputLength = .ok t → t.mark = m.marks.toNat) ∧
    (∀ otherwise, m.finishOr otherwise inputLength = m.finish inputLength) ∧
    ∀ track missing, m.finish inputLength = .error (.incompleteTrack track missing) ↔
      track = number ∧ FirstMissing settings missing := by
  intro m d
  have hshows : m.Shows d := shows_gather number settings
  have hfinish : m.finish inputLength = d.finish inputLength := hshows.finishOr_eq _ inputLength
  refine ⟨?_, ⟨_, TrackDraft.lastOfEach_filterMap settings⟩, fun once honce => ?_, fun bit => ?_,
    hshows.mark_eq, fun t ht => ?_, fun otherwise => ?_,
    finish_incomplete_iff number settings inputLength⟩
  · rw [hfinish, Opened.result_build]
  · have hdraft : (TrackDraft.gather number once).value = d := honce.value_gather number
    rw [finish, (shows_gather number once).finishOr_eq, hdraft, hfinish]
  · rw [hshows.marks]
    simp only [d, TrackDraft.has_gather]
    constructor
    · rintro ⟨t, hbit, s, hs, hslot⟩
      exact ⟨s, hs, t, hslot, hbit⟩
    · rintro ⟨s, hs, t, hslot, hbit⟩
      exact ⟨t, hbit, s, hs, hslot⟩
  · rw [mark_of_finish (hfinish.symm.trans ht), hshows.mark_eq]
  · rw [hfinish, hshows.finishOr_eq]

/-- A handler of the given component. -/
def handlerOf (component : FourCc) : Handler := ⟨⟨0, 0⟩, component, .ofChars 's' 'o' 'u' 'n', ""⟩

/-- A track whose sizes and key frames come twice, and a handler for data references last. -/
def repeated : List Setting :=
  [.sync [5], .sizes ⟨2, 9, #[]⟩] ++ TrackDraft.fiveSamples
    [.handler (handlerOf (.ofChars 'm' 'h' 'l' 'r')), .sync [4, 0, 9, 2, 4],
      .handler (handlerOf (.ofChars 'd' 'h' 'l' 'r'))]

/-- The last thing of each slot, in another order. -/
def reordered : List Setting :=
  [.sync [4, 0, 9, 2, 4], .mediaHeader ⟨⟨0, 0⟩, 0, 0, 1000, 50, "und"⟩, .sizes ⟨1, 5, #[]⟩,
    .chunkOffsets [8], .runs [⟨1, 5, 1⟩], .times [⟨5, 10⟩],
    .description ⟨⟨0, 0⟩, [⟨⟨0x6D, 0x70, 0x34, 0x61⟩, 1, .data .binData []⟩]⟩,
    .handler (handlerOf (.ofChars 'm' 'h' 'l' 'r'))]

theorem repeated_reordered : TrackDraft.LastOfEach repeated reordered ∧
    (gather 0 reordered).value.finish 13 = (gather 0 repeated).value.finish 13 ∧
    ∃ t, (gather 0 repeated).value.finish 13 = .ok t ∧ t.samples.size = 5 ∧ t.mark = 0x7F := by
  have hreordered : reordered =
      (TrackDraft.Slot.all.filterMap (TrackDraft.lastIn repeated)).reverse := rfl
  have hlast : TrackDraft.LastOfEach repeated reordered :=
    (TrackDraft.lastOfEach_filterMap repeated).of_perm (hreordered ▸ List.reverse_perm _)
  obtain ⟨-, -, hsame, -⟩ := finish_gather 0 repeated 13
  exact ⟨hlast, hsame reordered hlast, _, rfl, rfl, rfl⟩

end MarkedDraft

end IsoMedia
