import IsoMedia.Proofs.Demuxer.Opening
import IsoMedia.Proofs.Machine.Index
import IsoMedia.Proofs.Machine.Reader
import IsoMedia.Proofs.Tree.Course

/-!
# Building tracks on a machine

The tables of a track come from payloads that declare their number of rows in 32 bits, so no draft
of a file that was walked has longer ones (`countable_of_build`), and every such draft is built
without a fault (`buildTrack_eq`).
-/

namespace IsoMedia

/-! ### As many rows as declared -/

theorem Decode.length_of_rowsFrom {α : Type} {row : Decode α} {n : Nat} {acc rows : List α}
    {c c' : Cursor} (h : Decode.rowsFrom row n acc c = .ok (rows, c')) :
    rows.length = acc.length + n := by
  induction n generalizing acc c with
  | zero =>
    cases h
    exact List.length_reverse
  | succ n ih =>
    rw [Decode.rowsFrom] at h
    split at h
    · have := ih h
      rw [List.length_cons] at this
      omega
    · cases h

/-- A table has as many rows as a word of 32 bits declares. -/
theorem Decode.length_of_fullTable {α : Type} {name : FourCc} {width : Nat} {row : Decode α}
    {bs : List UInt8} {rows : List α} (h : (Decode.fullTable name width row).parse bs = .ok rows) :
    rows.length < 2 ^ 32 := by
  obtain ⟨_, hread⟩ := Machine.parse_eq_ok h
  obtain ⟨_, _, -, htable⟩ := Machine.decode_bind_eq_ok hread
  obtain ⟨count, _, -, hrest⟩ := Machine.decode_bind_eq_ok htable
  obtain ⟨_, _, -, hrows⟩ := Machine.decode_bind_eq_ok hrest
  have hlength : rows.length = 0 + count.toNat := Decode.length_of_rowsFrom hrows
  have := count.toNat_lt
  omega

/-- The rows of the tables of a track can be counted in 32 bits. -/
structure TrackDraft.Countable (d : TrackDraft) : Prop where
  times : ∀ rows ∈ d.times, rows.length < 2 ^ 32
  offsets : ∀ rows ∈ d.offsets, rows.length < 2 ^ 32
  runs : ∀ rows ∈ d.runs, rows.length < 2 ^ 32
  chunkOffsets : ∀ rows ∈ d.chunkOffsets, rows.length < 2 ^ 32
  sync : ∀ rows ∈ d.sync, rows.length < 2 ^ 32

namespace TrackDraft

theorem countable_start (number : Nat) : Countable { number } :=
  ⟨nofun, nofun, nofun, nofun, nofun⟩

theorem Countable.put {α : Type} {set : TrackDraft → α → Noted TrackDraft}
    {parsed : Except Error α} {d : TrackDraft} (h : d.Countable)
    (hset : ∀ a, parsed = .ok a → (set d a).value.Countable) :
    (Payload.put set parsed d).Countable := by
  cases parsed with
  | ok a => exact hset a rfl
  | error e => exact h

theorem length_eraseReps_le (numbers : List UInt32) :
    numbers.eraseReps.length ≤ numbers.length := by
  have hloop (a : UInt32) (rest before : List UInt32) :
      (List.eraseRepsBy.loop (· == ·) a rest before).length ≤ rest.length + before.length + 1 := by
    fun_induction List.eraseRepsBy.loop (· == ·) a rest before with
    | case1 a before => simp
    | case2 a before a' rest h ih =>
      rw [List.length_cons]
      omega
    | case3 a before a' rest h ih =>
      rw [List.length_cons] at ih ⊢
      omega
  cases numbers with
  | nil => exact Nat.le_refl 0
  | cons a rest => exact hloop a rest []

open Payload in
/-- **No payload makes a table longer than 32 bits can count.** -/
theorem Countable.enter {d : TrackDraft} (h : d.Countable) (kind : BoxKind) (f : Frame) :
    (d.enter kind f).Countable := by
  have changed {set : TrackDraft → TrackDraft} (hset : Changes (interpret kind f) set)
      (hd : (set d).Countable) : (d.enter kind f).Countable := by
    rcases enter_eq hset d with heq | heq <;> rw [heq]
    · exact hd
    · exact h
  have one {α : Type} {l : List α} (hl : l.length < 2 ^ 32) :
      ∀ rows ∈ some l, rows.length < 2 ^ 32 := by
    rintro rows ⟨⟩
    exact hl
  cases kind with
  | tkhd =>
    exact changed (changes_bind_forTrack f (.ofExcept _) TrackDraft.setHeader _) <|
      h.put fun _ _ => { h with }
  | elst =>
    exact changed (changes_bind_forTrack f (.ofExcept _) TrackDraft.setEditList _) <|
      h.put fun _ _ => { h with }
  | mdhd =>
    exact changed (changes_bind_forTrack f (.ofExcept _) TrackDraft.setMediaHeader _) <|
      h.put fun _ _ => { h with }
  | hdlr =>
    refine changed (changes_handler f) (h.put fun handler _ => ?_)
    show Countable (if handler.handlesData then d else _)
    split
    · exact h
    · exact { h with }
  | stsd =>
    exact changed (changes_bind_forTrack f _ TrackDraft.setDescription _) <|
      h.put fun _ _ => { h with }
  | stts =>
    exact changed (changes_tableForTrack f _ _ _) <|
      h.put fun _ hrows => { h with times := one (Decode.length_of_fullTable hrows) }
  | ctts =>
    exact changed (changes_tableForTrack f _ _ _) <|
      h.put fun _ hrows => { h with offsets := one (Decode.length_of_fullTable hrows) }
  | stsc =>
    exact changed (changes_tableForTrack f _ _ _) <|
      h.put fun _ hrows => { h with runs := one (Decode.length_of_fullTable hrows) }
  | stsz | stz2 =>
    exact changed (changes_tableForTrack f _ _ _) <|
      h.put fun _ _ => { h with }
  | stco | co64 =>
    exact changed (changes_tableForTrack f _ _ _) <|
      h.put fun _ hrows => { h with chunkOffsets := one (Decode.length_of_fullTable hrows) }
  | stss =>
    refine changed (changes_tableForTrack f _ _ _) <|
      h.put fun numbers hrows => { h with sync := one ?_ }
    refine Nat.lt_of_le_of_lt (length_eraseReps_le _) ?_
    rw [List.length_mergeSort]
    exact Decode.length_of_fullTable hrows
  | _ =>
    rw [enter_eq_self d rfl]
    exact h

end TrackDraft

namespace Tree

open Course

variable {c : Course}

theorem Course.countable_fill {d : TrackDraft} (h : d.Countable) : (c.fill d).Countable := by
  induction c generalizing d with
  | stop fault => exact h
  | unknown f rest ih => exact ih h
  | unread kind f e rest ih => exact ih h
  | read kind f data inner rest ihInner ihRest =>
    refine ihRest ?_
    split
    · exact h
    · exact ihInner (h.enter kind f)

theorem Course.countable_of_mem_drafts {number : Nat} {d : TrackDraft} (h : d ∈ c.drafts number) :
    d.Countable := by
  obtain ⟨inner, number, rfl⟩ := exists_fill_of_mem_drafts h
  exact countable_fill (TrackDraft.countable_start number)

/-- The tables of every draft of a file can be counted in 32 bits. -/
theorem countable_of_build {policy : UnknownBoxPolicy} {bytes : List UInt8} {parsed : Parsed}
    (h : (build policy bytes).result = .ok parsed) {d : TrackDraft} (hd : d ∈ parsed.drafts.toList) :
    d.Countable := by
  obtain ⟨-, -, hdrafts, -⟩ := build_eq_ok_iff.1 h
  rw [hdrafts] at hd
  exact countable_of_mem_drafts hd

end Tree

namespace Machine

/-- The track, if it has every required table and its samples lie within an input of the given
length. -/
def buildTrack (d : TrackDraft) (inputLength : Nat) : Machine Track := do
  let description ← of (d.require .sampleDescription d.description)
  let times ← of (d.require .timeToSample d.times)
  let runs ← of (d.require .sampleToChunk d.runs)
  let chunkOffsets ← of (d.require .chunkOffset d.chunkOffsets)
  let sizes ← of (d.require .sampleSize d.sizes)
  let mediaHeader ← of (d.require .mediaHeader d.mediaHeader)
  let tables : IndexTables :=
    { times, offsets := d.offsets, runs, chunkOffsets, sizes, sync := d.sync, inputLength }
  let samples ← of ((← attempt (index tables)).mapError d.located)
  match description.metaData? with
  | none => throw (.invalidData (.inTrack d.number .noSampleEntry))
  | some metaData =>
    return { number := d.number, header := d.header
             handlerType := d.handler.map (·.handlerType)
             metaData, description, mediaHeader, editList := d.editList
             times, offsets := d.offsets, runs, chunkOffsets, sizes, sync := d.sync
             samples, cursor := 0 }

theorem of_require_bind {β : Type} {d : TrackDraft} {missing : RequiredTable} {α : Type}
    {table : Option α} {k : α → Machine β} {f : α → Except Error β}
    (h : ∀ a, table = some a → k a = of (f a)) :
    (of (d.require missing table) >>= k) = of (d.require missing table >>= f) := by
  cases table with
  | none => rfl
  | some a => exact h a rfl

/-- **A draft becomes a track without a fault.** -/
theorem buildTrack_eq {d : TrackDraft} (hd : d.Countable) {inputLength : Nat}
    (hlength : inputLength < 2 ^ 64) : buildTrack d inputLength = of (d.finish inputLength) := by
  unfold buildTrack TrackDraft.finish
  refine of_require_bind fun description _ => of_require_bind fun times htimes =>
    of_require_bind fun runs hruns => of_require_bind fun chunkOffsets hchunks =>
    of_require_bind fun sizes _ => of_require_bind fun mediaHeader _ => ?_
  have htables : Countable
      { times, offsets := d.offsets, runs, chunkOffsets, sizes, sync := d.sync, inputLength } :=
    ⟨hd.times _ htimes, hd.offsets, hd.runs _ hruns, hd.chunkOffsets _ hchunks, hd.sync, hlength⟩
  dsimp only
  rw [index_eq htables.indexable, attempt_of, pure_bind, of_bind]
  congr 1
  funext samples
  cases description.metaData? <;> rfl

end Machine

end IsoMedia
