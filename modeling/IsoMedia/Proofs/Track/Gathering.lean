import IsoMedia.Proofs.Tree.Course

/-!
# What is put into the draft of a track

A draft starts empty, and one thing after the other is put into it.  `TrackDraft.gather` does so for
any sequence of things; of each kind of thing the last one counts (`TrackDraft.field_gather`).

* `Tree.exists_gather_of_build` : every draft of a file comes about in this way.
-/

namespace IsoMedia

namespace TrackDraft

/-- A thing that is put into a draft. -/
inductive Setting where
  | header (h : TrackHeader)
  | handler (h : Handler)
  | mediaHeader (h : MediaHeader)
  | editList (l : EditList)
  | description (s : SampleDescription)
  | times (runs : List TimeRun)
  | offsets (runs : List OffsetRun)
  | runs (runs : List ChunkRun)
  | chunkOffsets (offsets : List UInt64)
  | sizes (sizes : SampleSizes)
  | sync (numbers : List UInt32)

/-- Put a thing into the draft. -/
def set (d : TrackDraft) : Setting → Noted TrackDraft
  | .header h => d.setHeader h
  | .handler h => d.setHandler h
  | .mediaHeader h => d.setMediaHeader h
  | .editList l => d.setEditList l
  | .description s => d.setDescription s
  | .times runs => d.setTimes runs
  | .offsets runs => d.setOffsets runs
  | .runs runs => d.setRuns runs
  | .chunkOffsets offsets => d.setChunkOffsets offsets
  | .sizes sizes => d.setSizes sizes
  | .sync numbers => d.setSync numbers

/-- The draft of the track of the given number after things were put into it one after the other. -/
def gather (number : Nat) (settings : List Setting) : Noted TrackDraft :=
  settings.foldlM set { number }

/-- The composition offsets that are put into a draft. -/
def Setting.offsets? : Setting → Option (List OffsetRun)
  | .offsets table => some table
  | _ => none

/-- The numbers of key frames that are put into a draft, in any order. -/
def Setting.sync? : Setting → Option (List UInt32)
  | .sync numbers => some numbers
  | _ => none

/-- Key frames as they are kept: in ascending order and without repetitions. -/
def ascending (numbers : List UInt32) : List UInt32 :=
  (numbers.mergeSort fun a b => decide (a ≤ b)).eraseReps

/-! ### The last one counts -/

theorem value_foldlM_cons (d : TrackDraft) (s : Setting) (settings : List Setting) :
    ((s :: settings).foldlM set d).value = (settings.foldlM set (d.set s).value).value := by
  rw [List.foldlM_cons, Noted.value_bind]

theorem value_foldlM_append (d : TrackDraft) (first second : List Setting) :
    ((first ++ second).foldlM set d).value =
      (second.foldlM set (first.foldlM set d).value).value := by
  induction first generalizing d with
  | nil => rfl
  | cons s first ih => rw [List.cons_append, value_foldlM_cons, value_foldlM_cons, ih]

/-- **A field holds the last thing for it** that is put into the draft, or what it held before. -/
theorem field_foldlM {α : Type} {field : TrackDraft → Option α} {part : Setting → Option α}
    (h : ∀ d s, field (d.set s).value = (part s).or (field d)) (d : TrackDraft)
    (settings : List Setting) :
    field (settings.foldlM set d).value =
      (settings.filterMap part).getLast?.or (field d) := by
  induction settings generalizing d with
  | nil => rfl
  | cons s settings ih =>
    rw [value_foldlM_cons, ih, h]
    cases hpart : part s with
    | none => rw [List.filterMap_cons_none hpart, Option.none_or]
    | some a =>
      rw [List.filterMap_cons_some hpart, List.getLast?_cons]
      cases (settings.filterMap part).getLast? <;> rfl

theorem field_setHandler {α : Type} (field : TrackDraft → α)
    (h : ∀ (d : TrackDraft) handler, field { d with handler := some handler } = field d)
    (d : TrackDraft) (handler : Handler) : field (d.setHandler handler).value = field d := by
  show field (if handler.handlesData then d else { d with handler := some handler }) = field d
  split
  · rfl
  · exact h d handler

theorem offsets_set (d : TrackDraft) (s : Setting) :
    (d.set s).value.offsets = s.offsets?.or d.offsets := by
  cases s with
  | handler handler => exact field_setHandler offsets (fun _ _ => rfl) d handler
  | _ => rfl

theorem sync_set (d : TrackDraft) (s : Setting) :
    (d.set s).value.sync = (s.sync?.map ascending).or d.sync := by
  cases s with
  | handler handler => exact field_setHandler sync (fun _ _ => rfl) d handler
  | _ => rfl

theorem offsets_gather (number : Nat) (settings : List Setting) :
    (gather number settings).value.offsets = (settings.filterMap Setting.offsets?).getLast? := by
  rw [gather, field_foldlM offsets_set, Option.or_none]

theorem sync_gather (number : Nat) (settings : List Setting) :
    (gather number settings).value.sync =
      (settings.filterMap Setting.sync?).getLast?.map ascending := by
  rw [gather, field_foldlM sync_set, Option.or_none, ← List.map_filterMap, List.getLast?_map]

/-! ### The drafts of a file -/

/-- The second draft comes about by putting things into the first. -/
def Reaches (d d' : TrackDraft) : Prop :=
  ∃ settings : List Setting, d' = (settings.foldlM set d).value

theorem Reaches.refl (d : TrackDraft) : Reaches d d := ⟨[], rfl⟩

theorem Reaches.trans {a b c : TrackDraft} (hab : Reaches a b) (hbc : Reaches b c) :
    Reaches a c := by
  obtain ⟨first, rfl⟩ := hab
  obtain ⟨second, rfl⟩ := hbc
  exact ⟨first ++ second, (value_foldlM_append a first second).symm⟩

/-- What is read of a payload is one thing, or nothing if it cannot be read. -/
theorem reaches_put {α : Type} {write : TrackDraft → α → Noted TrackDraft} (setting : α → Setting)
    (h : ∀ d a, write d a = d.set (setting a)) (parsed : Except Error α) (d : TrackDraft) :
    Reaches d (Payload.put write parsed d) := by
  cases parsed with
  | error e => exact .refl d
  | ok a => exact ⟨[setting a], by rw [value_foldlM_cons, ← h]; rfl⟩

open Payload in
theorem reaches_enter (kind : BoxKind) (f : Frame) (d : TrackDraft) :
    Reaches d (d.enter kind f) := by
  have changed {change : TrackDraft → TrackDraft} (hchange : Changes (interpret kind f) change)
      (hd : Reaches d (change d)) : Reaches d (d.enter kind f) := by
    rcases enter_eq hchange d with heq | heq <;> rw [heq]
    · exact hd
    · exact .refl d
  cases kind with
  | tkhd =>
    exact changed (changes_bind_forTrack f (.ofExcept _) TrackDraft.setHeader _)
      (reaches_put .header (fun _ _ => rfl) _ d)
  | elst =>
    exact changed (changes_bind_forTrack f (.ofExcept _) TrackDraft.setEditList _)
      (reaches_put .editList (fun _ _ => rfl) _ d)
  | mdhd =>
    exact changed (changes_bind_forTrack f (.ofExcept _) TrackDraft.setMediaHeader _)
      (reaches_put .mediaHeader (fun _ _ => rfl) _ d)
  | hdlr => exact changed (changes_handler f) (reaches_put .handler (fun _ _ => rfl) _ d)
  | stsd =>
    exact changed (changes_bind_forTrack f _ TrackDraft.setDescription _)
      (reaches_put .description (fun _ _ => rfl) _ d)
  | stts =>
    exact changed (changes_tableForTrack f _ _ _) (reaches_put .times (fun _ _ => rfl) _ d)
  | ctts =>
    exact changed (changes_tableForTrack f _ _ _) (reaches_put .offsets (fun _ _ => rfl) _ d)
  | stsc =>
    exact changed (changes_tableForTrack f _ _ _) (reaches_put .runs (fun _ _ => rfl) _ d)
  | stsz | stz2 =>
    exact changed (changes_tableForTrack f _ _ _) (reaches_put .sizes (fun _ _ => rfl) _ d)
  | stco | co64 =>
    exact changed (changes_tableForTrack f _ _ _) (reaches_put .chunkOffsets (fun _ _ => rfl) _ d)
  | stss =>
    exact changed (changes_tableForTrack f _ _ _) (reaches_put .sync (fun _ _ => rfl) _ d)
  | _ =>
    rw [enter_eq_self d rfl]
    exact .refl d

/-! ### Key frames in order -/

theorem mem_eraseReps {numbers : List UInt32} {a : UInt32} :
    a ∈ numbers.eraseReps ↔ a ∈ numbers := by
  have hloop (b : UInt32) (rest before : List UInt32) :
      a ∈ List.eraseRepsBy.loop (· == ·) b rest before ↔ a ∈ before ∨ a = b ∨ a ∈ rest := by
    fun_induction List.eraseRepsBy.loop (· == ·) b rest before with
    | case1 b before => simp [or_comm]
    | case2 b b' rest before heq ih =>
      obtain rfl := eq_of_beq heq
      rw [ih]
      simp
    | case3 b b' rest before hne ih =>
      rw [ih]
      simp only [List.mem_cons]
      tauto
  cases numbers with
  | nil => rfl
  | cons b rest =>
    rw [List.eraseReps, List.eraseRepsBy, hloop]
    simp

theorem eraseReps_sublist (numbers : List UInt32) : List.Sublist numbers.eraseReps numbers := by
  have hloop (b : UInt32) (rest before : List UInt32) :
      List.Sublist (List.eraseRepsBy.loop (· == ·) b rest before) (before.reverse ++ b :: rest) := by
    fun_induction List.eraseRepsBy.loop (· == ·) b rest before with
    | case1 b before => simp
    | case2 b b' rest before heq ih =>
      exact ih.trans (List.Sublist.append_left (.cons_cons b (List.sublist_cons_self b' rest)) _)
    | case3 b b' rest before hne ih => simpa using ih
  cases numbers with
  | nil => exact .slnil
  | cons b rest => exact hloop b rest []

theorem mem_ascending {numbers : List UInt32} {a : UInt32} :
    a ∈ ascending numbers ↔ a ∈ numbers := by
  rw [ascending, mem_eraseReps, List.mem_mergeSort]

theorem pairwise_ascending (numbers : List UInt32) :
    (ascending numbers).Pairwise fun a b => a.toNat ≤ b.toNat := by
  have htrans (a b c : UInt32) (hab : decide (a ≤ b) = true) (hbc : decide (b ≤ c) = true) :
      decide (a ≤ c) = true :=
    decide_eq_true (UInt32.le_trans (of_decide_eq_true hab) (of_decide_eq_true hbc))
  have htotal (a b : UInt32) : (decide (a ≤ b) || decide (b ≤ a)) = true := by
    simpa using UInt32.le_total a b
  have hsorted := List.pairwise_mergeSort htrans htotal numbers
  refine (hsorted.sublist (eraseReps_sublist _)).imp fun h => ?_
  exact UInt32.le_iff_toNat_le.1 (of_decide_eq_true h)

end TrackDraft

namespace Tree

open TrackDraft

variable {c : Course}

theorem Course.reaches_fill (d : TrackDraft) : Reaches d (c.fill d) := by
  induction c generalizing d with
  | stop fault => exact .refl d
  | unknown f rest ih => exact ih d
  | unread kind f e rest ih => exact ih d
  | read kind f data inner rest ihInner ihRest =>
    rw [fill]
    split
    · exact ihRest d
    · exact ((reaches_enter kind f d).trans (ihInner _)).trans (ihRest _)

/-- **Every draft of a file is gathered** from what the boxes of its track put into it. -/
theorem exists_gather_of_build {policy : UnknownBoxPolicy} {bytes : List UInt8} {parsed : Parsed}
    (h : (build policy bytes).result = .ok parsed) {d : TrackDraft} (hd : d ∈ parsed.drafts) :
    ∃ number settings, d = (gather number settings).value := by
  obtain ⟨-, -, hdrafts, -⟩ := build_eq_ok_iff.1 h
  rw [hdrafts, List.mem_toArray] at hd
  obtain ⟨inner, number, rfl⟩ := Course.exists_fill_of_mem_drafts hd
  obtain ⟨settings, hfill⟩ := Course.reaches_fill (c := inner) { number }
  exact ⟨number, settings, hfill⟩

end Tree

end IsoMedia
