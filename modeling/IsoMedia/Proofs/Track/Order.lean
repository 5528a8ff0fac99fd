import IsoMedia.Proofs.Track.Gathering
import Mathlib.Data.List.Nodup

/-!
# The order in which things are put into a draft

Each thing that is put into the draft of a track goes into the slot for its kind.  The draft holds the
last thing of each slot (`TrackDraft.value_gather`), so it is the same for all sequences of things
that end alike in every slot.

* `TrackDraft.LastOfEach.value_gather` : to put in only the last thing of each slot, in any order,
  makes the same draft.
-/

namespace IsoMedia.TrackDraft

/-- The tables of a track that are marked when they come. -/
inductive TableKind where
  | description | times | runs | chunkOffsets | sizes | mediaHeader | sync | offsets | editList
deriving DecidableEq

/-- What a draft has a place for. -/
inductive Slot where
  | header
  | handler
  | table (t : TableKind)
deriving DecidableEq

/-- Every slot. -/
def Slot.all : List Slot :=
  [.header, .handler, .table .description, .table .times, .table .runs, .table .chunkOffsets,
    .table .sizes, .table .mediaHeader, .table .sync, .table .offsets, .table .editList]

theorem Slot.mem_all (slot : Slot) : slot ∈ all := by
  cases slot with
  | header | handler => decide
  | table t => cases t <;> decide

/-- The slot that a thing goes into.  A handler for data references goes into none. -/
def Setting.slot? : Setting → Option Slot
  | .header _ => some .header
  | .handler h => if h.handlesData then none else some .handler
  | .mediaHeader _ => some (.table .mediaHeader)
  | .editList _ => some (.table .editList)
  | .description _ => some (.table .description)
  | .times _ => some (.table .times)
  | .offsets _ => some (.table .offsets)
  | .runs _ => some (.table .runs)
  | .chunkOffsets _ => some (.table .chunkOffsets)
  | .sizes _ => some (.table .sizes)
  | .sync _ => some (.table .sync)

/-- The last thing that goes into a slot. -/
def lastIn (settings : List Setting) (slot : Slot) : Option Setting :=
  (settings.filter (·.slot? = some slot)).getLast?

/-- One thing for each slot that anything goes into, the last one; these in any order. -/
structure LastOfEach (settings once : List Setting) : Prop where
  nodup : (once.map Setting.slot?).Nodup
  mem_iff : ∀ s, s ∈ once ↔ ∃ slot, lastIn settings slot = some s

variable {settings once : List Setting} {s : Setting} {slot : Slot}

theorem slot?_of_lastIn (h : lastIn settings slot = some s) : s.slot? = some slot := by
  have hmem := List.mem_filter.1 (List.mem_of_getLast? h)
  exact of_decide_eq_true hmem.2

theorem mem_of_lastIn (h : lastIn settings slot = some s) : s ∈ settings :=
  (List.mem_filter.1 (List.mem_of_getLast? h)).1

theorem lastIn_eq_none_iff : lastIn settings slot = none ↔ ∀ s ∈ settings, s.slot? ≠ some slot := by
  simp [lastIn]

theorem lastIn_concat (settings : List Setting) (s : Setting) :
    lastIn (settings ++ [s]) = fun slot =>
      if s.slot? = some slot then some s else lastIn settings slot := by
  funext slot
  unfold lastIn
  by_cases h : s.slot? = some slot <;> simp [List.filter_append, h]

/-! ### The draft holds what came last -/

/-- The draft that holds the given thing in every slot. -/
def holding (number : Nat) (last : Slot → Option Setting) : TrackDraft where
  number := number
  header := match last .header with
    | some (.header h) => some h
    | _ => none
  handler := match last .handler with
    | some (.handler h) => some h
    | _ => none
  mediaHeader := match last (.table .mediaHeader) with
    | some (.mediaHeader h) => some h
    | _ => none
  editList := match last (.table .editList) with
    | some (.editList l) => some l
    | _ => none
  description := match last (.table .description) with
    | some (.description s) => some s
    | _ => none
  times := match last (.table .times) with
    | some (.times runs) => some runs
    | _ => none
  offsets := match last (.table .offsets) with
    | some (.offsets runs) => some runs
    | _ => none
  runs := match last (.table .runs) with
    | some (.runs runs) => some runs
    | _ => none
  chunkOffsets := match last (.table .chunkOffsets) with
    | some (.chunkOffsets offsets) => some offsets
    | _ => none
  sizes := match last (.table .sizes) with
    | some (.sizes sizes) => some sizes
    | _ => none
  sync := match last (.table .sync) with
    | some (.sync numbers) => some (ascending numbers)
    | _ => none

/-- To put in a thing replaces what the slot for it holds, and nothing else. -/
theorem value_set_holding (number : Nat) (last : Slot → Option Setting) (s : Setting) :
    ((holding number last).set s).value =
      holding number fun slot => if s.slot? = some slot then some s else last slot := by
  cases s with
  | handler h =>
    show (if h.handlesData then _ else _ : TrackDraft) = _
    unfold Setting.slot?
    dsimp only
    split
    · rfl
    · rfl
  | _ => rfl

/-- **The draft holds the last thing of each slot.** -/
theorem value_gather (number : Nat) (settings : List Setting) :
    (gather number settings).value = holding number (lastIn settings) := by
  induction settings using List.reverseRecOn with
  | nil => rfl
  | append_singleton settings s ih =>
    rw [gather] at ih ⊢
    rw [value_foldlM_append, value_foldlM_cons, ih, value_set_holding, lastIn_concat]
    rfl

/-! ### One thing for each slot -/

/-- What comes last in a slot comes last in it among the last things, too. -/
theorem LastOfEach.lastIn_eq (h : LastOfEach settings once) : lastIn once = lastIn settings := by
  funext slot
  cases honce : lastIn once slot with
  | none =>
    cases hlast : lastIn settings slot with
    | none => rfl
    | some s =>
      have hmem := (h.mem_iff s).2 ⟨slot, hlast⟩
      exact absurd (slot?_of_lastIn hlast) (lastIn_eq_none_iff.1 honce s hmem)
  | some s =>
    obtain ⟨slot', hlast⟩ := (h.mem_iff s).1 (mem_of_lastIn honce)
    obtain rfl : slot = slot' :=
      Option.some.inj ((slot?_of_lastIn honce).symm.trans (slot?_of_lastIn hlast))
    exact hlast.symm

/-- **The order does not matter, nor what is replaced later.** -/
theorem LastOfEach.value_gather (h : LastOfEach settings once) (number : Nat) :
    (gather number once).value = (gather number settings).value := by
  rw [TrackDraft.value_gather, TrackDraft.value_gather, h.lastIn_eq]

theorem LastOfEach.of_perm {once' : List Setting} (h : LastOfEach settings once)
    (hperm : once'.Perm once) : LastOfEach settings once' :=
  ⟨(hperm.map Setting.slot?).nodup_iff.2 h.nodup, fun s => hperm.mem_iff.trans (h.mem_iff s)⟩

/-- The last things of all slots, in the order of the slots. -/
theorem lastOfEach_filterMap (settings : List Setting) :
    LastOfEach settings (Slot.all.filterMap (lastIn settings)) := by
  constructor
  · rw [List.map_filterMap]
    refine List.Nodup.filterMap (fun slot slot' a ha ha' => ?_) (by decide)
    obtain ⟨s, hs, rfl⟩ := Option.map_eq_some_iff.1 ha
    obtain ⟨s', hs', hslot⟩ := Option.map_eq_some_iff.1 ha'
    rw [slot?_of_lastIn hs, slot?_of_lastIn hs'] at hslot
    exact (Option.some.inj hslot).symm
  · intro s
    simp [List.mem_filterMap, Slot.mem_all]

end IsoMedia.TrackDraft
