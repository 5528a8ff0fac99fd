import IsoMedia.Demuxer
import Mathlib.Algebra.Ring.Nat
import Mathlib.Data.List.Basic

/-!
# Whose turn it is

The samples of several tracks are delivered one after the other.  `Opened.turns` lists the turns
from given tracks to the end, and `Interleaves` says what such a list has to satisfy: every track
delivers its samples in order, and each turn falls to a track whose next sample lies first in the
file.

* `Opened.interleaves_turns` : the turns of tracks interleave them.
* `Interleaves.ascending` : if the samples of every track ascend in the file, then so do those of
  all tracks together.
-/

namespace IsoMedia

/-- The delivery of one sample of one track. -/
structure Turn where
  /-- The place of the track among the tracks. -/
  place : Nat
  /-- The number of the sample in its track. -/
  number : Nat
deriving DecidableEq

namespace Turn

/-- The sample that is delivered. -/
def sample? (tracks : List Track) (turn : Turn) : Option Sample :=
  tracks[turn.place]?.bind fun t => t.samples[turn.number]?

/-- How many turns fall to the track at the given place. -/
def countAt (place : Nat) (turns : List Turn) : Nat := turns.countP (·.place = place)

theorem countAt_take_le (place : Nat) (turns : List Turn) {j k : Nat} (h : j ≤ k) :
    countAt place (turns.take j) ≤ countAt place (turns.take k) :=
  (List.take_prefix_take_left h).sublist.countP_le

theorem countAt_cons (place : Nat) (turn : Turn) (turns : List Turn) :
    countAt place (turn :: turns) =
      (if turn.place = place then 1 else 0) + countAt place turns := by
  simp only [countAt, List.countP_cons, decide_eq_true_eq]
  omega

end Turn

/-- The turns deliver the samples of the tracks from their cursors on. -/
structure Interleaves (tracks : List Track) (turns : List Turn) : Prop where
  /-- Every track delivers the rest of its samples in order. -/
  complete : ∀ place t, tracks[place]? = some t →
    (turns.filter (·.place = place)).map (·.number) =
      List.range' t.cursor (t.samples.size - t.cursor)
  placed : ∀ turn ∈ turns, turn.place < tracks.length
  /-- A turn falls to the next sample of a track, and no other track has a next sample that lies
  before it.  Of two samples at one place that of the earlier track comes first. -/
  least : ∀ (k : Nat) (turn : Turn), turns[k]? = some turn → ∃ t s,
    tracks[turn.place]? = some t ∧ t.samples[turn.number]? = some s ∧
    turn.number = t.cursor + Turn.countAt turn.place (turns.take k) ∧
    ∀ place u r, tracks[place]? = some u →
      u.samples[u.cursor + Turn.countAt place (turns.take k)]? = some r →
      s.pos < r.pos ∨ s.pos = r.pos ∧ turn.place ≤ place

/-- In a track whose samples ascend in the file a later sample does not lie before an earlier
one. -/
theorem Track.pos_le {t : Track} (h : t.samples.toList.Pairwise (·.pos ≤ ·.pos)) {j k : Nat}
    {r s : Sample} (hr : t.samples[j]? = some r) (hs : t.samples[k]? = some s) (hjk : j ≤ k) :
    r.pos ≤ s.pos := by
  obtain ⟨hj, rfl⟩ := Array.getElem?_eq_some_iff.1 hr
  obtain ⟨hk, rfl⟩ := Array.getElem?_eq_some_iff.1 hs
  rcases Nat.eq_or_lt_of_le hjk with rfl | hlt
  · exact Nat.le_refl _
  · exact List.pairwise_iff_getElem.1 h j k (by simpa using hj) (by simpa using hk) hlt

namespace Interleaves

variable {tracks : List Track} {turns : List Turn}

/-- **Tracks whose samples ascend in the file are delivered in the order of the file.** -/
theorem ascending (h : Interleaves tracks turns)
    (hasc : ∀ t ∈ tracks, t.samples.toList.Pairwise (·.pos ≤ ·.pos)) :
    (turns.filterMap (Turn.sample? tracks)).Pairwise (·.pos ≤ ·.pos) := by
  rw [List.pairwise_filterMap, List.pairwise_iff_getElem]
  intro j k hj hk hjk s hs r hr
  obtain ⟨t, s', ht, hs', -, hleast⟩ := h.least j _ (List.getElem?_eq_getElem hj)
  obtain ⟨u, r', hu, hr', hnumber, -⟩ := h.least k _ (List.getElem?_eq_getElem hk)
  have hs : s' = s := by
    rw [Turn.sample?, ht, Option.bind_some, hs'] at hs
    exact Option.some.inj hs
  have hr : r' = r := by
    rw [Turn.sample?, hu, Option.bind_some, hr'] at hr
    exact Option.some.inj hr
  subst hs hr
  -- The sample that was next in the later track when the earlier turn came lies in between.
  have hcount := Turn.countAt_take_le turns[k].place turns (Nat.le_of_lt hjk)
  obtain ⟨hsize, -⟩ := Array.getElem?_eq_some_iff.1 hr'
  have hbefore := fun r => hleast _ u r hu
  have hle : u.cursor + Turn.countAt turns[k].place (turns.take j) ≤ turns[k].number := by omega
  generalize u.cursor + Turn.countAt turns[k].place (turns.take j) = next at hbefore hle
  obtain ⟨q, hnext⟩ : ∃ q, u.samples[next]? = some q :=
    ⟨_, Array.getElem?_eq_getElem (by omega)⟩
  have hbefore := hbefore q hnext
  have hbehind := Track.pos_le (hasc u (List.mem_of_getElem? hu)) hnext hr' hle
  omega

end Interleaves

/-- The track with `n` more samples read. -/
def Track.moved (t : Track) (n : Nat) : Track := { t with cursor := t.cursor + n }

namespace Opened

/-- The turns until every sample is delivered. -/
def turns (tracks : List Track) : List Turn :=
  match _first : first? tracks with
  | none => []
  | some (place, t, _) => ⟨place, t.cursor⟩ :: turns (advanceAt tracks place t)
termination_by remaining tracks
decreasing_by exact remaining_advanceAt_lt _first

variable {tracks : List Track}

theorem turns_eq_nil (h : first? tracks = none) : turns tracks = [] := by
  rw [turns]
  split
  · rfl
  · rename_i h'
    rw [h] at h'
    cases h'

theorem turns_eq_cons {place : Nat} {t : Track} {s : Sample}
    (h : first? tracks = some (place, t, s)) :
    turns tracks = ⟨place, t.cursor⟩ :: turns (advanceAt tracks place t) := by
  rw [turns]
  split
  · rename_i h'
    rw [h] at h'
    cases h'
  · rename_i h'
    rw [h] at h'
    cases h'
    rfl

theorem firstFrom_eq_none_iff {start : Nat} :
    firstFrom tracks start = none ↔ ∀ t ∈ tracks, t.peek? = none := by
  induction tracks generalizing start with
  | nil => simp [firstFrom]
  | cons u us ih =>
    rw [List.forall_mem_cons, ← @ih (start + 1), firstFrom]
    cases u.peek? with
    | none => simp
    | some s =>
      cases firstFrom us (start + 1) with
      | none => simp
      | some later => simp only [reduceCtorEq, false_and, iff_false]; split <;> simp

/-- The first track is the one in front, where no later track has a next sample before its own, or
it is the first of the others, where it lies before the track in front. -/
theorem firstFrom_cons {start place : Nat} {t u : Track} {s : Sample}
    (h : firstFrom (u :: tracks) start = some (place, t, s)) :
    (place = start ∧ t = u ∧ u.peek? = some s ∧
        ∀ later, firstFrom tracks (start + 1) = some later → s.pos ≤ later.2.2.pos) ∨
      (firstFrom tracks (start + 1) = some (place, t, s) ∧
        ∀ r, u.peek? = some r → s.pos < r.pos) := by
  unfold firstFrom at h
  split at h
  · rename_i hu
    refine .inr ⟨h, fun r hr => ?_⟩
    rw [hu] at hr
    cases hr
  · rename_i hu hnone
    cases h
    refine .inl ⟨rfl, rfl, hu, fun later hlater => ?_⟩
    rw [hnone] at hlater
    cases hlater
  · rename_i next later hu hlater
    split at h
    · rename_i hlt
      cases h
      refine .inr ⟨hlater, fun r hr => ?_⟩
      rw [hu] at hr
      cases hr
      exact hlt
    · rename_i hle
      cases h
      refine .inl ⟨rfl, rfl, hu, fun later' hlater' => ?_⟩
      rw [hlater] at hlater'
      cases hlater'
      exact Nat.le_of_not_lt hle

/-- No track has a next sample before that of the first track, nor has an earlier one a next sample
at the same place. -/
theorem firstFrom_least {start place : Nat} {t : Track} {s : Sample}
    (h : firstFrom tracks start = some (place, t, s)) {j : Nat} {u : Track} {r : Sample}
    (hu : tracks[j]? = some u) (hr : u.peek? = some r) :
    s.pos < r.pos ∨ s.pos = r.pos ∧ place ≤ start + j := by
  induction tracks generalizing start place t s j with
  | nil => cases hu
  | cons v vs ih =>
    rcases firstFrom_cons h with ⟨rfl, rfl, hv, hlater⟩ | ⟨hrest, hv⟩
    · cases j with
      | zero =>
        cases hu
        rw [hv] at hr
        cases hr
        exact .inr ⟨rfl, Nat.le_refl _⟩
      | succ j =>
        -- The track in front is compared with the first of the others, and that with `u`.
        cases hfirst : firstFrom vs (place + 1) with
        | none =>
          have hnone := firstFrom_eq_none_iff.1 hfirst u (List.mem_of_getElem? hu)
          rw [hnone] at hr
          cases hr
        | some later =>
          obtain ⟨place', t', s'⟩ := later
          have hbehind := (firstFrom_mem hfirst).1
          have hbefore : s.pos ≤ s'.pos := hlater _ hfirst
          have := ih hfirst hu
          omega
    · cases j with
      | zero =>
        cases hu
        exact .inl (hv r hr)
      | succ j =>
        have := ih hrest hu
        omega

theorem first?_spec {place : Nat} {t : Track} {s : Sample}
    (h : first? tracks = some (place, t, s)) :
    tracks[place]? = some t ∧ t.samples[t.cursor]? = some s :=
  ⟨(firstFrom_mem h).2.1, (firstFrom_mem h).2.2⟩

theorem getElem?_advanceAt {place : Nat} {t : Track} (h : tracks[place]? = some t) (j : Nat) :
    (advanceAt tracks place t)[j]? =
      tracks[j]?.map (·.moved (if place = j then 1 else 0)) := by
  unfold advanceAt
  rw [List.getElem?_set]
  by_cases hj : place = j
  · subst hj
    have hlt := (List.getElem?_eq_some_iff.1 h).1
    rw [if_pos rfl, if_pos hlt, if_pos rfl, h]
    rfl
  · rw [if_neg hj, if_neg hj]
    exact Option.map_id'.symm

/-- A turn for the first track, and then the turns of the tracks as it leaves them. -/
theorem interleaves_cons {place : Nat} {t : Track} {s : Sample}
    (h : first? tracks = some (place, t, s)) {turns : List Turn}
    (hrest : Interleaves (advanceAt tracks place t) turns) :
    Interleaves tracks (⟨place, t.cursor⟩ :: turns) := by
  obtain ⟨ht, hs⟩ := first?_spec h
  have hget := getElem?_advanceAt ht
  have hlength : (advanceAt tracks place t).length = tracks.length := List.length_set
  have hcursor := (Array.getElem?_eq_some_iff.1 hs).1
  constructor
  · intro j u hu
    have hu' := hget j
    rw [hu, Option.map_some] at hu'
    have hih := hrest.complete j _ hu'
    by_cases hj : place = j
    · subst hj
      rw [ht, Option.some.injEq] at hu
      subst hu
      rw [List.filter_cons_of_pos (by simp), List.map_cons, hih, if_pos rfl,
        show t.samples.size - t.cursor = (t.samples.size - (t.cursor + 1)) + 1 by omega,
        List.range'_succ]
      rfl
    · rw [List.filter_cons_of_neg (by simpa using hj), hih, if_neg hj]
      rfl
  · rintro turn hturn
    rcases List.mem_cons.1 hturn with rfl | hturn
    · exact (List.getElem?_eq_some_iff.1 ht).1
    · exact hlength ▸ hrest.placed turn hturn
  · intro k turn hturn
    cases k with
    | zero =>
      cases hturn
      refine ⟨t, s, ht, hs, rfl, ?_⟩
      intro j u r hu hr
      have := firstFrom_least h hu hr
      dsimp only
      omega
    | succ k =>
      rw [List.getElem?_cons_succ] at hturn
      obtain ⟨u', s', hu', hs', hnumber, hleast⟩ := hrest.least k turn hturn
      rw [hget, Option.map_eq_some_iff] at hu'
      obtain ⟨u, hu, rfl⟩ := hu'
      refine ⟨u, s', hu, hs', ?_, ?_⟩
      · rw [List.take_succ_cons, Turn.countAt_cons, hnumber]
        simp only [Track.moved]
        omega
      · intro j v r hv hr
        refine hleast j _ r ((hget j).trans (congrArg _ hv)) ?_
        rw [List.take_succ_cons, Turn.countAt_cons] at hr
        simp only [Track.moved, Nat.add_assoc]
        exact hr

/-- **The turns of tracks interleave them.** -/
theorem interleaves_turns (tracks : List Track) : Interleaves tracks (turns tracks) := by
  fun_induction turns tracks with
  | case1 tracks h =>
    have hnone := firstFrom_eq_none_iff.1 h
    refine ⟨fun place t ht => ?_, nofun, nofun⟩
    have hpeek := hnone t (List.mem_of_getElem? ht)
    unfold Track.peek? at hpeek
    rw [Array.getElem?_eq_none_iff] at hpeek
    rw [Nat.sub_eq_zero_of_le hpeek]
    rfl
  | case2 tracks place t s h ih => exact interleaves_cons h ih

theorem remaining_advanceAt {place : Nat} {t : Track} {s : Sample}
    (h : first? tracks = some (place, t, s)) :
    remaining tracks = remaining (advanceAt tracks place t) + 1 := by
  obtain ⟨ht, hs⟩ := first?_spec h
  clear h
  have hlt := (Array.getElem?_eq_some_iff.1 hs).1
  induction tracks generalizing place with
  | nil => simp at ht
  | cons u us ih =>
    cases place with
    | zero =>
      cases ht
      simp only [advanceAt, List.set_cons_zero, remaining, List.foldr_cons, Track.advance]
      omega
    | succ n =>
      have := ih (by simpa using ht)
      simp only [advanceAt, List.set_cons_succ, remaining, List.foldr_cons] at *
      omega

theorem length_turns (tracks : List Track) : (turns tracks).length = remaining tracks := by
  fun_induction turns tracks with
  | case1 tracks h =>
    have hnone := firstFrom_eq_none_iff.1 h
    clear h
    induction tracks with
    | nil => rfl
    | cons u us ih =>
      rw [List.forall_mem_cons] at hnone
      have hpeek := hnone.1
      unfold Track.peek? at hpeek
      rw [Array.getElem?_eq_none_iff] at hpeek
      have := ih hnone.2
      simp only [remaining, List.foldr_cons, List.length_nil] at *
      omega
  | case2 tracks place t s h ih => rw [List.length_cons, ih, remaining_advanceAt h]

theorem remaining_of_unread (h : ∀ t ∈ tracks, t.cursor = 0) :
    remaining tracks = (tracks.map Track.sampleCount).sum := by
  induction tracks with
  | nil => rfl
  | cons u us ih =>
    rw [List.forall_mem_cons] at h
    have := ih h.2
    simp only [remaining, List.foldr_cons, List.map_cons, List.sum_cons, Track.sampleCount] at *
    omega

end Opened

end IsoMedia
