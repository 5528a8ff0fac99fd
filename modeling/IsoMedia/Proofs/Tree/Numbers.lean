import IsoMedia.Proofs.Box.Places
import IsoMedia.Proofs.Tree.Tracks
import Mathlib.Data.List.Pairwise

/-!
# The numbers of tracks

A track takes its number when its walk starts, and its place among the finished tracks when the walk
ends.  Numbers follow the places of the boxes in the file (`number_lt_number_iff`).  They are the
places of the tracks exactly if every track that started before another had been walked to its end
before the other started (`number_walkedTracks_iff`): a track inside another, or one whose walk
failed in a box that was dropped, puts them apart.
-/

namespace IsoMedia.Tree

/-- One track starts before the other in the file, and has the lower number. -/
def WalkedTrack.Precedes (t u : WalkedTrack) : Prop :=
  t.number < u.number ∧ t.node.offset < u.node.offset

namespace Course

variable {policy : UnknownBoxPolicy} {levels : Nat} {inTrack kept : Bool} {kind : BoxKind}
  {f : Frame} {number ended : Nat}

/-! ### Where the boxes of a course lie -/

/-- The boxes that a walk comes upon lie one behind the other between two places of the file, and so
do the boxes inside each of them. -/
def Placed : Nat → Nat → Course → Prop
  | lo, hi, .stop _ => lo ≤ hi
  | lo, hi, unknown f rest | lo, hi, unread _ f _ rest =>
    lo ≤ f.offset ∧ 0 < f.size ∧ rest.Placed (f.offset + f.size) hi
  | lo, hi, read _ f _ inner rest =>
    lo ≤ f.offset ∧ inner.Placed (f.offset + 1) (f.offset + f.size) ∧
      rest.Placed (f.offset + f.size) hi

theorem Placed.le {c : Course} {lo hi : Nat} (h : c.Placed lo hi) : lo ≤ hi := by
  induction c generalizing lo hi with
  | stop fault => exact h
  | unknown f rest ih | unread _ f _ rest ih =>
    obtain ⟨hstart, -, hrest⟩ := h
    have := ih hrest
    omega
  | read kind f data inner rest ihInner ihRest =>
    have hinner := ihInner h.2.1
    have hrest := ihRest h.2.2
    have hstart := h.1
    omega

/-- Boxes may lie further apart. -/
theorem Placed.mono {c : Course} {lo lo' hi : Nat} (h : c.Placed lo hi)
    (hle : lo' ≤ lo) : c.Placed lo' hi := by
  cases c with
  | stop fault => exact Nat.le_trans hle h
  | unknown f rest => exact ⟨Nat.le_trans hle h.1, h.2⟩
  | unread kind f e rest => exact ⟨Nat.le_trans hle h.1, h.2⟩
  | read kind f data inner rest => exact ⟨Nat.le_trans hle h.1, h.2⟩

theorem placed_andThen {rest : Course} {lo hi : Nat} (h : rest.Placed lo hi)
    (fault : Option Error) : (andThen kind fault rest).Placed lo hi := by
  unfold andThen
  split
  · exact h
  · split
    · exact h.le
    · exact h

theorem placed_ofFrames {met : BoxKind → Frame → Except Error (NodeData × Course)}
    (h : ∀ kind f data inner, f.Filled → met kind f = .ok (data, inner) →
      inner.Placed (f.offset + 1) (f.offset + f.size))
    {lo hi : Nat} {frames : List Frame} (hframes : Frame.Placed lo hi frames)
    (fault : Option Error) : (ofFrames policy met frames fault).Placed lo hi := by
  induction frames generalizing lo with
  | nil => exact hframes
  | cons f frames ih =>
    obtain ⟨hstart, hfilled, hrest⟩ := hframes
    have ih := ih hrest
    cases hkind : BoxKind.ofFourCc? f.type with
    | none =>
      cases policy with
      | skip =>
        rw [ofFrames_skip_unknown frames fault hkind]
        exact ⟨hstart, hfilled.size_pos, ih⟩
      | fail =>
        rw [ofFrames_fail_unknown frames fault hkind]
        have := ih.le
        exact show lo ≤ hi by omega
    | some kind =>
      cases hmet : met kind f with
      | error e =>
        rw [ofFrames_unread frames fault hkind hmet]
        exact ⟨hstart, hfilled.size_pos, placed_andThen ih _⟩
      | ok p =>
        rw [ofFrames_read frames fault hkind hmet]
        exact ⟨hstart, h kind f p.1 p.2 hfilled hmet, placed_andThen ih _⟩

theorem placed_ofBytes {met : BoxKind → Frame → Except Error (NodeData × Course)}
    (h : ∀ kind f data inner, f.Filled → met kind f = .ok (data, inner) →
      inner.Placed (f.offset + 1) (f.offset + f.size))
    (scope : Scope) (offset : Nat) (bytes : List UInt8) :
    (ofBytes policy met scope offset bytes).Placed offset (offset + bytes.length) :=
  placed_ofFrames h (Frame.placed_all scope offset bytes) _

theorem placed_of_meet {data : NodeData} {inner : Course} (hfilled : f.Filled)
    (h : meet policy levels inTrack kind f = .ok (data, inner)) :
    inner.Placed (f.offset + 1) (f.offset + f.size) := by
  induction levels generalizing inTrack kind f data inner with
  | zero => cases h
  | succ levels ih =>
    obtain ⟨_, interior, ⟨⟩, hopening, rfl⟩ := meet_eq_ok h
    obtain ⟨hoffset, hend⟩ := hfilled
    cases interior with
    | none => exact show f.offset + 1 ≤ f.offset + f.size by omega
    | some interior =>
      obtain ⟨offset, bytes⟩ := interior
      obtain ⟨hstart, hlength⟩ := (interior_of_opening hopening).2 offset bytes rfl
      have hplaced : (ofInterior policy (meet policy levels (inTrack || kind = .trak))
          (some (offset, bytes))).Placed offset (offset + bytes.length) :=
        placed_ofBytes (fun _ _ _ _ hfilled h => ih hfilled h) .nested offset bytes
      rw [hlength, hend] at hplaced
      exact hplaced.mono (by omega)

/-- The boxes of a file lie in it. -/
theorem placed_ofFile (policy : UnknownBoxPolicy) (bytes : List UInt8) :
    (ofFile policy bytes).Placed 0 (0 + bytes.length) :=
  placed_ofBytes (fun _ _ _ _ hfilled h => placed_of_meet hfilled h) .topLevel 0 bytes

/-! ### Numbers and places -/

theorem number_of_mem_tracks {c : Course} {t : WalkedTrack} (h : t ∈ c.tracks kept number ended) :
    number ≤ t.number ∧ t.number < number + c.started := by
  induction c generalizing kept number ended with
  | stop fault => cases h
  | unknown f rest ih => exact ih h
  | unread kind f e rest ih => exact ih h
  | read kind f data inner rest ihInner ihRest =>
    simp only [tracks, started, List.mem_append] at h ⊢
    rcases h with (h | h) | h
    · have := ihInner h
      omega
    · split at h
      · rename_i htrack
        rw [List.mem_singleton.1 h, htrack.1, starts, if_pos rfl]
        dsimp only
        omega
      · cases h
    · have := ihRest h
      omega

theorem offset_of_mem_tracks {c : Course} {lo hi : Nat} (hplaced : c.Placed lo hi)
    {t : WalkedTrack} (h : t ∈ c.tracks kept number ended) :
    lo ≤ t.node.offset ∧ t.node.offset < hi := by
  induction c generalizing kept number ended lo hi with
  | stop fault => cases h
  | unknown f rest ih | unread _ f _ rest ih =>
    obtain ⟨hstart, -, hrest⟩ := hplaced
    have := ih hrest h
    omega
  | read kind f data inner rest ihInner ihRest =>
    obtain ⟨hstart, hinner, hrest⟩ := hplaced
    have hinnerLe := hinner.le
    have hrestLe := hrest.le
    simp only [tracks, List.mem_append] at h
    rcases h with (h | h) | h
    · have := ihInner hinner h
      omega
    · split at h
      · rw [List.mem_singleton.1 h]
        exact show lo ≤ f.offset ∧ f.offset < hi by omega
      · cases h
    · have := ihRest hrest h
      omega

/-- Of two tracks one starts before the other and has the lower number. -/
theorem pairwise_tracks {c : Course} {lo hi : Nat} (hplaced : c.Placed lo hi) :
    (c.tracks kept number ended).Pairwise fun t u => t.Precedes u ∨ u.Precedes t := by
  induction c generalizing kept number ended lo hi with
  | stop fault => exact .nil
  | unknown f rest ih => exact ih hplaced.2.2
  | unread kind f e rest ih => exact ih hplaced.2.2
  | read kind f data inner rest ihInner ihRest =>
    obtain ⟨hstart, hinner, hrest⟩ := hplaced
    have hinnerLe := hinner.le
    simp only [tracks]
    rw [List.pairwise_append, List.pairwise_append]
    refine ⟨⟨ihInner hinner, ?_, fun t ht u hu => ?_⟩, ihRest hrest, fun t ht u hu => .inl ?_⟩
    · split
      · exact List.pairwise_singleton _ _
      · exact .nil
    · -- The track itself starts before those inside it.
      split at hu
      · rename_i htrack
        have hnumber := number_of_mem_tracks ht
        have hoffset := offset_of_mem_tracks hinner ht
        rw [htrack.1, starts, if_pos rfl] at hnumber
        rw [List.mem_singleton.1 hu]
        exact .inr ⟨by dsimp only; omega, hoffset.1⟩
      · cases hu
    · -- What comes behind the box starts after the box and everything in it.
      have hnumber := number_of_mem_tracks hu
      have hoffset := offset_of_mem_tracks hrest hu
      rcases List.mem_append.1 ht with ht | ht
      · have := number_of_mem_tracks ht
        have := offset_of_mem_tracks hinner ht
        exact ⟨by omega, by omega⟩
      · split at ht
        · rename_i htrack
          rw [htrack.1, starts, if_pos rfl] at hnumber
          rw [List.mem_singleton.1 ht]
          exact ⟨by dsimp only; omega, show f.offset < u.node.offset by omega⟩
        · cases ht

/-- **Numbers follow the places of the tracks in the file.** -/
theorem order_tracks {c : Course} {lo hi : Nat} (hplaced : c.Placed lo hi)
    {t u : WalkedTrack} (ht : t ∈ c.tracks kept number ended)
    (hu : u ∈ c.tracks kept number ended) :
    t.number < u.number ↔ t.node.offset < u.node.offset := by
  by_cases htu : t = u
  · rw [htu]
    exact iff_of_false (Nat.lt_irrefl _) (Nat.lt_irrefl _)
  · have : Std.Symm fun t u : WalkedTrack => t.Precedes u ∨ u.Precedes t := ⟨fun _ _ => Or.symm⟩
    rcases (pairwise_tracks hplaced).forall ht hu htu with h | h
    · exact iff_of_true h.1 h.2
    · exact iff_of_false (Nat.lt_asymm h.1) (Nat.lt_asymm h.2)

theorem length_tracks_le (c : Course) : (c.tracks kept number ended).length ≤ c.started := by
  induction c generalizing kept number ended with
  | stop fault => exact Nat.le_refl 0
  | unknown f rest ih => exact ih
  | unread kind f e rest ih => exact ih
  | read kind f data inner rest ihInner ihRest =>
    simp only [tracks, started, List.length_append]
    refine Nat.add_le_add ?_ ihRest
    rw [Nat.add_comm]
    refine Nat.add_le_add ?_ ihInner
    split
    · rename_i htrack
      rw [htrack.1]
      exact Nat.le_refl 1
    · exact Nat.zero_le _

/-- Before the first of the tracks to end had started, none of them had ended. -/
theorem ended_of_head {c : Course} {t : WalkedTrack}
    (h : (c.tracks kept number ended).head? = some t) : t.ended = ended := by
  induction c generalizing kept number ended with
  | stop fault => cases h
  | unknown f rest ih => exact ih h
  | unread kind f e rest ih => exact ih h
  | read kind f data inner rest ihInner ihRest =>
    simp only [tracks, List.head?_append] at h
    cases hinside :
        (inner.tracks (kept && inner.fault?.isNone) (number + starts kind) ended).head? with
    | some u =>
      rw [hinside] at h
      cases h
      exact ihInner hinside
    | none =>
      rw [List.head?_eq_none_iff] at hinside
      rw [hinside] at h
      split at h
      · cases h
        rfl
      · exact ihRest h

/-- Tracks that are numbered by their places, or that started when all before them had ended, can
not start later than they could end. -/
theorem tracks_eq_nil {c : Course} (hlt : ended < number)
    (h : ∀ t, (c.tracks kept number ended).head? = some t → t.number = ended) :
    c.tracks kept number ended = [] := by
  rw [← List.head?_eq_none_iff, Option.eq_none_iff_forall_ne_some]
  intro t ht
  have hle := (number_of_mem_tracks (List.mem_of_mem_head? ht)).1
  have := h t ht
  omega

end Course

/-- The tracks are numbered by their places, counted from a number. -/
def NumberedFrom (first : Nat) (tracks : List WalkedTrack) : Prop :=
  ∀ (i : Nat) (t : WalkedTrack), tracks[i]? = some t → t.number = first + i

theorem numberedFrom_nil {first : Nat} : NumberedFrom first [] :=
  fun _ _ h => absurd h (by simp)

theorem numberedFrom_append {first : Nat} {ts us : List WalkedTrack} :
    NumberedFrom first (ts ++ us) ↔
      NumberedFrom first ts ∧ NumberedFrom (first + ts.length) us := by
  constructor
  · intro h
    refine ⟨fun i t ht => h i t ?_, fun i t ht => ?_⟩
    · rw [List.getElem?_append_left (List.getElem?_eq_some_iff.1 ht).1, ht]
    · have hplace : (ts ++ us)[ts.length + i]? = some t := by
        rw [List.getElem?_append_right (Nat.le_add_right _ _), Nat.add_sub_cancel_left, ht]
      have := h (ts.length + i) t hplace
      omega
  · rintro ⟨hts, hus⟩ i t ht
    by_cases hi : i < ts.length
    · exact hts i t (List.getElem?_append_left hi ▸ ht)
    · rw [List.getElem?_append_right (by omega)] at ht
      have := hus _ t ht
      omega

theorem numberedFrom_singleton {first : Nat} {t : WalkedTrack} :
    NumberedFrom first [t] ↔ t.number = first := by
  constructor
  · exact fun h => h 0 t rfl
  · intro h i u hu
    cases i with
    | zero =>
      cases hu
      exact h
    | succ i => cases hu

namespace Course

variable {kept : Bool} {number ended : Nat}

/-- **Numbers are places exactly if no track started before an earlier one had ended.** -/
theorem numberedFrom_tracks_iff {c : Course} (hle : ended ≤ number) :
    NumberedFrom ended (c.tracks kept number ended) ↔
      ∀ t ∈ c.tracks kept number ended, t.number = t.ended := by
  induction c generalizing kept number ended with
  | stop fault => exact iff_of_true numberedFrom_nil (List.forall_mem_nil _)
  | unknown f rest ih => exact ih hle
  | unread kind f e rest ih => exact ih hle
  | read kind f data inner rest ihInner ihRest =>
    have hlength : ((read kind f data inner (.stop none)).tracks kept number ended).length ≤ _ :=
      length_tracks_le _
    simp only [tracks, started, List.append_nil, Nat.add_zero] at hlength ⊢
    have hinner : NumberedFrom ended
        (inner.tracks (kept && inner.fault?.isNone) (number + starts kind) ended) ↔ _ :=
      ihInner (by omega)
    -- At most as many tracks ended inside as started there, so the rest, too, comes to tracks with
    -- no more ended than started.
    rw [numberedFrom_append, numberedFrom_append, List.forall_mem_append, List.forall_mem_append,
      hinner, ihRest (by omega)]
    refine and_congr_left fun _ => and_congr_right fun hnumbers => ?_
    split
    · rename_i htrack
      -- A track that is numbered by its place has none inside: those have higher numbers.
      have hnone :
          inner.tracks (kept && inner.fault?.isNone) (number + starts kind) ended = [] := by
        refine tracks_eq_nil ?_ fun t ht => ?_
        · rw [htrack.1, starts, if_pos rfl]
          omega
        · rw [hnumbers t (List.mem_of_mem_head? ht), ended_of_head ht]
      rw [hnone, numberedFrom_singleton, List.forall_mem_singleton]
      exact Iff.rfl
    · exact iff_of_true numberedFrom_nil (List.forall_mem_nil _)

end Course

/-! ### The tracks of a file -/

variable (policy : UnknownBoxPolicy) (bytes : List UInt8)

/-- The tracks of a file have different numbers. -/
theorem nodup_number_walkedTracks : ((walkedTracks policy bytes).map (·.number)).Nodup := by
  rw [List.Nodup, List.pairwise_map]
  refine (Course.pairwise_tracks (Course.placed_ofFile policy bytes)).imp fun h => ?_
  rcases h with h | h
  · exact Nat.ne_of_lt h.1
  · exact Nat.ne_of_gt h.1

/-- The tracks of a file are numbered in the order in which they start. -/
theorem number_lt_number_iff {t u : WalkedTrack} (ht : t ∈ walkedTracks policy bytes)
    (hu : u ∈ walkedTracks policy bytes) :
    t.number < u.number ↔ t.node.offset < u.node.offset :=
  Course.order_tracks (Course.placed_ofFile policy bytes) ht hu

/-- The tracks of a file are numbered by their places if each of them started after all that had
started before it had ended. -/
theorem number_walkedTracks_iff :
    (∀ (i : Nat) (t : WalkedTrack), (walkedTracks policy bytes)[i]? = some t → t.number = i) ↔
      ∀ t ∈ walkedTracks policy bytes, t.number = t.ended := by
  have hiff : NumberedFrom 0 (walkedTracks policy bytes) ↔
      ∀ t ∈ walkedTracks policy bytes, t.number = t.ended :=
    Course.numberedFrom_tracks_iff (Nat.le_refl 0)
  simpa only [NumberedFrom, Nat.zero_add] using hiff

end IsoMedia.Tree
