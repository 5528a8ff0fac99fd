import IsoMedia.Proofs.Tree.Course

/-!
# The tracks of a course

`Course.tracks` lists the tracks that a walk came to the end of, in the order in which they ended,
and `Course.entries` the boxes that were read for the track around them.  Both tell what was kept:
a box that is dropped takes everything inside it out of the tree, but not out of these lists.

* `Course.map_draft_tracks` : these are the tracks whose drafts are finished.
* `Course.tracksAll_nodes` : those that are kept are the tracks of the tree.
* `Course.isSome_editList_fill` : a draft gets an edit list from the entries.
-/

namespace IsoMedia

namespace Node

/-- The kind of the box. -/
def kind? (n : Node) : Option BoxKind := BoxKind.ofFourCc? n.type

mutual

/-- The tracks among a node and those inside it, in the order in which they end. -/
def tracks : Node → List Node
  | mk type offset size data children =>
    tracksAll children ++
      if BoxKind.ofFourCc? type = some .trak then [mk type offset size data children] else []

/-- The tracks among nodes and those inside them, in the order in which they end. -/
def tracksAll : List Node → List Node
  | [] => []
  | n :: ns => n.tracks ++ tracksAll ns

end

mutual

/-- A node and those inside it, without those that belong to a track in it. -/
def own : Node → List Node
  | mk type offset size data children =>
    if BoxKind.ofFourCc? type = some .trak then []
    else mk type offset size data children :: ownAll children

/-- Nodes and those inside them, without those that belong to a track among them. -/
def ownAll : List Node → List Node
  | [] => []
  | n :: ns => n.own ++ ownAll ns

end

/-- An edit list stands in the box, but not in a track inside it. -/
def HasEditList (n : Node) : Prop := ∃ m ∈ ownAll n.children, m.kind? = some .elst

end Node

namespace Tree

/-- A track that was walked to its end. -/
structure WalkedTrack where
  /-- How many tracks had started before it. -/
  number : Nat
  /-- How many tracks had been walked to their end before it started. -/
  ended : Nat
  /-- What became of its box. -/
  node : Node
  /-- The course of the walk inside it. -/
  inner : Course
  /-- Whether no box around it was dropped. -/
  kept : Bool

/-- The draft with which the track is finished. -/
def WalkedTrack.draft (t : WalkedTrack) : TrackDraft := t.inner.fill { number := t.number }

/-- A box that was read for the track in which it stands. -/
structure Entry where
  kind : BoxKind
  box : Frame
  /-- Whether neither the box nor a box around it was dropped. -/
  kept : Bool

namespace Course

/-- The tracks that are walked to their end, in the order in which they end, if so many have started
and so many have ended before. -/
def tracks (kept : Bool) (number ended : Nat) : Course → List WalkedTrack
  | stop _ => []
  | unknown _ rest | unread _ _ _ rest => rest.tracks kept number ended
  | read kind f data inner rest =>
    let inside := inner.tracks (kept && inner.fault?.isNone) (number + starts kind) ended ++
      if kind = .trak ∧ inner.fault? = none then
        [⟨number, ended, .mk f.type f.offset f.size data inner.nodes, inner, kept⟩]
      else []
    inside ++ rest.tracks kept (number + (starts kind + inner.started)) (ended + inside.length)

/-- The boxes that are read for the track around them, in the order of the file. -/
def entries (kept : Bool) : Course → List Entry
  | stop _ => []
  | unknown _ rest | unread _ _ _ rest => rest.entries kept
  | read kind f _ inner rest =>
    (if kind = .trak then []
      else ⟨kind, f, kept && inner.fault?.isNone⟩ ::
        inner.entries (kept && inner.fault?.isNone)) ++ rest.entries kept

/-- What a walk came upon is what stands in the bytes: a box has the kind of its type code, and a
payload that was read could be read, inside a track or outside. -/
def Sound (inTrack : Bool) : Course → Prop
  | stop _ => True
  | unknown f rest => BoxKind.ofFourCc? f.type = none ∧ rest.Sound inTrack
  | unread kind f _ rest => BoxKind.ofFourCc? f.type = some kind ∧ rest.Sound inTrack
  | read kind f data inner rest =>
    BoxKind.ofFourCc? f.type = some kind ∧
      (kind ≠ .trak → ∃ skipped, Payload.tells kind f inTrack = .ok (data, skipped)) ∧
      inner.Sound (inTrack || kind = .trak) ∧ rest.Sound inTrack

end Course

/-- The tracks of a file that are walked to their end, in the order in which they end. -/
def walkedTracks (policy : UnknownBoxPolicy) (bytes : List UInt8) : List WalkedTrack :=
  (Course.ofFile policy bytes).tracks true 0 0

namespace Course

variable {inTrack : Bool}

theorem sound_andThen {rest : Course} (h : rest.Sound inTrack) (kind : BoxKind)
    (fault : Option Error) : (andThen kind fault rest).Sound inTrack := by
  unfold andThen
  split
  · exact h
  · split
    · exact trivial
    · exact h

theorem sound_ofFrames {policy : UnknownBoxPolicy}
    {met : BoxKind → Frame → Except Error (NodeData × Course)}
    (h : ∀ kind f data inner, met kind f = .ok (data, inner) →
      (kind ≠ .trak → ∃ skipped, Payload.tells kind f inTrack = .ok (data, skipped)) ∧
        inner.Sound (inTrack || kind = .trak))
    (frames : List Frame) (fault : Option Error) :
    (ofFrames policy met frames fault).Sound inTrack := by
  induction frames with
  | nil => exact trivial
  | cons f frames ih =>
    cases hkind : BoxKind.ofFourCc? f.type with
    | none =>
      cases policy with
      | skip =>
        rw [ofFrames_skip_unknown frames fault hkind]
        exact ⟨hkind, ih⟩
      | fail =>
        rw [ofFrames_fail_unknown frames fault hkind]
        exact trivial
    | some kind =>
      cases hmet : met kind f with
      | error e =>
        rw [ofFrames_unread frames fault hkind hmet]
        exact ⟨hkind, sound_andThen ih _ _⟩
      | ok p =>
        obtain ⟨hreads, hinner⟩ := h kind f p.1 p.2 hmet
        rw [ofFrames_read frames fault hkind hmet]
        exact ⟨hkind, hreads, hinner, sound_andThen ih _ _⟩

theorem sound_meet {policy : UnknownBoxPolicy} {levels : Nat} {kind : BoxKind} {f : Frame}
    {data : NodeData} {inner : Course} (h : meet policy levels inTrack kind f = .ok (data, inner)) :
    (kind ≠ .trak → ∃ skipped, Payload.tells kind f inTrack = .ok (data, skipped)) ∧
      inner.Sound (inTrack || kind = .trak) := by
  induction levels generalizing inTrack kind f data inner with
  | zero => cases h
  | succ levels ih =>
    obtain ⟨_, interior, ⟨⟩, hopening, rfl⟩ := meet_eq_ok h
    refine ⟨tells_of_opening hopening, ?_⟩
    cases interior with
    | none => exact trivial
    | some interior => exact sound_ofFrames (fun _ _ _ _ => ih) _ _

theorem sound_ofFile (policy : UnknownBoxPolicy) (bytes : List UInt8) :
    (ofFile policy bytes).Sound false := sound_ofFrames (fun _ _ _ _ => sound_meet) _ _

/-! ### Tracks -/

/-- These are the tracks whose drafts are finished. -/
theorem map_draft_tracks (c : Course) (kept : Bool) (number ended : Nat) :
    (c.tracks kept number ended).map WalkedTrack.draft = c.drafts number := by
  induction c generalizing kept number ended with
  | stop fault => rfl
  | unknown f rest ih => exact ih kept number ended
  | unread kind f e rest ih => exact ih kept number ended
  | read kind f data inner rest ihInner ihRest =>
    simp only [tracks, drafts, List.map_append, ihInner, ihRest, List.append_assoc]
    split <;> rfl

/-- The draft around the boxes keeps its number. -/
@[simp] theorem number_fill (c : Course) (d : TrackDraft) : (c.fill d).number = d.number := by
  induction c generalizing d with
  | stop fault => rfl
  | unknown f rest ih => exact ih d
  | unread kind f e rest ih => exact ih d
  | read kind f data inner rest ihInner ihRest =>
    rw [fill, ihRest]
    split
    · rfl
    · rw [ihInner, TrackDraft.number_enter]

/-- What is dropped holds nothing that is kept. -/
theorem not_kept_of_mem_tracks {c : Course} {number ended : Nat} {t : WalkedTrack}
    (h : t ∈ c.tracks false number ended) : t.kept = false := by
  induction c generalizing number ended with
  | stop fault => cases h
  | unknown f rest ih => exact ih h
  | unread kind f e rest ih => exact ih h
  | read kind f data inner rest ihInner ihRest =>
    simp only [tracks, Bool.false_and, List.mem_append] at h
    rcases h with (h | h) | h
    · exact ihInner h
    · split at h
      · rw [List.mem_singleton.1 h]
      · cases h
    · exact ihRest h

/-- **The tracks that are kept are those of the tree.** -/
theorem tracksAll_nodes {c : Course} (h : c.Sound inTrack) (number ended : Nat) :
    Node.tracksAll c.nodes = ((c.tracks true number ended).filter (·.kept)).map (·.node) := by
  induction c generalizing inTrack number ended with
  | stop fault => rfl
  | unknown f rest ih => exact ih h.2 number ended
  | unread kind f e rest ih => exact ih h.2 number ended
  | read kind f data inner rest ihInner ihRest =>
    obtain ⟨hkind, -, hinner, hrest⟩ := h
    have ihRest := ihRest hrest
    simp only [tracks, nodes, List.filter_append, List.map_append, Bool.true_and]
    rw [← ihRest]
    cases hfault : inner.fault? with
    | some e =>
      -- The box is dropped, and what is inside is not kept either.
      have hnone : (inner.tracks false (number + starts kind) ended).filter (·.kept) = [] :=
        List.filter_eq_nil_iff.2 fun t ht => by simp [not_kept_of_mem_tracks ht]
      simp [hnone]
    | none =>
      simp only [Option.isNone_none, if_true, Node.tracksAll, Node.tracks, hkind,
        ihInner hinner (number + starts kind) ended, List.append_assoc]
      by_cases htrack : kind = .trak
      · simp [htrack]
      · simp [htrack]

/-! ### Entries -/

/-- The draft around the boxes is filled from the entries. -/
theorem fill_eq_foldl (c : Course) (kept : Bool) (d : TrackDraft) :
    c.fill d = (c.entries kept).foldl (fun d e => d.enter e.kind e.box) d := by
  induction c generalizing kept d with
  | stop fault => rfl
  | unknown f rest ih => exact ih kept d
  | unread kind f e rest ih => exact ih kept d
  | read kind f data inner rest ihInner ihRest =>
    rw [fill, ihRest kept, entries, List.foldl_append]
    split
    · rfl
    · rw [List.foldl_cons, ihInner (kept && inner.fault?.isNone)]

theorem not_kept_of_mem_entries {c : Course} {e : Entry} (h : e ∈ c.entries false) :
    e.kept = false := by
  induction c with
  | stop fault => cases h
  | unknown f rest ih => exact ih h
  | unread kind f fault rest ih => exact ih h
  | read kind f data inner rest ihInner ihRest =>
    rw [entries, List.mem_append, Bool.false_and] at h
    rcases h with h | h
    · split at h
      · cases h
      · rcases List.mem_cons.1 h with rfl | h
        · rfl
        · exact ihInner h
    · exact ihRest h

/-- **The entries that are kept are the nodes that belong to no track among them.** -/
theorem map_kind_ownAll_nodes {c : Course} (h : c.Sound inTrack) :
    (Node.ownAll c.nodes).map Node.kind? =
      ((c.entries true).filter (·.kept)).map fun e => some e.kind := by
  induction c generalizing inTrack with
  | stop fault => rfl
  | unknown f rest ih => exact ih h.2
  | unread kind f e rest ih => exact ih h.2
  | read kind f data inner rest ihInner ihRest =>
    obtain ⟨hkind, -, hinner, hrest⟩ := h
    simp only [entries, nodes, List.filter_append, List.map_append, Bool.true_and]
    rw [← ihRest hrest]
    cases hfault : inner.fault? with
    | some e =>
      have hnone : (inner.entries false).filter (·.kept) = [] :=
        List.filter_eq_nil_iff.2 fun e he => by simp [not_kept_of_mem_entries he]
      by_cases htrack : kind = .trak
      · simp [htrack]
      · simp [htrack, hnone]
    | none =>
      simp only [Option.isNone_none, if_true, Node.ownAll, Node.own, hkind, List.map_append]
      by_cases htrack : kind = .trak
      · simp [htrack]
      · simp [htrack, Node.kind?, Node.type, hkind, ihInner hinner]

/-- **A draft gets an edit list from the entries.** -/
theorem isSome_editList_fill {c : Course} (h : c.Sound true) (kept : Bool) (d : TrackDraft) :
    (c.fill d).editList.isSome = true ↔
      d.editList.isSome = true ∨ ∃ e ∈ c.entries kept, e.kind = .elst := by
  induction c generalizing kept d with
  | stop fault => simp [fill, entries]
  | unknown f rest ih => exact ih h.2 kept d
  | unread kind f e rest ih => exact ih h.2 kept d
  | read kind f data inner rest ihInner ihRest =>
    obtain ⟨-, hreads, hinner, hrest⟩ := h
    rw [fill, ihRest hrest kept, entries]
    simp only [List.mem_append, or_and_right, exists_or]
    rw [← or_assoc]
    refine or_congr_left ?_
    -- A track inside has a draft of its own; any other box is read into the draft around it.
    by_cases htrack : kind = .trak
    · simp [htrack]
    · rw [if_neg htrack, if_neg htrack, ihInner hinner (kept && inner.fault?.isNone)]
      simp only [List.mem_cons, exists_eq_or_imp]
      rw [← or_assoc]
      refine or_congr_left ?_
      by_cases hedits : kind = .elst
      · subst hedits
        obtain ⟨skipped, htells⟩ := hreads htrack
        simp [d.isSome_editList_enter htells]
      · simp [hedits, d.editList_enter hedits]

end Course

end Tree

end IsoMedia
