import IsoMedia.Proofs.Tree.Tracks

/-!
# What dropping a box leaves behind

A box that may be dropped fails because of its own payload, or because the walk inside it ends with
a fault.  In the first case nothing but the warning comes of it.  In the second what the walk came
upon before the fault stays: tracks that ended there are finished, tracks that started there have
taken their numbers, and what was read for the track around the box is in its draft.

* `Tree.leaves_of_dropped` : what a dropped box leaves behind, when that is nothing but warnings,
  and how the finished tracks of a file and their edit lists correspond to its tree.
-/

namespace IsoMedia.Tree

open Course

/-- Nothing but warnings was gathered from one point of a walk to another. -/
structure OnlyWarned (g g' : Gathered) : Prop where
  finished : g'.finished = g.finished
  nextNumber : g'.nextNumber = g.nextNumber
  draft : g'.draft = g.draft

namespace Course

/-- The course of the walk inside a box; it is over at once if the box cannot be read. -/
def within (policy : UnknownBoxPolicy) (levels : Nat) (inTrack : Bool) (kind : BoxKind)
    (f : Frame) : Course :=
  match meet policy levels inTrack kind f with
  | .error e => .stop (some e)
  | .ok (_, inner) => inner

variable {policy : UnknownBoxPolicy} {levels : Nat} {inTrack : Bool} {kind : BoxKind} {f : Frame}

theorem within_of_error {e : Error} (h : meet policy levels inTrack kind f = .error e) :
    within policy levels inTrack kind f = .stop (some e) := by
  rw [within, h]

theorem within_of_ok {data : NodeData} {inner : Course}
    (h : meet policy levels inTrack kind f = .ok (data, inner)) :
    within policy levels inTrack kind f = inner := by
  rw [within, h]

/-- Only inside a container a walk can fail. -/
theorem isContainer_of_fault {data : NodeData} {inner : Course} {e : Error}
    (h : meet policy levels inTrack kind f = .ok (data, inner)) (hfault : inner.fault? = some e) :
    kind.isContainer = true := by
  obtain ⟨_, interior, -, hopening, rfl⟩ := meet_eq_ok h
  rw [← (interior_of_opening hopening).1]
  cases interior with
  | none => cases hfault
  | some interior => rfl

/-- A box that holds no boxes is over at once. -/
theorem exists_within_eq_stop (h : kind.isContainer = false) :
    ∃ fault, within policy levels inTrack kind f = stop fault := by
  cases hmeet : meet policy levels inTrack kind f with
  | error e => exact ⟨_, within_of_error hmeet⟩
  | ok met =>
    obtain ⟨_, interior, -, hopening, hinner⟩ := meet_eq_ok hmeet
    rw [← (interior_of_opening hopening).1, Option.isSome_eq_false_iff,
      Option.isNone_iff_eq_none] at h
    rw [h] at hinner
    exact ⟨none, (within_of_ok hmeet).trans hinner⟩

/-- No track was started, so none was finished. -/
theorem drafts_eq_nil {c : Course} (h : c.started = 0) (number : Nat) : c.drafts number = [] := by
  induction c generalizing number with
  | stop fault => rfl
  | unknown f rest ih => exact ih h number
  | unread kind f e rest ih => exact ih h number
  | read kind f data inner rest ihInner ihRest =>
    simp only [started, Nat.add_eq_zero_iff] at h
    obtain ⟨⟨hkind, hinner⟩, hrest⟩ := h
    have hne : kind ≠ .trak := by
      rintro rfl
      cases hkind
    simp [drafts, hne, ihInner hinner, ihRest hrest]

/-- The boxes that were read belong to no track. -/
theorem fill_eq_self {c : Course} {kept : Bool}
    (h : ∀ e ∈ c.entries kept, e.kind.isForTrack = false) (d : TrackDraft) : c.fill d = d := by
  rw [fill_eq_foldl c kept]
  generalize c.entries kept = es at h
  induction es with
  | nil => rfl
  | cons e es ih =>
    rw [List.forall_mem_cons] at h
    rw [List.foldl_cons, d.enter_eq_self h.1]
    exact ih h.2

theorem onlyWarned_leave_iff (c : Course) (g : Gathered) :
    OnlyWarned g (c.leave g) ↔ c.started = 0 ∧ g.draft.map c.fill = g.draft := by
  constructor
  · rintro ⟨-, hnumber, hdraft⟩
    exact ⟨Nat.add_eq_left.1 hnumber, hdraft⟩
  · rintro ⟨hstarted, hdraft⟩
    refine ⟨?_, ?_, hdraft⟩
    · simp [leave, drafts_eq_nil hstarted]
    · simp [leave, hstarted]

/-- A track of a sound course is what the boxes inside it say. -/
theorem sound_of_mem_tracks {c : Course} (h : c.Sound inTrack) {kept : Bool} {number ended : Nat}
    {t : WalkedTrack} (ht : t ∈ c.tracks kept number ended) :
    t.inner.Sound true ∧ t.node.children = t.inner.nodes := by
  induction c generalizing inTrack kept number ended with
  | stop fault => cases ht
  | unknown f rest ih => exact ih h.2 ht
  | unread kind f e rest ih => exact ih h.2 ht
  | read kind f data inner rest ihInner ihRest =>
    obtain ⟨-, -, hinner, hrest⟩ := h
    simp only [tracks, List.mem_append] at ht
    rcases ht with (ht | ht) | ht
    · exact ihInner hinner ht
    · split at ht
      · rename_i htrack
        rw [List.mem_singleton.1 ht]
        rw [htrack.1, decide_eq_true rfl, Bool.or_true] at hinner
        exact ⟨hinner, rfl⟩
      · cases ht
    · exact ihRest hrest ht

/-- A node has an edit list of its own if one was read for it and kept. -/
theorem hasEditList_iff {n : Node} {c : Course} (hc : c.Sound inTrack) (hn : n.children = c.nodes) :
    n.HasEditList ↔ ∃ e ∈ c.entries true, e.kind = .elst ∧ e.kept = true := by
  have hkinds := map_kind_ownAll_nodes hc
  have hmem : n.HasEditList ↔ some BoxKind.elst ∈ (Node.ownAll c.nodes).map Node.kind? := by
    rw [List.mem_map, Node.HasEditList, hn]
  rw [hmem, hkinds]
  simp only [List.mem_map, List.mem_filter, Option.some.injEq]
  constructor
  · rintro ⟨e, ⟨hmem, hkept⟩, hkind⟩
    exact ⟨e, hmem, hkind, hkept⟩
  · rintro ⟨e, hmem, hkind, hkept⟩
    exact ⟨e, ⟨hmem, hkept⟩, hkind⟩

end Course

/-- A box that was dropped leaves what the walk inside it came upon. -/
theorem leave_within_of_dropped {policy : UnknownBoxPolicy} {levels : Nat} {kind : BoxKind}
    {f : Frame} {g g' : Gathered} {e : Error} (hkind : kind.isCritical = false)
    (h : (visit policy levels kind f).result g = (.error e, g')) :
    g' = (within policy levels g.draft.isSome kind f).leave g := by
  rw [follows_visit policy levels _ kind f g rfl] at h
  cases hmeet : meet policy levels g.draft.isSome kind f with
  | error e' =>
    rw [hmeet] at h
    cases h
    rw [within_of_error hmeet, leave_stop]
  | ok met =>
    obtain ⟨data, inner⟩ := met
    rw [hmeet] at h
    obtain ⟨houtcome, rfl⟩ := Prod.mk.inj h
    have hne : kind ≠ .trak := by
      rintro rfl
      cases hkind
    cases hfault : inner.fault? with
    | none =>
      rw [boxOutcome, hfault] at houtcome
      cases houtcome
    | some e' =>
      -- Only a container can fail inside, and the payload of a container is not put into the draft.
      rw [within_of_ok hmeet, leaveBox_of_ne hne,
        map_enter_of_container (isContainer_of_fault hmeet hfault)]

/-- The finished tracks of a file, and those of its tree. -/
theorem tracks_of_build {policy : UnknownBoxPolicy} {bytes : List UInt8} {parsed : Parsed}
    (h : (build policy bytes).result = .ok parsed) :
    parsed.drafts.toList = (walkedTracks policy bytes).map WalkedTrack.draft ∧
      parsed.root.tracks =
        ((walkedTracks policy bytes).filter (·.kept)).map (·.node) := by
  obtain ⟨-, hroot, hdrafts, -⟩ := build_eq_ok_iff.1 h
  unfold walkedTracks
  rw [hroot, hdrafts, map_draft_tracks, ← tracksAll_nodes (sound_ofFile policy bytes) 0 0]
  refine ⟨rfl, ?_⟩
  rw [Node.root, Node.tracks, if_neg (by decide), List.append_nil]

/-- **A dropped box leaves behind what was read inside it.**  The first part says what that is: the
draft around the box is filled with what was read for its track, the tracks that ended inside are
finished and those that started there are counted.  So nothing but warnings comes of it exactly if
no track started inside and what was read leaves the draft alone.  That is so where no box was read
that belongs to a track, and in a box that holds no boxes nothing is read at all.

The second part is about files that were walked to their end.  The finished tracks around which
no box was dropped are, one by one, the tracks of the tree.  A track has an edit list exactly if one
stands in its box, or was read in it inside a box that was dropped. -/
theorem leaves_of_dropped (policy : UnknownBoxPolicy) :
    (∀ (levels : Nat) (kind : BoxKind) (f : Frame) (g g' : Gathered) (e : Error),
      kind.isCritical = false → (visit policy levels kind f).result g = (.error e, g') →
      let inner := within policy levels g.draft.isSome kind f
      g'.draft = g.draft.map inner.fill ∧
      g'.finished = g.finished ++ (inner.drafts g.nextNumber).toArray ∧
      g'.nextNumber = g.nextNumber + inner.started ∧
      (∃ warnings, g'.warnings = warnings ++ g.warnings) ∧
      (OnlyWarned g g' ↔ inner.started = 0 ∧ g.draft.map inner.fill = g.draft) ∧
      (inner.started = 0 → (∀ entry ∈ inner.entries false, entry.kind.isForTrack = false) →
        OnlyWarned g g') ∧
      (kind.isContainer = false → OnlyWarned g g')) ∧
    ∀ (bytes : List UInt8) (parsed : Parsed), (build policy bytes).result = .ok parsed →
      let tracks := walkedTracks policy bytes
      parsed.drafts.toList = tracks.map WalkedTrack.draft ∧
      parsed.root.tracks = (tracks.filter (·.kept)).map (·.node) ∧
      (parsed.drafts.size = parsed.root.tracks.length ↔ ∀ t ∈ tracks, t.kept = true) ∧
      ∀ t ∈ tracks, t.draft.editList.isSome = true ↔
        t.node.HasEditList ∨
          ∃ entry ∈ t.inner.entries true, entry.kind = .elst ∧ entry.kept = false := by
  constructor
  · intro levels kind f g g' e hkind h
    have hleave := leave_within_of_dropped hkind h
    dsimp only
    generalize hinner : within policy levels g.draft.isSome kind f = inner at hleave
    subst hleave
    refine ⟨rfl, rfl, rfl, ⟨_, rfl⟩, onlyWarned_leave_iff inner g, fun hstarted hidle => ?_,
      fun hleaf => ?_⟩
    · refine (onlyWarned_leave_iff inner g).2 ⟨hstarted, ?_⟩
      rw [show inner.fill = id from funext (fill_eq_self hidle)]
      exact Option.map_id'
    · obtain ⟨fault, hstop⟩ := exists_within_eq_stop hleaf
      rw [← hinner, hstop, leave_stop]
      exact ⟨rfl, rfl, rfl⟩
  · intro bytes parsed h
    obtain ⟨hdrafts, htracks⟩ := tracks_of_build h
    refine ⟨hdrafts, htracks, ?_, fun t ht => ?_⟩
    · rw [← Array.length_toList, hdrafts, htracks, List.length_map, List.length_map, eq_comm]
      exact List.length_filter_eq_length_iff
    · obtain ⟨hsound, hchildren⟩ := sound_of_mem_tracks (sound_ofFile policy bytes) ht
      rw [hasEditList_iff hsound hchildren, WalkedTrack.draft, isSome_editList_fill hsound true]
      simp only [Option.isSome_none, Bool.false_eq_true, false_or]
      constructor
      · rintro ⟨entry, hmem, hkind⟩
        cases hkept : entry.kept with
        | true => exact .inl ⟨entry, hmem, hkind, hkept⟩
        | false => exact .inr ⟨entry, hmem, hkind, hkept⟩
      · rintro (⟨entry, hmem, hkind, -⟩ | ⟨entry, hmem, hkind, -⟩)
        · exact ⟨entry, hmem, hkind⟩
        · exact ⟨entry, hmem, hkind⟩

/-- An edit list without entries, and four bytes behind it that are no box. -/
def spoiltEdits : Frame :=
  ⟨.ofChars 'e' 'd' 't' 's', 16, 28, 8,
    [0, 0, 0, 16, 101, 108, 115, 116, 0, 0, 0, 0, 0, 0, 0, 0, 0, 0, 0, 1]⟩

/-- A file in which the edits of the only track cannot be read to their end. -/
def spoiltFile : List UInt8 :=
  -- `moov`, `trak` and `edts`
  [0, 0, 0, 44, 109, 111, 111, 118, 0, 0, 0, 36, 116, 114, 97, 107, 0, 0, 0, 28, 101, 100, 116,
    115] ++ spoiltEdits.payload

/-- The edits are dropped, and the track keeps its edit list, which is not in the tree. -/
theorem spoiltFile_leaves :
    (∃ e g', (visit .skip 2 .edts spoiltEdits).result { draft := some { number := 0 } } =
        (.error e, g') ∧ ¬ OnlyWarned { draft := some { number := 0 } } g') ∧
    ∃ parsed, (build .skip spoiltFile).result = .ok parsed ∧
      (∃ n, parsed.root.tracks = [n] ∧ ¬ n.HasEditList) ∧
      ∃ d, parsed.drafts.toList = [d] ∧ d.editList.isSome = true := by
  have ⟨hbox, hfile⟩ := leaves_of_dropped .skip
  constructor
  · have hfails : ((visit .skip 2 .edts spoiltEdits).result
        { draft := some { number := 0 } }).1.isOk = false := by decide +kernel
    have hfilled : ((within .skip 2 true .edts spoiltEdits).fill { number := 0 }).editList.isSome
        = true := by decide +kernel
    cases hvisit : (visit .skip 2 .edts spoiltEdits).result { draft := some { number := 0 } } with
    | mk outcome g' =>
      rw [hvisit] at hfails
      cases outcome with
      | ok node => cases hfails
      | error e =>
        refine ⟨e, g', rfl, fun hsame => ?_⟩
        obtain ⟨-, -, -, -, hiff, -⟩ := hbox 2 .edts spoiltEdits _ _ e (by decide) hvisit
        have hdraft : (within .skip 2 true .edts spoiltEdits).fill { number := 0 } =
            { number := 0 } := Option.some.inj (hiff.1 hsame).2
        rw [hdraft] at hfilled
        cases hfilled
  · have hends : (build .skip spoiltFile).result.isOk = true := by decide +kernel
    have hseen : (walkedTracks .skip spoiltFile).map (fun t =>
        (t.kept, t.draft.editList.isSome, (Node.ownAll t.node.children).length)) =
          [(true, true, 0)] := by decide +kernel
    cases hbuild : (build .skip spoiltFile).result with
    | error e =>
      rw [hbuild] at hends
      cases hends
    | ok parsed =>
      obtain ⟨hdrafts, htracks, -, -⟩ := hfile spoiltFile parsed hbuild
      generalize walkedTracks .skip spoiltFile = tracks at hseen hdrafts htracks
      obtain ⟨t, rfl, ht⟩ := List.map_eq_singleton_iff.1 hseen
      simp only [Prod.mk.injEq, List.length_eq_zero_iff] at ht
      obtain ⟨hkept, hedits, hown⟩ := ht
      refine ⟨parsed, rfl, ⟨t.node, ?_, fun ⟨m, hm, _⟩ => ?_⟩, t.draft, hdrafts, hedits⟩
      · rw [htracks, List.filter_cons_of_pos hkept]
        rfl
      · rw [hown] at hm
        cases hm

end IsoMedia.Tree
