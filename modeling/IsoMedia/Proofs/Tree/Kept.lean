import IsoMedia.Proofs.Tree.Numbers

/-!
# The boxes that are kept

A walk keeps the boxes that it can read to their end.  `Course.kept` lists those of one level, each
with the course of the walk inside it, and `Course.Keeps` goes down the levels.  What is known of a
whole course is so carried to the boxes inside it.

* `Course.mem_kept_ofFrames` : a kept box is one that was cut out and could be read to its end.
* `Course.Placed.warningsAbout_eq` : the warnings about what lies in a kept box are those of the
  walk inside it.
* `Course.exists_tracks_of_keeps` : the tracks that end in a kept box end in the whole course.
-/

namespace IsoMedia

/-- The warning names the place and the type of the box. -/
def ParseWarning.IsAbout (f : Frame) (w : ParseWarning) : Prop :=
  w.offset = f.offset ∧ w.type = f.type

instance (f : Frame) : DecidablePred (ParseWarning.IsAbout f) :=
  fun w => inferInstanceAs (Decidable (w.offset = f.offset ∧ w.type = f.type))

namespace Tree

/-- How many of the warnings are about a box. -/
def warningsAbout (f : Frame) (ws : List ParseWarning) : Nat := ws.countP (·.IsAbout f)

@[simp] theorem warningsAbout_append (f : Frame) (ws ws' : List ParseWarning) :
    warningsAbout f (ws ++ ws') = warningsAbout f ws + warningsAbout f ws' := List.countP_append

theorem warningsAbout_of_ne {f : Frame} {ws : List ParseWarning}
    (h : ∀ w ∈ ws, w.offset ≠ f.offset) : warningsAbout f ws = 0 := by
  refine List.countP_eq_zero.2 fun w hw habout => ?_
  exact h w hw (of_decide_eq_true habout).1

/-- A box that is kept. -/
structure KeptBox where
  kind : BoxKind
  box : Frame
  data : NodeData
  /-- The course of the walk inside it. -/
  inner : Course

/-- What becomes of the box. -/
def KeptBox.node (b : KeptBox) : Node :=
  .mk b.box.type b.box.offset b.box.size b.data b.inner.nodes

namespace Course

/-- The boxes of this level that are kept. -/
def kept : Course → List KeptBox
  | stop _ => []
  | unknown _ rest | unread _ _ _ rest => rest.kept
  | read kind f data inner rest =>
    if inner.fault?.isNone then ⟨kind, f, data, inner⟩ :: rest.kept else rest.kept

/-- The box is kept so many levels down. -/
inductive Keeps (c : Course) : Nat → KeptBox → Prop
  | here {b : KeptBox} (h : b ∈ c.kept) : Keeps c 1 b
  | inside {depth : Nat} {b b' : KeptBox} (above : Keeps c depth b) (h : b' ∈ b.inner.kept) :
      Keeps c (depth + 1) b'

theorem map_node_kept (c : Course) : c.kept.map KeptBox.node = c.nodes := by
  induction c with
  | stop fault => rfl
  | unknown f rest ih => exact ih
  | unread kind f e rest ih => exact ih
  | read kind f data inner rest _ ih =>
    simp only [kept, nodes]
    split
    · rw [List.map_cons, ih]
      rfl
    · exact ih

theorem exists_kept_of_mem_nodes {c : Course} {n : Node} (h : n ∈ c.nodes) :
    ∃ b ∈ c.kept, b.node = n := by
  rw [← map_node_kept] at h
  exact List.mem_map.1 h

theorem mem_kept_of_andThen {kind : BoxKind} {fault : Option Error} {rest : Course} {b : KeptBox}
    (h : b ∈ (andThen kind fault rest).kept) : b ∈ rest.kept := by
  unfold andThen at h
  split at h
  · exact h
  · split at h
    · cases h
    · exact h

/-- **A kept box is one that was cut out and could be read to its end.** -/
theorem mem_kept_ofFrames {policy : UnknownBoxPolicy}
    {met : BoxKind → Frame → Except Error (NodeData × Course)} {frames : List Frame}
    {fault : Option Error} {b : KeptBox} (h : b ∈ (ofFrames policy met frames fault).kept) :
    b.box ∈ frames ∧ BoxKind.ofFourCc? b.box.type = some b.kind ∧
      met b.kind b.box = .ok (b.data, b.inner) ∧ b.inner.fault? = none := by
  induction frames with
  | nil => cases h
  | cons f frames ih =>
    have later (hb : b ∈ (ofFrames policy met frames fault).kept) :
        b.box ∈ f :: frames ∧ BoxKind.ofFourCc? b.box.type = some b.kind ∧
          met b.kind b.box = .ok (b.data, b.inner) ∧ b.inner.fault? = none := by
      obtain ⟨hmem, hread⟩ := ih hb
      exact ⟨List.mem_cons_of_mem f hmem, hread⟩
    cases hkind : BoxKind.ofFourCc? f.type with
    | none =>
      cases policy with
      | skip =>
        rw [ofFrames_skip_unknown frames fault hkind] at h
        exact later h
      | fail =>
        rw [ofFrames_fail_unknown frames fault hkind] at h
        cases h
    | some kind =>
      cases hmet : met kind f with
      | error e =>
        rw [ofFrames_unread frames fault hkind hmet] at h
        exact later (mem_kept_of_andThen h)
      | ok p =>
        obtain ⟨data, inner⟩ := p
        rw [ofFrames_read frames fault hkind hmet, kept] at h
        split at h
        · rename_i hends
          rcases List.mem_cons.1 h with rfl | h
          · exact ⟨List.mem_cons_self, hkind, hmet, Option.isNone_iff_eq_none.1 hends⟩
          · exact later (mem_kept_of_andThen h)
        · exact later (mem_kept_of_andThen h)

/-! ### Places and warnings -/

theorem offset_of_mem_dropWarnings {kind : BoxKind} {f : Frame} {fault : Option Error}
    {w : ParseWarning} (h : w ∈ dropWarnings kind f fault) : w.offset = f.offset := by
  unfold dropWarnings at h
  split at h
  · cases h
  · split at h
    · cases h
    · rw [List.mem_singleton.1 h]

/-- All warnings are about boxes that the walk came upon. -/
theorem Placed.warnings {c : Course} {lo hi : Nat} (h : c.Placed lo hi) :
    ∀ w ∈ c.warnings, lo ≤ w.offset ∧ w.offset < hi := by
  induction c generalizing lo hi with
  | stop fault => exact fun _ hw => absurd hw List.not_mem_nil
  | unknown f rest ih =>
    obtain ⟨hstart, hsize, hrest⟩ := h
    have hle := hrest.le
    intro w hw
    rcases List.mem_cons.1 hw with rfl | hw
    · exact show lo ≤ f.offset ∧ f.offset < hi by omega
    · have := ih hrest w hw
      omega
  | unread kind f e rest ih =>
    obtain ⟨hstart, hsize, hrest⟩ := h
    have hle := hrest.le
    intro w hw
    rcases List.mem_append.1 hw with hw | hw
    · have := offset_of_mem_dropWarnings hw
      omega
    · have := ih hrest w hw
      omega
  | read kind f data inner rest ihInner ihRest =>
    obtain ⟨hstart, hinner, hrest⟩ := h
    have hinnerLe := hinner.le
    have hrestLe := hrest.le
    intro w hw
    simp only [Course.warnings, List.mem_append] at hw
    rcases hw with hw | hw | hw
    · have := ihInner hinner w hw
      omega
    · have := offset_of_mem_dropWarnings hw
      omega
    · have := ihRest hrest w hw
      omega

/-- None of the warnings is about a box that starts elsewhere. -/
theorem Placed.warningsAbout_eq_zero {c : Course} {lo hi : Nat} (h : c.Placed lo hi) {f : Frame}
    (hout : f.offset < lo ∨ hi ≤ f.offset) : warningsAbout f c.warnings = 0 := by
  refine warningsAbout_of_ne fun w hw => ?_
  have := h.warnings w hw
  omega

theorem warningsAbout_dropWarnings_of_ne {f g : Frame} (h : g.offset ≠ f.offset) (kind : BoxKind)
    (fault : Option Error) : warningsAbout f (dropWarnings kind g fault) = 0 := by
  refine warningsAbout_of_ne fun w hw => ?_
  rwa [offset_of_mem_dropWarnings hw]

theorem Placed.kept {c : Course} {lo hi : Nat} (h : c.Placed lo hi) {b : KeptBox}
    (hb : b ∈ c.kept) :
    lo ≤ b.box.offset ∧ b.inner.Placed (b.box.offset + 1) (b.box.offset + b.box.size) ∧
      b.box.offset + b.box.size ≤ hi ∧ b.inner.fault? = none := by
  induction c generalizing lo with
  | stop fault => cases hb
  | unknown f rest ih | unread _ f _ rest ih =>
    obtain ⟨hstart, -, hrest⟩ := h
    obtain ⟨hlo, hkept⟩ := ih hrest hb
    exact ⟨by omega, hkept⟩
  | read kind f data inner rest _ ih =>
    obtain ⟨hstart, hinner, hrest⟩ := h
    have hinnerLe := hinner.le
    have later (hb : b ∈ rest.kept) :
        lo ≤ b.box.offset ∧ b.inner.Placed (b.box.offset + 1) (b.box.offset + b.box.size) ∧
          b.box.offset + b.box.size ≤ hi ∧ b.inner.fault? = none := by
      obtain ⟨hlo, hkept⟩ := ih hrest hb
      exact ⟨by omega, hkept⟩
    rw [Course.kept] at hb
    split at hb
    · rename_i hends
      rcases List.mem_cons.1 hb with rfl | hb
      · exact ⟨hstart, hinner, hrest.le, Option.isNone_iff_eq_none.1 hends⟩
      · exact later hb
    · exact later hb

/-- The warnings about what lies behind the start of a kept box are those of the walk inside it. -/
theorem Placed.warningsAbout_kept {c : Course} {lo hi : Nat} (h : c.Placed lo hi) {b : KeptBox}
    (hb : b ∈ c.kept) {f : Frame} (hstart : b.box.offset < f.offset)
    (hend : f.offset < b.box.offset + b.box.size) :
    warningsAbout f c.warnings = warningsAbout f b.inner.warnings := by
  induction c generalizing lo with
  | stop fault => cases hb
  | unknown g rest ih =>
    obtain ⟨-, hsize, hrest⟩ := h
    have hlo := (hrest.kept hb).1
    have hzero : warningsAbout f [unknownWarning g] = 0 := by
      refine warningsAbout_of_ne fun w hw => ?_
      rw [List.mem_singleton.1 hw]
      exact show g.offset ≠ f.offset by omega
    rw [Course.warnings, ← List.singleton_append, warningsAbout_append, hzero, Nat.zero_add]
    exact ih hrest hb
  | unread kind g e rest ih =>
    obtain ⟨-, hsize, hrest⟩ := h
    have hlo := (hrest.kept hb).1
    have hzero := warningsAbout_dropWarnings_of_ne (show g.offset ≠ f.offset by omega) kind (some e)
    rw [Course.warnings, warningsAbout_append, hzero, Nat.zero_add]
    exact ih hrest hb
  | read kind g data inner rest _ ih =>
    obtain ⟨-, hinner, hrest⟩ := h
    have hinnerLe := hinner.le
    rw [Course.warnings, warningsAbout_append, warningsAbout_append]
    -- The box is the one in front, whose warnings come first, or one behind it.
    have later (hb : b ∈ rest.kept) : warningsAbout f inner.warnings +
        (warningsAbout f (dropWarnings kind g inner.fault?) + warningsAbout f rest.warnings) =
          warningsAbout f b.inner.warnings := by
      have hlo := (hrest.kept hb).1
      have hinside := hinner.warningsAbout_eq_zero (.inr (show g.offset + g.size ≤ f.offset by omega))
      have hdrop := warningsAbout_dropWarnings_of_ne (show g.offset ≠ f.offset by omega) kind
        inner.fault?
      rw [hinside, hdrop, ih hrest hb]
      omega
    rw [Course.kept] at hb
    split at hb
    · rename_i hends
      rcases List.mem_cons.1 hb with rfl | hb
      · dsimp only at hstart hend ⊢
        rw [hrest.warningsAbout_eq_zero (.inl hend), Option.isNone_iff_eq_none.1 hends]
        rfl
      · exact later hb
    · exact later hb

/-- A kept box lies behind the start of the course, at any level. -/
theorem Placed.keeps {c : Course} {lo hi : Nat} (h : c.Placed lo hi) {depth : Nat} {b : KeptBox}
    (hb : c.Keeps depth b) :
    lo ≤ b.box.offset ∧ b.inner.Placed (b.box.offset + 1) (b.box.offset + b.box.size) ∧
      b.box.offset + b.box.size ≤ hi ∧ b.inner.fault? = none := by
  induction hb with
  | here hb => exact h.kept hb
  | inside above hb ih =>
    obtain ⟨hlo, hinner, hhi, -⟩ := ih
    obtain ⟨hlo', hinner', hhi', hends⟩ := hinner.kept hb
    exact ⟨by omega, hinner', by omega, hends⟩

/-- **The warnings about what lies in a kept box are those of the walk inside it.** -/
theorem Placed.warningsAbout_eq {c : Course} {lo hi : Nat} (h : c.Placed lo hi) {depth : Nat}
    {b : KeptBox} (hb : c.Keeps depth b) {f : Frame} (hstart : b.box.offset < f.offset)
    (hend : f.offset < b.box.offset + b.box.size) :
    warningsAbout f c.warnings = warningsAbout f b.inner.warnings := by
  induction hb with
  | here hb => exact h.warningsAbout_kept hb hstart hend
  | inside above hb ih =>
    obtain ⟨-, hinner, -⟩ := h.keeps above
    obtain ⟨hlo, -, hhi, -⟩ := hinner.kept hb
    rw [ih (by omega) (by omega)]
    exact hinner.warningsAbout_kept hb hstart hend

/-! ### Tracks -/

/-- A kept track is among the tracks of the course, and so are those that end in a kept box. -/
theorem exists_tracks_of_kept {c : Course} {b : KeptBox} (hb : b ∈ c.kept) (number ended : Nat) :
    ∃ number' ended', (∀ t ∈ b.inner.tracks true (number' + starts b.kind) ended',
        t ∈ c.tracks true number ended) ∧
      (b.kind = .trak →
        ⟨number', ended', b.node, b.inner, true⟩ ∈ c.tracks true number ended) := by
  induction c generalizing number ended with
  | stop fault => cases hb
  | unknown f rest ih => exact ih hb number ended
  | unread kind f e rest ih => exact ih hb number ended
  | read kind f data inner rest _ ih =>
    simp only [tracks, List.mem_append]
    rw [kept] at hb
    split at hb
    · rename_i hends
      rcases List.mem_cons.1 hb with rfl | hb
      · refine ⟨number, ended, fun t ht => ?_, fun hkind => ?_⟩
        · rw [hends]
          exact .inl (.inl ht)
        · rw [if_pos ⟨hkind, Option.isNone_iff_eq_none.1 hends⟩]
          exact .inl (.inr (List.mem_singleton_self _))
      · obtain ⟨number', ended', hinside, htrack⟩ := ih hb _ _
        exact ⟨number', ended', fun t ht => .inr (hinside t ht), fun hkind => .inr (htrack hkind)⟩
    · obtain ⟨number', ended', hinside, htrack⟩ := ih hb _ _
      exact ⟨number', ended', fun t ht => .inr (hinside t ht), fun hkind => .inr (htrack hkind)⟩

/-- **The tracks that end in a kept box end in the whole course.** -/
theorem exists_tracks_of_keeps {c : Course} {depth : Nat} {b : KeptBox} (hb : c.Keeps depth b)
    (number ended : Nat) :
    ∃ number' ended', (∀ t ∈ b.inner.tracks true (number' + starts b.kind) ended',
        t ∈ c.tracks true number ended) ∧
      (b.kind = .trak →
        ⟨number', ended', b.node, b.inner, true⟩ ∈ c.tracks true number ended) := by
  induction hb with
  | here hb => exact exists_tracks_of_kept hb number ended
  | inside above hb ih =>
    obtain ⟨number₁, ended₁, hinside, -⟩ := ih
    obtain ⟨number', ended', hinside', htrack⟩ := exists_tracks_of_kept hb _ ended₁
    exact ⟨number', ended', fun t ht => hinside t (hinside' t ht),
      fun hkind => hinside _ (htrack hkind)⟩

end Course

end Tree

end IsoMedia
