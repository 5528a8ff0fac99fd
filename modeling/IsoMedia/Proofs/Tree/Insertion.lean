import IsoMedia.Proofs.Tree.Shifting

/-!
# A box of an unknown kind among others

If boxes of unknown kinds are passed over, then a walk of boxes with one such box put among them does
what it did without it: it ends in the same way, finishes the same drafts, and finds the same boxes,
those behind the new one as much further back as that one is large.  There is one more warning.

`Course.Inserted` relates the two courses, and `Course.inserted_ofBytes` goes down the boxes before
the new one.

* `Tree.inside_inserted` : what a walk returns and gathers with the box and without it.
-/

namespace IsoMedia

variable {α : Type} {R : α → α → Prop} {new l l' : List α}

/-- The lists have the same beginning, then the second one has something new, and what follows is
related. -/
def Spliced (R : α → α → Prop) (new l l' : List α) : Prop :=
  ∃ before after after', l = before ++ after ∧ l' = before ++ (new ++ after') ∧
    List.Forall₂ R after after'

theorem Spliced.of_forall₂ (h : List.Forall₂ R l l') : Spliced R new l (new ++ l') :=
  ⟨[], l, l', rfl, rfl, h⟩

theorem Spliced.append (first : List α) (h : Spliced R new l l') :
    Spliced R new (first ++ l) (first ++ l') := by
  obtain ⟨before, after, after', rfl, rfl, hafter⟩ := h
  exact ⟨first ++ before, after, after', (List.append_assoc _ _ _).symm,
    (List.append_assoc _ _ _).symm, hafter⟩

namespace Tree

namespace Course

/-- The second course comes upon a box of an unknown kind as well, or is over before. -/
inductive Inserted (f : Frame) : Course → Course → Prop
  /-- The box stands here, and before what was here otherwise. -/
  | here {c c' : Course} (h : c.Shifted f.size c') : Inserted f c (.unknown f c')
  /-- The walk is over before it comes to the box. -/
  | stopped (e : Error) : Inserted f (.stop (some e)) (.stop (some e))
  | unknown (g : Frame) {rest rest' : Course} (hrest : Inserted f rest rest') :
    Inserted f (.unknown g rest) (.unknown g rest')
  | unread (kind : BoxKind) (g : Frame) (e : Error) {rest rest' : Course}
    (hrest : Inserted f rest rest') : Inserted f (.unread kind g e rest) (.unread kind g e rest')
  | read (kind : BoxKind) (g : Frame) (data : NodeData) (inner : Course) {rest rest' : Course}
    (hrest : Inserted f rest rest') :
    Inserted f (.read kind g data inner rest) (.read kind g data inner rest')

variable {f : Frame} {c c' : Course}

/-! ### What the courses leave -/

namespace Inserted

theorem fault (h : Inserted f c c') : Option.Rel (Error.Shifted f.size) c.fault? c'.fault? := by
  induction h with
  | here h => exact h.fault
  | stopped e => exact Error.Shifted.rel_refl _
  | unknown g _ ih | unread kind g e _ ih | read kind g data inner _ ih => exact ih

theorem nodes (h : Inserted f c c') : Spliced (Node.Shifted f.size) [] c.nodes c'.nodes := by
  induction h with
  | here h => exact .of_forall₂ h.nodes
  | stopped e => exact .of_forall₂ .nil
  | unknown g _ ih | unread kind g e _ ih => exact ih
  | read kind g data inner _ ih =>
    rw [Course.nodes, Course.nodes]
    split
    · exact ih.append [_]
    · exact ih

/-- A walk that comes to its end warns of the box. -/
theorem warnings (h : Inserted f c c') (hends : c.fault? = none) :
    Spliced (ParseWarning.Shifted f.size) [unknownWarning f] c.warnings c'.warnings := by
  induction h with
  | here h => exact .of_forall₂ h.warnings
  | stopped e => cases hends
  | unknown g _ ih => exact (ih hends).append [_]
  | unread kind g e _ ih => exact (ih hends).append _
  | read kind g data inner _ ih => exact ((ih hends).append _).append _

theorem started (h : Inserted f c c') : c'.started = c.started := by
  induction h with
  | here h => exact h.started
  | stopped e => rfl
  | unknown g _ ih | unread kind g e _ ih => exact ih
  | read kind g data inner _ ih => rw [Course.started, Course.started, ih]

theorem fill (h : Inserted f c c') : c'.fill = c.fill := by
  induction h with
  | here h => exact h.fill
  | stopped e => rfl
  | unknown g _ ih | unread kind g e _ ih => exact ih
  | read kind g data inner _ ih =>
    funext d
    rw [Course.fill, Course.fill, ih]

theorem drafts (h : Inserted f c c') (number : Nat) : c'.drafts number = c.drafts number := by
  induction h generalizing number with
  | here h => exact h.drafts number
  | stopped e => rfl
  | unknown g _ ih | unread kind g e _ ih => exact ih number
  | read kind g data inner _ ih => rw [Course.drafts, Course.drafts, ih]

end Inserted

/-! ### Putting the box in -/

theorem inserted_andThen (kind : BoxKind) (fault : Option Error) (h : Inserted f c c') :
    Inserted f (andThen kind fault c) (andThen kind fault c') := by
  cases fault with
  | none => exact h
  | some e =>
    unfold andThen
    dsimp only
    split
    · exact .stopped e
    · exact h

/-- Boxes before the new one are met as they are without it. -/
theorem inserted_ofFrames {met : BoxKind → Frame → Except Error (NodeData × Course)}
    {frames frames' : List Frame} {fault fault' : Option Error}
    (h : Inserted f (ofFrames .skip met frames fault) (ofFrames .skip met frames' fault'))
    (before : List Frame) :
    Inserted f (ofFrames .skip met (before ++ frames) fault)
      (ofFrames .skip met (before ++ frames') fault') := by
  induction before with
  | nil => exact h
  | cons g before ih =>
    rw [List.cons_append, List.cons_append]
    cases hkind : BoxKind.ofFourCc? g.type with
    | none =>
      rw [ofFrames_skip_unknown _ _ hkind, ofFrames_skip_unknown _ _ hkind]
      exact .unknown g ih
    | some kind =>
      cases hmet : met kind g with
      | error e =>
        rw [ofFrames_unread _ _ hkind hmet, ofFrames_unread _ _ hkind hmet]
        exact .unread kind g e (inserted_andThen kind (some e) ih)
      | ok read =>
        obtain ⟨data, inner⟩ := read
        rw [ofFrames_read _ _ hkind hmet, ofFrames_read _ _ hkind hmet]
        exact .read kind g data inner (inserted_andThen kind inner.fault? ih)

theorem inserted_ofBytes {pre : List WrittenBox} (hpre : ∀ b ∈ pre, b.Fits ∧ b.form ≠ .toEnd)
    {box : WrittenBox} (hfits : box.Fits) {scope : Scope} {rest : List UInt8}
    (hplace : box.MayPrecede scope rest) (hunknown : BoxKind.ofFourCc? box.type = none)
    (levels : Nat) (inTrack : Bool) (offset : Nat) :
    Inserted (box.frame (offset + (WrittenBox.allBytes pre).length))
      (ofBytes .skip (meet .skip levels inTrack) scope offset (WrittenBox.allBytes pre ++ rest))
      (ofBytes .skip (meet .skip levels inTrack) scope offset
        (WrittenBox.allBytes pre ++ (box.bytes ++ rest))) := by
  unfold ofBytes
  simp only [Frame.all_written hpre, Frame.all_of_next (Frame.next?_written hfits hplace _)]
  refine inserted_ofFrames ?_ _
  rw [ofFrames_skip_unknown _ _ hunknown]
  exact .here (shifted_ofBytes .skip levels inTrack scope _ box.size rest)

end Course

/-- What a walk returns and gathers without a box of an unknown kind, and with such a box in a place,
if so much was gathered before. -/
structure PassedOver (place : Nat) (box : WrittenBox) (g : Gathered)
    (without within : Except Error (List Node) × Gathered) : Prop where
  /-- Both walks end at the same fault, or find the same boxes. -/
  ending : SameEnd (Error.Shifted box.size) (Spliced (Node.Shifted box.size) []) without.1 within.1
  draft : within.2.draft = without.2.draft
  finished : within.2.finished = without.2.finished
  nextNumber : within.2.nextNumber = without.2.nextNumber
  /-- A walk that comes to its end warns of the box, and otherwise of the same as without it. -/
  warnings : ∀ children, without.1 = .ok children → ∃ warnings warnings',
    without.2.warnings = warnings.reverse ++ g.warnings ∧
    within.2.warnings = warnings'.reverse ++ g.warnings ∧
    Spliced (ParseWarning.Shifted box.size) [unknownWarning (box.frame place)] warnings warnings'

theorem Course.Inserted.outcome {f : Frame} {c c' : Course} (h : Inserted f c c') :
    SameEnd (Error.Shifted f.size) (Spliced (Node.Shifted f.size) []) c.outcome c'.outcome := by
  have hfault := h.fault
  unfold Course.outcome
  generalize c.fault? = fault at hfault
  generalize c'.fault? = fault' at hfault
  cases hfault with
  | none => exact .ok h.nodes
  | some herror => exact .error herror

/-- **A box of an unknown kind is passed over.**  Put before any of the boxes that are walked, or
behind the last of them if that has a size, it changes neither how the walk ends nor what is gathered
of tracks, and the boxes that are found are the same. -/
theorem inside_inserted {pre : List WrittenBox} (hpre : ∀ b ∈ pre, b.Fits ∧ b.form ≠ .toEnd)
    {box : WrittenBox} (hfits : box.Fits) {scope : Scope} {rest : List UInt8}
    (hplace : box.MayPrecede scope rest) (hunknown : BoxKind.ofFourCc? box.type = none)
    (levels offset : Nat) (g : Gathered) :
    PassedOver (offset + (WrittenBox.allBytes pre).length) box g
      ((inside .skip (visit .skip levels) scope offset
        (WrittenBox.allBytes pre ++ rest)).result g)
      ((inside .skip (visit .skip levels) scope offset
        (WrittenBox.allBytes pre ++ (box.bytes ++ rest))).result g) := by
  have hinserted := Course.inserted_ofBytes hpre hfits hplace hunknown levels g.draft.isSome offset
  let course := Course.ofBytes .skip (Course.meet .skip levels g.draft.isSome) scope offset
  have hwalk (bytes : List UInt8) :
      (inside .skip (visit .skip levels) scope offset bytes).result g =
        ((course bytes).outcome, (course bytes).leave g) :=
    result_inside (follows_visit .skip levels g.draft.isSome) scope offset bytes rfl
  rw [hwalk, hwalk]
  refine ⟨hinserted.outcome, ?_, ?_, ?_, fun children hends => ⟨_, _, rfl, rfl, ?_⟩⟩
  · rw [Course.leave, Course.leave, hinserted.fill]
  · rw [Course.leave, Course.leave, hinserted.drafts]
  · rw [Course.leave, Course.leave, hinserted.started]
  · exact hinserted.warnings ((Course.exists_outcome_eq_ok_iff _).1 ⟨children, hends⟩)

/-- User data without any bytes. -/
def emptyUserData : WrittenBox := ⟨.ofChars 'u' 'd' 't' 'a', .narrow, []⟩

/-- Three bytes behind a size of eight bytes. -/
def extraBox : WrittenBox := ⟨.ofChars 'z' 'z' 'z' 'z', .wide, [1, 2, 3]⟩

/-- An edit list that stands in no track, a byte of media data, and two bytes to fill up the end. -/
def strayEdits : List UInt8 :=
  WrittenBox.allBytes [⟨.ofChars 'e' 'l' 's' 't', .narrow, [0, 0, 0, 0, 0, 0, 0, 0]⟩,
    ⟨.ofChars 'm' 'd' 'a' 't', .narrow, [7]⟩] ++ [0, 0]

/-- Both walks keep the user data and the media data and drop the edit list, and the fault of which
they warn tells where it stands. -/
theorem extraBox_passedOver :
    ∃ without within : Except Error (List Node) × Gathered,
      (inside .skip (visit .skip 3) .nested 100
        (WrittenBox.allBytes [emptyUserData] ++ strayEdits)).result {} = without ∧
      (inside .skip (visit .skip 3) .nested 100
        (WrittenBox.allBytes [emptyUserData] ++ (extraBox.bytes ++ strayEdits))).result {} =
          within ∧
      PassedOver 108 extraBox {} without within ∧
      without.1.toOption.map (·.map fun n => (n.offset, n.data)) =
        some [(100, .userData), (124, .mediaData 132 1)] ∧
      within.1.toOption.map (·.map fun n => (n.offset, n.data)) =
        some [(100, .userData), (143, .mediaData 151 1)] ∧
      without.2.warnings.map (·.text) =
        ["'elst' @108: 解析失败, 已丢弃: 无效数据: 'elst' (偏移 108) 出现在 trak 之外"] ∧
      within.2.warnings.map (·.text) =
        ["'elst' @127: 解析失败, 已丢弃: 无效数据: 'elst' (偏移 127) 出现在 trak 之外",
          "'zzzz' @108: 未知 box, 跳过 19 字节"] := by
  have hpre : ∀ b ∈ [emptyUserData], b.Fits ∧ b.form ≠ .toEnd :=
    List.forall_mem_singleton.2 ⟨show 8 < 2 ^ 32 by decide, by decide⟩
  have hfits : extraBox.Fits := show 19 < 2 ^ 64 by decide
  have hplace : extraBox.MayPrecede .nested strayEdits := nofun
  have hpassed := inside_inserted hpre hfits hplace (by decide) 3 100 {}
  exact ⟨_, _, rfl, rfl, hpassed, by decide +kernel, by decide +kernel, by decide +kernel,
    by decide +kernel⟩

end Tree

end IsoMedia
