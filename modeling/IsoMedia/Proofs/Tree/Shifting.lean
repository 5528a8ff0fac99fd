import IsoMedia.Proofs.Box.Grammar
import IsoMedia.Proofs.Tree.Course
import Mathlib.Data.List.Forall2

/-!
# The same bytes at another place

A walk of bytes that stand `n` bytes further back in a file comes upon the same, `n` bytes further
back.  `Frame.shift` moves a box; errors, nodes and warnings tell another place (`Shifted`), and
nothing else of a course depends on the place: what is put into drafts and which tracks are finished
are the same.

* `Tree.Course.shifted_ofBytes` : the courses of a walk at two places are shifted.
-/

namespace IsoMedia

/-- The box `n` bytes further back. -/
def Frame.shift (n : Nat) (f : Frame) : Frame := { f with offset := f.offset + n }

/-- The errors are the same, but that a box of which they speak stands `n` bytes further back. -/
inductive Error.Shifted (n : Nat) : Error → Error → Prop
  | same (e : Error) : Shifted n e e
  | unknownBox (type : FourCc) (offset : Nat) :
    Shifted n (.invalidData (.unknownBox type offset)) (.invalidData (.unknownBox type (offset + n)))
  | outsideTrack (type : FourCc) (offset : Nat) :
    Shifted n (.invalidData (.outsideTrack type offset))
      (.invalidData (.outsideTrack type (offset + n)))
  | nestedTooDeep (type : FourCc) (offset levels : Nat) :
    Shifted n (.invalidData (.nestedTooDeep type offset levels))
      (.invalidData (.nestedTooDeep type (offset + n) levels))

/-- The payloads say the same, but that media data lie `n` bytes further back. -/
inductive NodeData.Shifted (n : Nat) : NodeData → NodeData → Prop
  | same (data : NodeData) : Shifted n data data
  | mediaData (offset length : Nat) :
    Shifted n (.mediaData offset length) (.mediaData (offset + n) length)

/-- The nodes are the same, but that they and those below them stand `n` bytes further back. -/
inductive Node.Shifted (n : Nat) : Node → Node → Prop
  | mk {type : FourCc} {offset size : Nat} {data data' : NodeData} {children children' : List Node}
    (hdata : NodeData.Shifted n data data')
    (hchildren : List.Forall₂ (Shifted n) children children') :
    Shifted n (.mk type offset size data children) (.mk type (offset + n) size data' children')

/-- The warnings are the same, but that the boxes which they are about stand `n` bytes further
back. -/
inductive ParseWarning.Shifted (n : Nat) : ParseWarning → ParseWarning → Prop
  | same (offset : Nat) (type : FourCc) (message : String) :
    Shifted n ⟨offset, type, message⟩ ⟨offset + n, type, message⟩
  | dropped (offset : Nat) (type : FourCc) {e shifted : Error} (h : Error.Shifted n e shifted) :
    Shifted n ⟨offset, type, s!"解析失败, 已丢弃: {e.message}"⟩
      ⟨offset + n, type, s!"解析失败, 已丢弃: {shifted.message}"⟩

/-- Both outcomes are failures with related errors, or both are related values. -/
inductive SameEnd {α : Type} (failed : Error → Error → Prop) (done : α → α → Prop) :
    Except Error α → Except Error α → Prop
  | error {e e' : Error} (h : failed e e') : SameEnd failed done (.error e) (.error e')
  | ok {a a' : α} (h : done a a') : SameEnd failed done (.ok a) (.ok a')

variable {n : Nat}

theorem SameEnd.refl {α : Type} {done : α → α → Prop} (h : ∀ a, done a a) (r : Except Error α) :
    SameEnd (Error.Shifted n) done r r := by
  cases r with
  | error e => exact .error (.same e)
  | ok a => exact .ok (h a)

theorem Error.Shifted.rel_refl (fault : Option Error) :
    Option.Rel (Error.Shifted n) fault fault := by
  cases fault with
  | none => exact .none
  | some e => exact .some (.same e)

theorem Frame.payloadOffset_shift (n : Nat) (f : Frame) :
    (f.shift n).payloadOffset = f.payloadOffset + n := Nat.add_right_comm _ _ _

theorem WrittenBox.frames_add (offset n : Nat) (boxes : List WrittenBox) :
    WrittenBox.frames (offset + n) boxes = (WrittenBox.frames offset boxes).map (Frame.shift n) := by
  induction boxes generalizing offset with
  | nil => rfl
  | cons b boxes ih =>
    rw [WrittenBox.frames, WrittenBox.frames, Nat.add_right_comm, ih]
    rfl

/-- The boxes that are cut out of bytes further back stand further back. -/
theorem Frame.all_add (scope : Scope) (offset n : Nat) (bs : List UInt8) :
    Frame.all scope (offset + n) bs =
      ((Frame.all scope offset bs).1.map (Frame.shift n), (Frame.all scope offset bs).2) := by
  obtain ⟨boxes, fault, hall⟩ := Frame.exists_all_eq scope offset bs
  rw [hall, hall, WrittenBox.frames_add]

/-! ### What a payload says -/

namespace Payload

/-- The payloads say the same, and as many bytes precede the first box inside. -/
def SaysSame (n : Nat) (said said' : NodeData × Nat) : Prop :=
  NodeData.Shifted n said.1 said'.1 ∧ said'.2 = said.2

theorem sameEnd_of_eq {said said' : Except Error (NodeData × Nat)} (h : said' = said) :
    SameEnd (Error.Shifted n) (SaysSame n) said said' := by
  rw [h]
  exact .refl (fun a => ⟨.same a.1, rfl⟩) said

/-- What belongs to a track and stands in none is at fault where it stands. -/
theorem sameEnd_outsideTrack {α : Type} (x : Checked α) (f : Frame)
    (set : TrackDraft → α → Noted TrackDraft) (data : α → NodeData) :
    SameEnd (Error.Shifted n) (SaysSame n)
      ((x >>= fun a => forTrack f none a set (data a) : Checked Reading).result.map
        fun r => (r.data, r.inner))
      ((x >>= fun a => forTrack (f.shift n) none a set (data a) : Checked Reading).result.map
        fun r => (r.data, r.inner)) := by
  rw [Checked.result_bind, Checked.result_bind]
  cases x.result with
  | error e => exact .error (.same e)
  | ok a => exact .error (.outsideTrack f.type f.offset)

theorem sameEnd_tableOutside {α : Type} (parsed : Except Error α) (f : Frame)
    (entryCount : α → Nat) (set : TrackDraft → α → Noted TrackDraft) :
    SameEnd (Error.Shifted n) (SaysSame n)
      ((tableForTrack f none parsed entryCount set).result.map fun r => (r.data, r.inner))
      ((tableForTrack (f.shift n) none parsed entryCount set).result.map
        fun r => (r.data, r.inner)) := by
  cases parsed with
  | error e => exact .error (.same e)
  | ok a =>
    exact sameEnd_outsideTrack (.ofExcept (Decode.versionFlags.parse f.payload)) f
      (fun d _ => set d a) (fun full => .table full (entryCount a))

/-- Where a box stands decides only where its media data lie, or where it is at fault. -/
theorem tells_shift (kind : BoxKind) (f : Frame) (inTrack : Bool) :
    SameEnd (Error.Shifted n) (SaysSame n) (tells kind f inTrack)
      (tells kind (f.shift n) inTrack) := by
  cases kind with
  | mdat =>
    have hmoved : NodeData.Shifted n (.mediaData f.payloadOffset f.payload.length)
        (.mediaData (f.shift n).payloadOffset f.payload.length) := by
      rw [Frame.payloadOffset_shift]
      exact .mediaData _ _
    exact .ok ⟨hmoved, rfl⟩
  | tkhd | elst | mdhd =>
    cases inTrack with
    | true => exact sameEnd_of_eq rfl
    | false => exact sameEnd_outsideTrack (.ofExcept _) f _ _
  | stsd =>
    cases inTrack with
    | true => exact sameEnd_of_eq rfl
    | false => exact sameEnd_outsideTrack (SampleDescription.ofPayload f.payload) f _ _
  | stts | ctts | stsc | stsz | stz2 | stco | co64 | stss =>
    cases inTrack with
    | true => exact sameEnd_of_eq rfl
    | false => exact sameEnd_tableOutside _ f _ _
  | _ => exact sameEnd_of_eq rfl

end Payload

/-- Where a box stands does not matter to the draft that it is read into. -/
theorem TrackDraft.enter_shift (kind : BoxKind) (f : Frame) (n : Nat) :
    TrackDraft.enter kind (f.shift n) = TrackDraft.enter kind f := by
  cases kind <;> rfl

/-! ### Courses at two places -/

namespace Tree

/-- The courses come upon the same, but `n` bytes further back. -/
inductive Course.Shifted (n : Nat) : Course → Course → Prop
  | stop {fault fault' : Option Error} (h : Option.Rel (Error.Shifted n) fault fault') :
    Shifted n (.stop fault) (.stop fault')
  | unknown (f : Frame) {rest rest' : Course} (hrest : Shifted n rest rest') :
    Shifted n (.unknown f rest) (.unknown (f.shift n) rest')
  | unread (kind : BoxKind) (f : Frame) {e e' : Error} {rest rest' : Course}
    (herror : Error.Shifted n e e') (hrest : Shifted n rest rest') :
    Shifted n (.unread kind f e rest) (.unread kind (f.shift n) e' rest')
  | read (kind : BoxKind) (f : Frame) {data data' : NodeData} {inner inner' rest rest' : Course}
    (hdata : NodeData.Shifted n data data') (hinner : Shifted n inner inner')
    (hrest : Shifted n rest rest') :
    Shifted n (.read kind f data inner rest) (.read kind (f.shift n) data' inner' rest')

namespace Course

variable {policy : UnknownBoxPolicy} {c c' : Course}

namespace Shifted

theorem fault (h : c.Shifted n c') : Option.Rel (Error.Shifted n) c.fault? c'.fault? := by
  induction h with
  | stop h => exact h
  | unknown f _ ih | unread kind f _ _ ih | read kind f _ _ _ _ ih => exact ih

theorem isNone_fault (h : c.Shifted n c') : c'.fault?.isNone = c.fault?.isNone := by
  have hfault := h.fault
  generalize c.fault? = fault at hfault ⊢
  generalize c'.fault? = fault' at hfault ⊢
  cases hfault <;> rfl

theorem ends_iff (h : c.Shifted n c') : c'.fault? = none ↔ c.fault? = none := by
  rw [← Option.isNone_iff_eq_none, h.isNone_fault, Option.isNone_iff_eq_none]

theorem nodes (h : c.Shifted n c') : List.Forall₂ (Node.Shifted n) c.nodes c'.nodes := by
  induction h with
  | stop h => exact .nil
  | unknown f _ ih | unread kind f _ _ ih => exact ih
  | read kind f hdata hinner _ ihInner ihRest =>
    rw [Course.nodes, Course.nodes, hinner.isNone_fault]
    split
    · exact .cons (.mk hdata ihInner) ihRest
    · exact ihRest

theorem dropWarnings_shift (kind : BoxKind) (f : Frame) {fault fault' : Option Error}
    (h : Option.Rel (Error.Shifted n) fault fault') :
    List.Forall₂ (ParseWarning.Shifted n) (dropWarnings kind f fault)
      (dropWarnings kind (f.shift n) fault') := by
  cases h with
  | none => exact .nil
  | some herror =>
    unfold dropWarnings
    dsimp only
    split
    · exact .nil
    · exact .cons (.dropped f.offset f.type herror) .nil

theorem warnings (h : c.Shifted n c') :
    List.Forall₂ (ParseWarning.Shifted n) c.warnings c'.warnings := by
  induction h with
  | stop h => exact .nil
  | unknown f _ ih => exact .cons (.same f.offset f.type _) ih
  | unread kind f herror _ ih => exact List.rel_append (dropWarnings_shift kind f (.some herror)) ih
  | read kind f _ hinner _ ihInner ihRest =>
    exact List.rel_append ihInner (List.rel_append (dropWarnings_shift kind f hinner.fault) ihRest)

theorem started (h : c.Shifted n c') : c'.started = c.started := by
  induction h with
  | stop h => rfl
  | unknown f _ ih | unread kind f _ _ ih => exact ih
  | read kind f _ _ _ ihInner ihRest => rw [Course.started, Course.started, ihInner, ihRest]

theorem fill (h : c.Shifted n c') : c'.fill = c.fill := by
  induction h with
  | stop h => rfl
  | unknown f _ ih | unread kind f _ _ ih => exact ih
  | read kind f _ _ _ ihInner ihRest =>
    funext d
    rw [Course.fill, Course.fill, ihInner, ihRest, TrackDraft.enter_shift]

theorem drafts (h : c.Shifted n c') (number : Nat) : c'.drafts number = c.drafts number := by
  induction h generalizing number with
  | stop h => rfl
  | unknown f _ ih | unread kind f _ _ ih => exact ih number
  | read kind f _ hinner _ ihInner ihRest =>
    rw [Course.drafts, Course.drafts, ihInner, ihRest, hinner.started, hinner.fill]
    simp only [hinner.ends_iff]

end Shifted

/-! ### A walk at two places -/

theorem shifted_andThen (kind : BoxKind) {fault fault' : Option Error} {rest rest' : Course}
    (hfault : Option.Rel (Error.Shifted n) fault fault') (hrest : rest.Shifted n rest') :
    (andThen kind fault rest).Shifted n (andThen kind fault' rest') := by
  cases hfault with
  | none => exact hrest
  | some herror =>
    unfold andThen
    dsimp only
    split
    · exact .stop (.some herror)
    · exact hrest

/-- Two boxes are met alike: what they say and the courses inside are shifted. -/
def MetShifted (n : Nat) :
    Except Error (NodeData × Course) → Except Error (NodeData × Course) → Prop :=
  SameEnd (Error.Shifted n) fun met met' =>
    NodeData.Shifted n met.1 met'.1 ∧ met.2.Shifted n met'.2

theorem shifted_ofFrames {met : BoxKind → Frame → Except Error (NodeData × Course)}
    (hmet : ∀ kind f, MetShifted n (met kind f) (met kind (f.shift n))) (frames : List Frame)
    (fault : Option Error) :
    (ofFrames policy met frames fault).Shifted n
      (ofFrames policy met (frames.map (Frame.shift n)) fault) := by
  induction frames with
  | nil => exact .stop (Error.Shifted.rel_refl fault)
  | cons f frames ih =>
    rw [List.map_cons]
    cases hkind : BoxKind.ofFourCc? f.type with
    | none =>
      have hkind' : BoxKind.ofFourCc? (f.shift n).type = none := hkind
      cases policy with
      | skip =>
        rw [ofFrames_skip_unknown _ _ hkind, ofFrames_skip_unknown _ _ hkind']
        exact .unknown f ih
      | fail =>
        rw [ofFrames_fail_unknown _ _ hkind, ofFrames_fail_unknown _ _ hkind']
        exact .stop (.some (.unknownBox f.type f.offset))
    | some kind =>
      have hkind' : BoxKind.ofFourCc? (f.shift n).type = some kind := hkind
      have hboth := hmet kind f
      generalize hx : met kind f = x at hboth
      generalize hy : met kind (f.shift n) = y at hboth
      cases hboth with
      | error herror =>
        rw [ofFrames_unread _ _ hkind hx, ofFrames_unread _ _ hkind' hy]
        exact .unread kind f herror (shifted_andThen kind (.some herror) ih)
      | ok h =>
        obtain ⟨hdata, hinner⟩ := h
        rw [ofFrames_read _ _ hkind hx, ofFrames_read _ _ hkind' hy]
        exact .read kind f hdata hinner (shifted_andThen kind hinner.fault ih)

theorem shifted_walk {met : BoxKind → Frame → Except Error (NodeData × Course)}
    (hmet : ∀ kind f, MetShifted n (met kind f) (met kind (f.shift n))) (scope : Scope)
    (offset : Nat) (bs : List UInt8) :
    (ofBytes policy met scope offset bs).Shifted n (ofBytes policy met scope (offset + n) bs) := by
  unfold ofBytes
  simp only [Frame.all_add]
  exact shifted_ofFrames hmet _ _

/-- A box further back is opened as the same bytes further back. -/
theorem opening_shift (inTrack : Bool) (kind : BoxKind) (f : Frame) :
    SameEnd (Error.Shifted n) (fun opened opened' =>
        NodeData.Shifted n opened.1 opened'.1 ∧
          opened'.2 = opened.2.map fun interior => (interior.1 + n, interior.2))
      (opening inTrack kind f) (opening inTrack kind (f.shift n)) := by
  unfold opening
  rw [Frame.payloadOffset_shift]
  split
  · exact .ok ⟨.same _, rfl⟩
  · have hboth : SameEnd (Error.Shifted n) (Payload.SaysSame n) (Payload.tells kind f inTrack)
        (Payload.tells kind (f.shift n) inTrack) := Payload.tells_shift kind f inTrack
    generalize Payload.tells kind f inTrack = said at hboth
    generalize Payload.tells kind (f.shift n) inTrack = said' at hboth
    cases hboth with
    | error herror => exact .error herror
    | @ok said said' h =>
      obtain ⟨data, skipped⟩ := said
      obtain ⟨data', skipped'⟩ := said'
      obtain ⟨hdata, rfl⟩ := h
      dsimp only
      split
      · show SameEnd _ _ (if f.payload.length < _ then _ else _)
          (if f.payload.length < _ then _ else _)
        split
        · exact .error (.same _)
        · refine .ok ⟨hdata, ?_⟩
          rw [Nat.add_right_comm]
          rfl
      · exact .ok ⟨hdata, rfl⟩

/-- **Wherever a box stands, it is met alike.** -/
theorem metShifted_meet (policy : UnknownBoxPolicy) (levels : Nat) (inTrack : Bool) (kind : BoxKind)
    (f : Frame) :
    MetShifted n (meet policy levels inTrack kind f)
      (meet policy levels inTrack kind (f.shift n)) := by
  -- The boxes inside are one level down, and stand as much further back as the box does.
  induction levels generalizing inTrack kind f with
  | zero => exact .error (.nestedTooDeep f.type f.offset maxDepth)
  | succ levels ih =>
    have hboth := opening_shift (n := n) inTrack kind f
    rw [meet, meet]
    generalize opening inTrack kind f = opened at hboth
    generalize opening inTrack kind (f.shift n) = opened' at hboth
    cases hboth with
    | error herror => exact .error herror
    | @ok opened opened' h =>
      obtain ⟨data, interior⟩ := opened
      obtain ⟨data', interior'⟩ := opened'
      obtain ⟨hdata, rfl⟩ := h
      refine .ok ⟨hdata, ?_⟩
      cases interior with
      | none => exact .stop .none
      | some interior => exact shifted_walk (fun kind f => ih _ kind f) .nested _ _

/-- **A walk of the same bytes at another place has the same course there.** -/
theorem shifted_ofBytes (policy : UnknownBoxPolicy) (levels : Nat) (inTrack : Bool) (scope : Scope)
    (offset n : Nat) (bs : List UInt8) :
    (ofBytes policy (meet policy levels inTrack) scope offset bs).Shifted n
      (ofBytes policy (meet policy levels inTrack) scope (offset + n) bs) :=
  shifted_walk (fun kind f => metShifted_meet policy levels inTrack kind f) scope offset bs

end Course

end Tree

end IsoMedia
