import IsoMedia.Proofs.Box.Frames
import IsoMedia.Proofs.Journal
import IsoMedia.Tree.Walk

/-!
# Walks that succeed

`Walk.result` runs a walk from what was gathered before.  `Walked` says that written boxes are
walked without a fault and what is gathered then; there is one law for each kind of box: a box that
holds no others (`walked_leaf`), a container (`walked_container`), a track (`walked_track`).
-/

namespace IsoMedia.Tree

/-- The outcome of a walk, and what was gathered then. -/
def Walk.result {α : Type} (x : Walk α) (g : Gathered) : Except Error α × Gathered :=
  (x.run.run g).value

namespace Walk

variable {α β : Type}

/-- The walk succeeds, whatever it returns, and leaves `g'` behind. -/
def Leaves (x : Walk α) (g g' : Gathered) : Prop := ∃ a, x.result g = (.ok a, g')

@[simp] theorem result_pure (a : α) (g : Gathered) : (pure a : Walk α).result g = (.ok a, g) := rfl

@[simp] theorem result_lift (x : Checked α) (g : Gathered) :
    (lift x).result g = (x.result, g) := rfl

@[simp] theorem result_get (g : Gathered) : (get : Walk Gathered).result g = (.ok g, g) := rfl

@[simp] theorem result_modify (f : Gathered → Gathered) (g : Gathered) :
    (modify f : Walk Unit).result g = (.ok (), f g) := rfl

theorem result_attempt (x : Walk α) (g : Gathered) :
    (attempt x).result g = (.ok (x.result g).1, (x.result g).2) := rfl

theorem result_bind (x : Walk α) (f : α → Walk β) (g : Gathered) :
    (x >>= f).result g =
      match x.result g with
      | (.ok a, g') => (f a).result g'
      | (.error e, g') => (.error e, g') := by
  show Noted.value (x.run.run g >>= fun r => (ExceptT.bindCont f r.1).run r.2) = _
  rw [Noted.value_bind]
  unfold result
  rcases (x.run.run g).value with ⟨e | a, g'⟩ <;> rfl

theorem leaves_bind {x : Walk α} {f : α → Walk β} {a : α} {g g' g'' : Gathered}
    (h : x.result g = (.ok a, g')) (hf : (f a).Leaves g' g'') : (x >>= f).Leaves g g'' := by
  obtain ⟨b, hb⟩ := hf
  exact ⟨b, by rw [result_bind, h]; exact hb⟩

theorem leaves_pure (a : α) (g : Gathered) : (pure a : Walk α).Leaves g g := ⟨a, rfl⟩

theorem Leaves.attempt {x : Walk α} {g g' : Gathered} (h : x.Leaves g g') :
    ∃ a, (attempt x).result g = (.ok (.ok a), g') := by
  obtain ⟨a, ha⟩ := h
  exact ⟨a, by rw [result_attempt, ha]⟩

end Walk

variable {policy : UnknownBoxPolicy} {g g' g'' : Gathered}

theorem siblings_cons {visit : BoxKind → Frame → Walk Node} {f : Frame} {frames : List Frame}
    {kind : BoxKind} (hkind : BoxKind.ofFourCc? f.type = some kind)
    (hvisit : (visit kind f).Leaves g g')
    (hrest : (siblings policy visit frames none).Leaves g' g'') :
    (siblings policy visit (f :: frames) none).Leaves g g'' := by
  obtain ⟨node, hnode⟩ := hvisit.attempt
  obtain ⟨nodes, hnodes⟩ := hrest
  unfold siblings
  rw [hkind]
  dsimp only
  exact Walk.leaves_bind hnode (Walk.leaves_bind hnodes (Walk.leaves_pure _ _))

/-- A box that holds no others only changes the draft. -/
theorem visit_leaf {levels : Nat} {kind : BoxKind} {f : Frame} {reading : Payload.Reading}
    (hne : kind ≠ .trak) (hleaf : kind.isContainer = false)
    (hread : (Payload.interpret kind f g.draft).result = .ok reading) :
    (visit policy (levels + 1) kind f).Leaves g { g with draft := reading.draft } := by
  rw [visit, if_neg hne]
  refine Walk.leaves_bind (Walk.result_get g) ?_
  refine Walk.leaves_bind (by rw [Walk.result_lift, hread]) ?_
  refine Walk.leaves_bind (Walk.result_modify _ g) ?_
  rw [if_neg (by rw [hleaf]; decide)]
  exact Walk.leaves_pure _ _

/-- A container that says nothing itself is what the boxes in it are. -/
theorem visit_container {levels : Nat} {kind : BoxKind} {f : Frame} (hne : kind ≠ .trak)
    (hcontainer : kind.isContainer = true)
    (hread : (Payload.interpret kind f g.draft).result = .ok ⟨.container, g.draft, 0⟩)
    (hinside : (inside policy (visit policy levels) .nested f.payloadOffset f.payload).Leaves
      g g') :
    (visit policy (levels + 1) kind f).Leaves g g' := by
  obtain ⟨nodes, hnodes⟩ := hinside
  rw [visit, if_neg hne]
  refine Walk.leaves_bind (Walk.result_get g) ?_
  refine Walk.leaves_bind (by rw [Walk.result_lift, hread]) ?_
  refine Walk.leaves_bind (Walk.result_modify _ g) ?_
  rw [if_pos hcontainer]
  dsimp only
  rw [if_neg (Nat.not_lt_zero _)]
  exact Walk.leaves_bind hnodes (Walk.leaves_pure _ _)

/-- A track adds the draft that the boxes in it have filled. -/
theorem visit_track {levels : Nat} {f : Frame}
    (hinside : (inside policy (visit policy levels) .nested f.payloadOffset f.payload).Leaves
      { g with draft := some { number := g.nextNumber }, nextNumber := g.nextNumber + 1 } g') :
    (visit policy (levels + 1) .trak f).Leaves g
      { g' with finished := g'.finished ++ g'.draft.toArray, draft := g.draft } := by
  obtain ⟨nodes, hnodes⟩ := hinside.attempt
  have hstart : (startTrack f).result g = (.ok g.draft,
      { g with draft := some { number := g.nextNumber }, nextNumber := g.nextNumber + 1 }) := rfl
  have hleave : (leaveTrack g.draft).result g' = (.ok g'.draft, { g' with draft := g.draft }) := rfl
  rw [visit, if_pos rfl]
  refine Walk.leaves_bind hstart ?_
  refine Walk.leaves_bind hnodes ?_
  refine Walk.leaves_bind hleave ?_
  refine Walk.leaves_bind (Walk.result_pure nodes _) ?_
  refine Walk.leaves_bind (Walk.result_modify _ _) ?_
  exact Walk.leaves_pure _ _

/-! ### Written boxes -/

/-- Boxes are walked without a fault, wherever they stand. -/
def Walked (policy : UnknownBoxPolicy) (levels : Nat) (boxes : List Box) (g g' : Gathered) : Prop :=
  ∀ offset, (siblings policy (visit policy levels) (Box.frames offset boxes) none).Leaves g g'

/-- The payload of a box that holds no others is read, and changes the draft to `draft'`. -/
structure Enters (b : Box) (kind : BoxKind) (draft draft' : Option TrackDraft) : Prop where
  kind_eq : BoxKind.ofFourCc? b.type = some kind
  not_track : kind ≠ .trak
  not_container : kind.isContainer = false
  reads : ∀ offset, ∃ reading,
    (Payload.interpret kind (b.frame offset) draft).result = .ok reading ∧ reading.draft = draft'

variable {levels : Nat} {boxes inner : List Box} {kind : BoxKind}

theorem walked_nil : Walked policy levels [] g g := fun _ => by
  rw [Box.frames, siblings]
  exact Walk.leaves_pure _ _

theorem walked_leaf {b : Box} {draft' : Option TrackDraft} (h : Enters b kind g.draft draft')
    (hrest : Walked policy (levels + 1) boxes { g with draft := draft' } g') :
    Walked policy (levels + 1) (b :: boxes) g g' := by
  intro offset
  obtain ⟨reading, hread, rfl⟩ := h.reads offset
  exact siblings_cons h.kind_eq (visit_leaf h.not_track h.not_container hread) (hrest _)

theorem inside_bytes {type : FourCc} (hfits : (Box.container type inner).Fits)
    (hinner : Walked policy levels inner g g') (offset : Nat) :
    (inside policy (visit policy levels) .nested offset (Box.allBytes inner)).Leaves g g' := by
  unfold inside
  rw [Frame.all_bytes fun b hb => Box.fits_of_mem hb hfits]
  exact hinner offset

theorem walked_container {type : FourCc} (hkind : BoxKind.ofFourCc? type = some kind)
    (hne : kind ≠ .trak) (hcontainer : kind.isContainer = true)
    (hread : ∀ f draft, (Payload.interpret kind f draft).result = .ok ⟨.container, draft, 0⟩)
    (hfits : (Box.container type inner).Fits) (hinner : Walked policy levels inner g g')
    (hrest : Walked policy (levels + 1) boxes g' g'') :
    Walked policy (levels + 1) (Box.container type inner :: boxes) g g'' := by
  intro offset
  exact siblings_cons hkind
    (visit_container hne hcontainer (hread _ _) (inside_bytes hfits hinner _)) (hrest _)

theorem walked_track {type : FourCc} (hkind : BoxKind.ofFourCc? type = some .trak)
    (hfits : (Box.container type inner).Fits)
    (hinner : Walked policy levels inner
      { g with draft := some { number := g.nextNumber }, nextNumber := g.nextNumber + 1 } g')
    (hrest : Walked policy (levels + 1) boxes
      { g' with finished := g'.finished ++ g'.draft.toArray, draft := g.draft } g'') :
    Walked policy (levels + 1) (Box.container type inner :: boxes) g g'' := by
  intro offset
  exact siblings_cons hkind (visit_track (inside_bytes hfits hinner _)) (hrest _)

/-- A file of written boxes is walked to its end. -/
theorem build_eq_ok (hfits : ∀ b ∈ boxes, b.Fits)
    (h : Walked policy maxDepth boxes {} g) :
    ∃ children, (build policy (Box.allBytes boxes)).result =
      .ok ⟨Node.root (Box.allBytes boxes).length children, g.finished,
        g.warnings.reverse.toArray⟩ := by
  obtain ⟨children, hchildren⟩ := h 0
  refine ⟨children, ?_⟩
  have hinside :
      (inside policy (visit policy maxDepth) .topLevel 0 (Box.allBytes boxes)).result {} =
        (.ok children, g) := by
    unfold inside
    rw [Frame.all_bytes hfits]
    exact hchildren
  unfold Walk.result at hinside
  unfold build Checked.result
  rw [ExceptT.run_mk, Noted.value_bind, hinside]
  rfl

end IsoMedia.Tree
