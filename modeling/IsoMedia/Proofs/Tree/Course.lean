import IsoMedia.Proofs.Tree.Payloads
import IsoMedia.Proofs.Tree.Runs

/-!
# The course of a walk

A `Course` tells what a walk of boxes that follow one another comes upon: which boxes it passes
over, which it cannot read, and which it reads, each with the course of the walk inside.  It depends
on the bytes and the policy alone, and everything that the walk returns and gathers can be read off
it: the nodes, the warnings, the drafts of finished tracks and what is put into the draft around it.

* `Tree.result_siblings` : a walk returns and gathers what its course says.
* `Tree.build_eq_ok_iff` : a file is walked to its end if its course has no fault.
-/

namespace IsoMedia.Tree

/-- What a walk of boxes that follow one another comes upon, box by box. -/
inductive Course where
  /-- The walk is over, at the end of the boxes or at a fault. -/
  | stop (fault : Option Error)
  /-- A box of an unknown kind, passed over. -/
  | unknown (f : Frame) (rest : Course)
  /-- A box whose payload cannot be read. -/
  | unread (kind : BoxKind) (f : Frame) (fault : Error) (rest : Course)
  /-- A box whose payload is read, with the course of the walk inside it, which is `stop none` if
  the kind holds no boxes.  The box is kept if that walk comes to its end. -/
  | read (kind : BoxKind) (f : Frame) (data : NodeData) (inner rest : Course)

/-- The warning about a box of an unknown kind. -/
def unknownWarning (f : Frame) : ParseWarning :=
  ⟨f.offset, f.type, s!"未知 box, 跳过 {f.size} 字节"⟩

/-- The warning about a box that is dropped because of a fault, if it may be dropped. -/
def dropWarnings (kind : BoxKind) (f : Frame) : Option Error → List ParseWarning
  | none => []
  | some e =>
    if kind.isCritical then [] else [⟨f.offset, f.type, s!"解析失败, 已丢弃: {e.message}"⟩]

/-- How many tracks a box of the kind starts. -/
def starts (kind : BoxKind) : Nat := if kind = .trak then 1 else 0

namespace Course

/-- The fault with which the walk ends, if it does not come to the end of the boxes. -/
def fault? : Course → Option Error
  | stop fault => fault
  | unknown _ rest | unread _ _ _ rest | read _ _ _ _ rest => rest.fault?

/-- The boxes that are kept. -/
def nodes : Course → List Node
  | stop _ => []
  | unknown _ rest | unread _ _ _ rest => rest.nodes
  | read _ f data inner rest =>
    if inner.fault?.isNone then .mk f.type f.offset f.size data inner.nodes :: rest.nodes
    else rest.nodes

/-- The warnings, the earliest first. -/
def warnings : Course → List ParseWarning
  | stop _ => []
  | unknown f rest => unknownWarning f :: rest.warnings
  | unread kind f e rest => dropWarnings kind f (some e) ++ rest.warnings
  | read kind f _ inner rest =>
    inner.warnings ++ (dropWarnings kind f inner.fault? ++ rest.warnings)

/-- How many tracks are started. -/
def started : Course → Nat
  | stop _ => 0
  | unknown _ rest | unread _ _ _ rest => rest.started
  | read kind _ _ inner rest => starts kind + inner.started + rest.started

/-- The draft around the boxes after what belongs to its track was put into it. -/
def fill : Course → TrackDraft → TrackDraft
  | stop _, d => d
  | unknown _ rest, d | unread _ _ _ rest, d => rest.fill d
  | read kind f _ inner rest, d =>
    rest.fill (if kind = .trak then d else inner.fill (d.enter kind f))

/-- The drafts of the tracks that are walked to their end, if so many were started before. -/
def drafts (number : Nat) : Course → List TrackDraft
  | stop _ => []
  | unknown _ rest | unread _ _ _ rest => rest.drafts number
  | read kind _ _ inner rest =>
    inner.drafts (number + starts kind) ++
      ((if kind = .trak ∧ inner.fault? = none then [inner.fill { number }] else []) ++
        rest.drafts (number + (starts kind + inner.started)))

/-- What the walk returns. -/
def outcome (c : Course) : Except Error (List Node) :=
  match c.fault? with
  | none => .ok c.nodes
  | some e => .error e

/-- What is gathered after the walk. -/
def leave (c : Course) (g : Gathered) : Gathered :=
  { warnings := c.warnings.reverse ++ g.warnings
    finished := g.finished ++ (c.drafts g.nextNumber).toArray
    nextNumber := g.nextNumber + c.started
    draft := g.draft.map c.fill }

/-- The node of a box with the given course inside, if it is kept. -/
def boxOutcome (f : Frame) (data : NodeData) (inner : Course) : Except Error Node :=
  match inner.fault? with
  | none => .ok (.mk f.type f.offset f.size data inner.nodes)
  | some e => .error e

/-- What is gathered after a box with the given course inside was walked. -/
def leaveBox (kind : BoxKind) (f : Frame) (inner : Course) (g : Gathered) : Gathered :=
  { warnings := inner.warnings.reverse ++ g.warnings
    finished := g.finished ++ (inner.drafts (g.nextNumber + starts kind) ++
      if kind = .trak ∧ inner.fault? = none then [inner.fill { number := g.nextNumber }]
      else []).toArray
    nextNumber := g.nextNumber + (starts kind + inner.started)
    draft := g.draft.map fun d => if kind = .trak then d else inner.fill (d.enter kind f) }

/-- The course goes on behind a box that failed or not, unless a critical box failed. -/
def andThen (kind : BoxKind) (fault : Option Error) (rest : Course) : Course :=
  match fault with
  | none => rest
  | some e => if kind.isCritical then .stop (some e) else rest

/-- The course of a walk of boxes that were cut out, and of the fault that ended the cutting. -/
def ofFrames (policy : UnknownBoxPolicy)
    (meet : BoxKind → Frame → Except Error (NodeData × Course)) :
    List Frame → Option Error → Course
  | [], fault => .stop fault
  | f :: frames, fault =>
    match BoxKind.ofFourCc? f.type with
    | none =>
      match policy with
      | .skip => .unknown f (ofFrames policy meet frames fault)
      | .fail => .stop (some (.invalidData (.unknownBox f.type f.offset)))
    | some kind =>
      match meet kind f with
      | .error e => .unread kind f e (andThen kind (some e) (ofFrames policy meet frames fault))
      | .ok (data, inner) =>
        .read kind f data inner (andThen kind inner.fault? (ofFrames policy meet frames fault))

/-- The course of a walk of the boxes inside `bytes`. -/
def ofBytes (policy : UnknownBoxPolicy) (meet : BoxKind → Frame → Except Error (NodeData × Course))
    (scope : Scope) (offset : Nat) (bytes : List UInt8) : Course :=
  let r := Frame.all scope offset bytes
  ofFrames policy meet r.1 r.2

/-- What a box says, and where the boxes inside it start and which bytes they are, if its kind holds
any. -/
def opening (inTrack : Bool) (kind : BoxKind) (f : Frame) :
    Except Error (NodeData × Option (Nat × List UInt8)) :=
  if kind = .trak then .ok (.container, some (f.payloadOffset, f.payload))
  else
    match Payload.tells kind f inTrack with
    | .error e => .error e
    | .ok (data, skipped) =>
      if kind.isContainer then
        if f.payload.length < skipped then malformed (.payloadShort f.type)
        else .ok (data, some (f.payloadOffset + skipped, f.payload.drop skipped))
      else .ok (data, none)

/-- The course of the walk of the boxes inside a box, which is over at once if there are none. -/
def ofInterior (policy : UnknownBoxPolicy)
    (meet : BoxKind → Frame → Except Error (NodeData × Course)) : Option (Nat × List UInt8) → Course
  | none => .stop none
  | some (offset, bytes) => ofBytes policy meet .nested offset bytes

/-- What a walk makes of one box: why it cannot be read, or what it says and the course inside. -/
def meet (policy : UnknownBoxPolicy) :
    Nat → Bool → BoxKind → Frame → Except Error (NodeData × Course)
  | 0, _, _, f => malformed (.nestedTooDeep f.type f.offset maxDepth)
  | levels + 1, inTrack, kind, f =>
    (opening inTrack kind f).map fun (data, interior) =>
      (data, ofInterior policy (meet policy levels (inTrack || kind = .trak)) interior)

/-- The course of the walk of a whole file. -/
def ofFile (policy : UnknownBoxPolicy) (bytes : List UInt8) : Course :=
  ofBytes policy (meet policy maxDepth false) .topLevel 0 bytes

section OfFrames

variable {policy : UnknownBoxPolicy} {met : BoxKind → Frame → Except Error (NodeData × Course)}
  {f : Frame} {kind : BoxKind} (frames : List Frame) (fault : Option Error)

theorem ofFrames_skip_unknown (h : BoxKind.ofFourCc? f.type = none) :
    ofFrames .skip met (f :: frames) fault = .unknown f (ofFrames .skip met frames fault) := by
  rw [ofFrames.eq_def]
  simp only [h]

theorem ofFrames_fail_unknown (h : BoxKind.ofFourCc? f.type = none) :
    ofFrames .fail met (f :: frames) fault =
      .stop (some (.invalidData (.unknownBox f.type f.offset))) := by
  rw [ofFrames.eq_def]
  simp only [h]

theorem ofFrames_unread {e : Error} (h : BoxKind.ofFourCc? f.type = some kind)
    (hmet : met kind f = .error e) :
    ofFrames policy met (f :: frames) fault =
      .unread kind f e (andThen kind (some e) (ofFrames policy met frames fault)) := by
  rw [ofFrames.eq_def]
  simp only [h, hmet]

theorem ofFrames_read {data : NodeData} {inner : Course} (h : BoxKind.ofFourCc? f.type = some kind)
    (hmet : met kind f = .ok (data, inner)) :
    ofFrames policy met (f :: frames) fault =
      .read kind f data inner (andThen kind inner.fault? (ofFrames policy met frames fault)) := by
  rw [ofFrames.eq_def]
  simp only [h, hmet]

end OfFrames

section Meet

variable {policy : UnknownBoxPolicy} {levels : Nat} {inTrack : Bool} {kind : BoxKind} {f : Frame}
  {data : NodeData} {interior : Option (Nat × List UInt8)}

theorem opening_trak :
    opening inTrack .trak f = .ok (.container, some (f.payloadOffset, f.payload)) := if_pos rfl

/-- A box can be opened only if its payload can be read. -/
theorem tells_of_opening (h : opening inTrack kind f = .ok (data, interior)) (hne : kind ≠ .trak) :
    ∃ skipped, Payload.tells kind f inTrack = .ok (data, skipped) := by
  rw [opening, if_neg hne] at h
  split at h
  · cases h
  · rename_i data' skipped htells
    split at h
    · split at h
      · cases h
      · cases h
        exact ⟨skipped, htells⟩
    · cases h
      exact ⟨skipped, htells⟩

/-- Boxes are looked for in containers, and they fill the payload to its end. -/
theorem interior_of_opening (h : opening inTrack kind f = .ok (data, interior)) :
    interior.isSome = kind.isContainer ∧ ∀ offset bytes, interior = some (offset, bytes) →
      f.payloadOffset ≤ offset ∧ offset + bytes.length = f.payloadOffset + f.payload.length := by
  unfold opening at h
  split at h
  · rename_i htrack
    cases h
    rw [htrack]
    refine ⟨rfl, fun offset bytes h => ?_⟩
    cases h
    exact ⟨Nat.le_refl _, rfl⟩
  · split at h
    · cases h
    · split at h
      · split at h
        · cases h
        · rename_i hcontainer hlong
          cases h
          refine ⟨hcontainer.symm, fun offset bytes h => ?_⟩
          cases h
          rw [List.length_drop]
          omega
      · rename_i hleaf
        cases h
        exact ⟨(Bool.eq_false_iff.2 hleaf).symm, nofun⟩

/-- A critical container is opened as the boxes in its payload. -/
theorem opening_of_critical (hcontainer : kind.isContainer = true)
    (hcritical : kind.isCritical = true) :
    opening inTrack kind f = .ok (.container, some (f.payloadOffset, f.payload)) := by
  by_cases htrack : kind = .trak
  · rw [htrack, opening_trak]
  · rw [opening, if_neg htrack, Payload.tells_of_critical hcontainer hcritical]
    simp [hcontainer]

theorem meet_of_opening (h : opening inTrack kind f = .ok (data, interior)) :
    meet policy (levels + 1) inTrack kind f =
      .ok (data, ofInterior policy (meet policy levels (inTrack || kind = .trak)) interior) := by
  rw [meet, h]
  rfl

/-- A box that is met can be opened, and what is met inside is one level down. -/
theorem meet_eq_ok {inner : Course} (h : meet policy levels inTrack kind f = .ok (data, inner)) :
    ∃ below interior, levels = below + 1 ∧ opening inTrack kind f = .ok (data, interior) ∧
      inner = ofInterior policy (meet policy below (inTrack || kind = .trak)) interior := by
  cases levels with
  | zero => cases h
  | succ below =>
    rw [meet] at h
    cases hopening : opening inTrack kind f with
    | error e =>
      rw [hopening] at h
      cases h
    | ok opened =>
      rw [hopening] at h
      cases h
      exact ⟨below, opened.2, rfl, rfl, rfl⟩

end Meet

theorem exists_outcome_eq_ok_iff (c : Course) :
    (∃ nodes, c.outcome = .ok nodes) ↔ c.fault? = none := by
  unfold outcome
  cases c.fault? <;> simp

/-- Every draft was filled by the course of the walk inside its track. -/
theorem exists_fill_of_mem_drafts {c : Course} {number : Nat} {d : TrackDraft}
    (h : d ∈ c.drafts number) : ∃ (inner : Course) (number : Nat), d = inner.fill { number } := by
  induction c generalizing number with
  | stop fault => cases h
  | unknown f rest ih => exact ih h
  | unread kind f e rest ih => exact ih h
  | read kind f data inner rest ihInner ihRest =>
    rw [drafts] at h
    rcases List.mem_append.1 h with h | h
    · exact ihInner h
    · rcases List.mem_append.1 h with h | h
      · split at h
        · exact ⟨inner, number, List.mem_singleton.1 h⟩
        · cases h
      · exact ihRest h

end Course

/-! ### A walk and its course -/

open Course

namespace Walk

@[simp] theorem result_throw {α : Type} (e : Error) (g : Gathered) :
    (throw e : Walk α).result g = (.error e, g) := rfl

theorem result_warn (f : Frame) (message : String) (g : Gathered) :
    (warn f message).result g =
      (.ok (), { g with warnings := ⟨f.offset, f.type, message⟩ :: g.warnings }) := rfl

end Walk

variable {policy : UnknownBoxPolicy} {inTrack : Bool}

/-- A box is walked as its course says, inside a track or outside. -/
def Follows (visit : BoxKind → Frame → Walk Node)
    (meet : BoxKind → Frame → Except Error (NodeData × Course)) (inTrack : Bool) : Prop :=
  ∀ kind f (g : Gathered), g.draft.isSome = inTrack → (visit kind f).result g =
    match meet kind f with
    | .error e => (.error e, g)
    | .ok (data, inner) => (boxOutcome f data inner, leaveBox kind f inner g)

theorem leave_stop (fault : Option Error) (g : Gathered) : (stop fault).leave g = g := by
  obtain ⟨warnings, finished, nextNumber, draft⟩ := g
  simp [leave, Course.warnings, drafts, started, show fill (stop fault) = id from rfl]

theorem leave_unknown (f : Frame) (rest : Course) (g : Gathered) :
    (unknown f rest).leave g =
      rest.leave { g with warnings := unknownWarning f :: g.warnings } := by
  simp [leave, Course.warnings, drafts, started, show fill (unknown f rest) = fill rest from rfl]

theorem leave_unread (kind : BoxKind) (f : Frame) (e : Error) (rest : Course) (g : Gathered) :
    (unread kind f e rest).leave g =
      rest.leave { g with warnings := (dropWarnings kind f (some e)).reverse ++ g.warnings } := by
  simp [leave, Course.warnings, drafts, started,
    show fill (unread kind f e rest) = fill rest from rfl]

theorem leave_read (kind : BoxKind) (f : Frame) (data : NodeData) (inner rest : Course)
    (g : Gathered) :
    (read kind f data inner rest).leave g = rest.leave
      { leaveBox kind f inner g with
        warnings := (dropWarnings kind f inner.fault?).reverse ++
          (leaveBox kind f inner g).warnings } := by
  simp only [leave, leaveBox, Course.warnings, drafts, started]
  congr 1
  · simp
  · simp
  · omega
  · rw [Option.map_map]
    rfl

/-- A box that is no track leaves what its payload and the boxes inside leave. -/
theorem leaveBox_of_ne {kind : BoxKind} (h : kind ≠ .trak) (f : Frame) (inner : Course)
    (g : Gathered) :
    leaveBox kind f inner g =
      inner.leave { g with draft := g.draft.map (TrackDraft.enter kind f) } := by
  simp [leaveBox, leave, starts, h, Function.comp_def]

theorem isSome_leaveBox (kind : BoxKind) (f : Frame) (inner : Course) (g : Gathered) :
    (leaveBox kind f inner g).draft.isSome = g.draft.isSome := Option.isSome_map

/-- A box that failed is dropped, and the walk goes on, unless the box is critical. -/
theorem result_failed {kind : BoxKind} {f : Frame} {e : Error} {goOn : Walk (List Node)}
    {rest : Course} {g : Gathered}
    (h : ∀ {g' : Gathered}, g'.draft = g.draft → goOn.result g' = (rest.outcome, rest.leave g')) :
    Walk.result (if kind.isCritical then throw e
        else do
          Walk.warn f s!"解析失败, 已丢弃: {e.message}"
          goOn) g =
      ((andThen kind (some e) rest).outcome, (andThen kind (some e) rest).leave
        { g with warnings := (dropWarnings kind f (some e)).reverse ++ g.warnings }) := by
  unfold andThen dropWarnings
  dsimp only
  split
  · rw [leave_stop]
    rfl
  · rw [Walk.result_bind, Walk.result_warn]
    exact h rfl

/-- **A walk returns and gathers what its course says.** -/
theorem result_siblings {visit : BoxKind → Frame → Walk Node}
    {meet : BoxKind → Frame → Except Error (NodeData × Course)} (h : Follows visit meet inTrack)
    (frames : List Frame) (fault : Option Error) {g : Gathered} (hg : g.draft.isSome = inTrack) :
    (siblings policy visit frames fault).result g =
      ((ofFrames policy meet frames fault).outcome,
        (ofFrames policy meet frames fault).leave g) := by
  -- Of what is gathered only whether there is a draft decides how the next box is read, and no box
  -- changes that.
  induction frames generalizing g with
  | nil =>
    cases fault with
    | none => simp [siblings, ofFrames, outcome, fault?, Course.nodes, leave_stop]
    | some e => simp [siblings, ofFrames, outcome, fault?, leave_stop]
  | cons f frames ih =>
    unfold siblings ofFrames
    cases hkind : BoxKind.ofFourCc? f.type with
    | none =>
      cases policy with
      | skip =>
        dsimp only
        rw [Walk.result_bind, Walk.result_warn, leave_unknown]
        exact ih hg
      | fail => simp [outcome, fault?, leave_stop]
    | some kind =>
      dsimp only
      rw [Walk.result_bind, Walk.result_attempt, h kind f g hg]
      cases hmeet : meet kind f with
      | error e =>
        dsimp only
        rw [leave_unread]
        exact result_failed fun hdraft => ih (hdraft ▸ hg)
      | ok met =>
        obtain ⟨data, inner⟩ := met
        dsimp only
        rw [leave_read]
        have hg' : (leaveBox kind f inner g).draft.isSome = inTrack :=
          (isSome_leaveBox kind f inner g).trans hg
        unfold boxOutcome
        cases hinner : inner.fault? with
        | none =>
          dsimp only
          rw [Walk.result_bind, ih hg']
          unfold outcome
          cases hrest : (ofFrames policy meet frames fault).fault? with
          | none => simp [fault?, Course.nodes, andThen, hinner, hrest, dropWarnings]
          | some e => simp [fault?, andThen, hrest, dropWarnings]
        | some e =>
          dsimp only
          rw [result_failed fun hdraft => ih (hdraft ▸ hg')]
          unfold outcome
          simp [fault?, Course.nodes, hinner]

theorem result_inside {visit : BoxKind → Frame → Walk Node}
    {meet : BoxKind → Frame → Except Error (NodeData × Course)} (h : Follows visit meet inTrack)
    (scope : Scope) (offset : Nat) (bytes : List UInt8) {g : Gathered}
    (hg : g.draft.isSome = inTrack) :
    (inside policy visit scope offset bytes).result g =
      ((ofBytes policy meet scope offset bytes).outcome,
        (ofBytes policy meet scope offset bytes).leave g) :=
  result_siblings h _ _ hg

/-- A box is kept if the walk inside it comes to its end. -/
theorem result_box (f : Frame) (data : NodeData) {inner : Course} {walk : Walk (List Node)}
    {g g' : Gathered} (h : walk.result g = (inner.outcome, g')) :
    Walk.result (do
        let children ← walk
        return .mk f.type f.offset f.size data children) g =
      (boxOutcome f data inner, g') := by
  rw [Walk.result_bind, h]
  unfold outcome boxOutcome
  cases inner.fault? <;> rfl

theorem result_startTrack (f : Frame) (g : Gathered) :
    (startTrack f).result g = (.ok g.draft,
      { g with draft := some { number := g.nextNumber }, nextNumber := g.nextNumber + 1 }) := rfl

theorem result_leaveTrack (outer : Option TrackDraft) (g : Gathered) :
    (leaveTrack outer).result g = (.ok g.draft, { g with draft := outer }) := rfl

/-- A track is walked with a draft of its own, which is finished if the walk comes to its end. -/
theorem result_track {levels : Nat} (f : Frame) {inner : Course} {g : Gathered}
    (h : (inside policy (visit policy levels) .nested f.payloadOffset f.payload).result
      { g with draft := some { number := g.nextNumber }, nextNumber := g.nextNumber + 1 } =
        (inner.outcome, inner.leave
          { g with draft := some { number := g.nextNumber }, nextNumber := g.nextNumber + 1 })) :
    (visit policy (levels + 1) .trak f).result g =
      (boxOutcome f .container inner, leaveBox .trak f inner g) := by
  rw [visit, if_pos rfl, Walk.result_bind, result_startTrack]
  dsimp only
  rw [Walk.result_bind, Walk.result_attempt, h]
  dsimp only
  rw [Walk.result_bind, result_leaveTrack]
  dsimp only
  unfold outcome boxOutcome
  cases hfault : inner.fault? with
  | none =>
    simp [visit.liftExcept, Walk.result_bind, leave, leaveBox, starts, hfault, Nat.add_assoc]
  | some e =>
    simp [visit.liftExcept, Walk.result_bind, leave, leaveBox, starts, hfault, Nat.add_assoc]

/-- No container belongs to a track. -/
theorem isForTrack_of_container {kind : BoxKind} (h : kind.isContainer = true) :
    kind.isForTrack = false := by
  cases kind with
  | moov | trak | tref | trgr | edts | mdia | minf | dinf | dref | stbl => rfl
  | _ => cases h

/-- The draft stays as it is when a container is read. -/
theorem map_enter_of_container {kind : BoxKind} (h : kind.isContainer = true) (f : Frame)
    (draft : Option TrackDraft) : draft.map (TrackDraft.enter kind f) = draft := by
  rw [show TrackDraft.enter kind f = id from
    funext fun d => d.enter_eq_self (isForTrack_of_container h)]
  exact Option.map_id'

/-- **Every box is walked as its course says.** -/
theorem follows_visit (policy : UnknownBoxPolicy) (levels : Nat) (inTrack : Bool) :
    Follows (visit policy levels) (meet policy levels inTrack) inTrack := by
  induction levels generalizing inTrack with
  | zero => exact fun kind f g _ => Walk.result_throw _ g
  | succ levels ih =>
    intro kind f g hg
    rw [meet]
    -- Inside a track there is a draft, whether or not there is one around it.
    by_cases htrack : kind = .trak
    · subst htrack
      rw [opening_trak, decide_eq_true rfl, Bool.or_true]
      exact result_track f (result_inside (ih true) _ _ _ rfl)
    · rw [decide_eq_false htrack, Bool.or_false, opening, if_neg htrack, visit, if_neg htrack,
        Walk.result_bind, Walk.result_get]
      dsimp only
      rw [Walk.result_bind, Walk.result_lift, Payload.result_interpret, hg]
      cases htells : Payload.tells kind f inTrack with
      | error e => rfl
      | ok p =>
        obtain ⟨data, skipped⟩ := p
        dsimp only [Except.map]
        rw [Walk.result_bind, Walk.result_modify]
        dsimp only
        cases hcontainer : kind.isContainer with
        | false =>
          rw [if_neg Bool.false_ne_true, if_neg Bool.false_ne_true, Walk.result_pure]
          dsimp only [ofInterior]
          rw [leaveBox_of_ne htrack, leave_stop]
          rfl
        | true =>
          rw [if_pos rfl, if_pos rfl]
          split
          · rw [Walk.result_bind, Walk.result_throw, map_enter_of_container hcontainer]
          · dsimp only [ofInterior]
            rw [leaveBox_of_ne htrack]
            exact result_box f data (result_inside (ih inTrack) _ _ _ (Option.isSome_map.trans hg))

/-- **A file is walked to its end if its course has no fault**, and then the tree, the finished
drafts and the warnings are those of its course. -/
theorem build_eq_ok_iff {policy : UnknownBoxPolicy} {bytes : List UInt8} {parsed : Parsed} :
    (build policy bytes).result = .ok parsed ↔
      (ofFile policy bytes).fault? = none ∧
      parsed.root = Node.root bytes.length (ofFile policy bytes).nodes ∧
      parsed.drafts = ((ofFile policy bytes).drafts 0).toArray ∧
      parsed.warnings = (ofFile policy bytes).warnings.toArray := by
  have hwalk : (inside policy (visit policy maxDepth) .topLevel 0 bytes).result {} =
      ((ofFile policy bytes).outcome, (ofFile policy bytes).leave {}) :=
    result_inside (follows_visit policy maxDepth false) _ _ _ rfl
  have hbuild : (build policy bytes).result = (ofFile policy bytes).outcome.map fun children =>
      ⟨Node.root bytes.length children, ((ofFile policy bytes).drafts 0).toArray,
        (ofFile policy bytes).warnings.toArray⟩ := by
    unfold Walk.result at hwalk
    unfold build Checked.result
    rw [ExceptT.run_mk, Noted.value_bind, hwalk]
    simp [ofFile, leave]
  rw [hbuild]
  unfold outcome
  obtain ⟨root, drafts, warnings⟩ := parsed
  cases (ofFile policy bytes).fault? with
  | none => simp [Except.map, eq_comm]
  | some e => simp [Except.map]

end IsoMedia.Tree
