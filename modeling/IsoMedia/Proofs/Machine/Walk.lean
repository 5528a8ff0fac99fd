import IsoMedia.Proofs.Machine.Payloads
import IsoMedia.Proofs.Tree.Course

/-!
# Walking a file on a machine

The walk goes into a box only with room for one more walk on the stack, and counts the tracks it
starts in a word.  Every track that was started took at least one byte of the file, so there are
never more of them than bytes before the place where the walk is; `Walks` carries this bound along.

* `walks_walk` : a walk does not halt with room on the stack for the levels that may be below it.
-/

namespace IsoMedia.Machine

open IsoMedia.Tree (Gathered maxDepth)

variable {α β : Type}

/-- A step of a walk, which may halt. -/
abbrev Walk (α : Type) := ExceptT Error (StateT Gathered (Except Fault)) α

namespace Walk

/-- A computation that gathers nothing. -/
def lift (m : Machine α) : Walk α := ExceptT.mk (StateT.lift m.run)

/-- Run to the end and hand over the outcome instead of failing; a walk that halts stays halted. -/
def attempt (m : Walk α) : Walk (Except Error α) := ExceptT.lift m.run

def warn (f : Frame) (message : String) : Walk Unit :=
  modify fun g => { g with warnings := ⟨f.offset, f.type, message⟩ :: g.warnings }

end Walk

/-- Walk boxes that follow one another, up to the fault that ended their framing. -/
def siblings (policy : UnknownBoxPolicy) (visit : BoxKind → Frame → Walk Node) :
    List Frame → Option Error → Walk (List Node)
  | [], none => return []
  | [], some e => throw e
  | f :: frames, fault => do
    match BoxKind.ofFourCc? f.type with
    | none =>
      match policy with
      | .skip =>
        Walk.warn f s!"未知 box, 跳过 {f.size} 字节"
        siblings policy visit frames fault
      | .fail => throw (.invalidData (.unknownBox f.type f.offset))
    | some kind =>
      match ← Walk.attempt (visit kind f) with
      | .ok node => return node :: (← siblings policy visit frames fault)
      | .error e =>
        if kind.isCritical then throw e
        else
          Walk.warn f s!"解析失败, 已丢弃: {e.message}"
          siblings policy visit frames fault

/-- Count one more track. -/
def startTrack : Walk (Option TrackDraft) := do
  let g ← get
  let next ← Walk.lift (add 64 g.nextNumber 1)
  set { g with draft := some { number := g.nextNumber }, nextNumber := next }
  return g.draft

def leaveTrack (outer : Option TrackDraft) : Walk (Option TrackDraft) := do
  let g ← get
  set { g with draft := outer }
  return g.draft

def liftExcept : Except Error α → Walk α
  | .ok a => return a
  | .error e => throw e

/-- Walk one box of a known kind so many levels below the root; `within` walks the bytes inside it,
which start at a place of the file. -/
def visit (within : (depth offset : Nat) → List UInt8 → Walk (List Node)) (depth : Nat)
    (kind : BoxKind) (f : Frame) : Walk Node := do
  if maxDepth ≤ depth then throw (.invalidData (.nestedTooDeep f.type f.offset maxDepth))
  else if kind = .trak then
    let outer ← startTrack
    let start ← Walk.lift (payloadOffset f)
    let depth ← Walk.lift (add 64 depth 1)
    let outcome ← Walk.attempt (within depth start f.payload)
    let draft ← leaveTrack outer
    let children ← liftExcept outcome
    modify fun g => { g with finished := g.finished ++ draft.toArray }
    return .mk f.type f.offset f.size .container children
  else
    let reading ← Walk.lift (interpret kind f (← get).draft)
    modify fun g => { g with draft := reading.draft }
    if kind.isContainer then
      if f.payload.length < reading.inner then throw (.invalidData (.payloadShort f.type))
      let inner ← Walk.lift (slice f.payload reading.inner f.payload.length)
      let start ← Walk.lift (payloadOffset f)
      let start ← Walk.lift (add 64 start reading.inner)
      let depth ← Walk.lift (add 64 depth 1)
      let children ← within depth start inner
      return .mk f.type f.offset f.size reading.data children
    else return .mk f.type f.offset f.size reading.data []

/-- Walk the boxes of a run of bytes so many levels below the root, with room on the stack for so
many walks. -/
def walk (policy : UnknownBoxPolicy) :
    (room depth : Nat) → Scope → Nat → List UInt8 → Walk (List Node)
  | 0, _, _, _, _ => Walk.lift (halt .stackExhausted)
  | room + 1, depth, scope, offset, bytes => do
    let (frames, fault) ← Walk.lift (boxes scope offset bytes)
    siblings policy (visit (fun depth => walk policy room depth .nested) depth) frames fault

/-! ### Walking without a fault -/

/-- From a place `lo` of the file on, `m` walks as `w` does and does not halt, and at the place `hi`,
as at `lo`, no more tracks have been started than there are bytes before. -/
def Walks (m : Walk α) (w : Tree.Walk α) (lo hi : Nat) : Prop :=
  ∀ g : Gathered, g.nextNumber ≤ lo →
    m.run.run g = .ok (w.result g) ∧ (w.result g).2.nextNumber ≤ hi

namespace Walks

variable {lo mid hi : Nat}

protected theorem pure (a : α) (h : lo ≤ hi) : Walks (pure a) (pure a) lo hi :=
  fun _ hg => ⟨rfl, Nat.le_trans hg h⟩

protected theorem throw (e : Error) (h : lo ≤ hi) : Walks (throw e : Walk α) (throw e) lo hi :=
  fun _ hg => ⟨rfl, Nat.le_trans hg h⟩

theorem mono {m : Walk α} {w : Tree.Walk α} {lo' hi' : Nat} (h : Walks m w lo' hi')
    (hlo : lo ≤ lo') (hhi : hi' ≤ hi) : Walks m w lo hi := by
  intro g hg
  obtain ⟨hm, hbound⟩ := h g (Nat.le_trans hg hlo)
  exact ⟨hm, Nat.le_trans hbound hhi⟩

theorem bind_of {m : Walk α} {w : Tree.Walk α} {k : α → Walk β} {f : α → Tree.Walk β}
    (h : Walks m w lo mid) (hle : mid ≤ hi)
    (hk : ∀ a, (∃ g, (w.result g).1 = .ok a) → Walks (k a) (f a) mid hi) :
    Walks (m >>= k) (w >>= f) lo hi := by
  intro g hg
  obtain ⟨hm, hmid⟩ := h g hg
  have hrun : (m >>= k).run.run g =
      (m.run.run g >>= fun x => (ExceptT.bindCont k x.1).run x.2) := rfl
  rw [hrun, hm, Tree.Walk.result_bind]
  rcases hw : w.result g with ⟨e | a, g'⟩
  · rw [hw] at hmid
    exact ⟨rfl, Nat.le_trans hmid hle⟩
  · rw [hw] at hmid
    exact hk a ⟨g, by rw [hw]⟩ g' hmid

theorem bind {m : Walk α} {w : Tree.Walk α} {k : α → Walk β} {f : α → Tree.Walk β}
    (h : Walks m w lo mid) (hle : mid ≤ hi) (hk : ∀ a, Walks (k a) (f a) mid hi) :
    Walks (m >>= k) (w >>= f) lo hi :=
  h.bind_of hle fun a _ => hk a

/-- What would follow a failure has no bearing. -/
theorem throw_bind {k : α → Walk β} {f : α → Tree.Walk β} (e : Error) (h : lo ≤ hi) :
    Walks (throw e >>= k) (throw e >>= f) lo hi :=
  fun _ hg => ⟨rfl, Nat.le_trans hg h⟩

theorem ite {c : Prop} [Decidable c] {m m' : Walk α} {w w' : Tree.Walk α}
    (h : c → Walks m w lo hi) (h' : ¬ c → Walks m' w' lo hi) :
    Walks (if c then m else m') (if c then w else w') lo hi := by
  split
  · exact h ‹_›
  · exact h' ‹_›

theorem lift {m : Machine α} {x : Checked α} (h : Computes m x) :
    Walks (Walk.lift m) (Tree.Walk.lift x) lo lo := by
  intro g hg
  unfold Computes at h
  rw [h, Tree.Walk.result_lift]
  exact ⟨rfl, hg⟩

/-- A step of the machine that does not halt has no bearing on the walk. -/
protected theorem step {m : Machine α} {a : α} {k : α → Walk β} {w : Tree.Walk β} (hm : m = pure a)
    (h : Walks (k a) w lo hi) : Walks (Walk.lift m >>= k) w lo hi := by
  rw [hm]
  exact h

theorem attempt {m : Walk α} {w : Tree.Walk α} (h : Walks m w lo hi) :
    Walks m.attempt w.attempt lo hi := by
  intro g hg
  obtain ⟨hm, hhi⟩ := h g hg
  have hrun : m.attempt.run.run g = (m.run.run g).map fun x => (.ok x.1, x.2) := by
    show (m.run.run g >>= fun x => pure (Except.ok x.1, x.2)) = _
    cases m.run.run g <;> rfl
  rw [hrun, hm, Tree.Walk.result_attempt]
  exact ⟨rfl, hhi⟩

theorem modify {f : Gathered → Gathered} (hf : ∀ g, (f g).nextNumber = g.nextNumber) :
    Walks (modify f) (modify f) lo lo :=
  fun g hg => ⟨rfl, by rw [Tree.Walk.result_modify, hf]; exact hg⟩

theorem warn (f : Frame) (message : String) :
    Walks (Walk.warn f message) (Tree.Walk.warn f message) lo lo :=
  fun _ hg => ⟨rfl, hg⟩

end Walks

variable {lo hi : Nat}

theorem walks_startTrack (f : Frame) (h : lo + 1 < 2 ^ 64) :
    Walks startTrack (Tree.startTrack f) lo (lo + 1) := by
  intro g hg
  have hadd : add 64 g.nextNumber 1 = pure (g.nextNumber + 1) := add_eq (by omega)
  have hrun : startTrack.run.run g = (Walk.lift (add 64 g.nextNumber 1) >>= fun next => do
      set { g with draft := some { number := g.nextNumber }, nextNumber := next }
      return g.draft : Walk (Option TrackDraft)).run.run g := rfl
  rw [hrun, hadd, Tree.result_startTrack]
  exact ⟨rfl, Nat.succ_le_succ hg⟩

theorem walks_get : Walks get get lo lo :=
  fun _ hg => ⟨rfl, hg⟩

theorem walks_leaveTrack (outer : Option TrackDraft) :
    Walks (leaveTrack outer) (Tree.leaveTrack outer) lo lo :=
  fun _ hg => ⟨rfl, hg⟩

theorem walks_liftExcept (outcome : Except Error α) :
    Walks (liftExcept outcome) (Tree.visit.liftExcept outcome) lo lo := by
  cases outcome with
  | ok a => exact .pure a (Nat.le_refl lo)
  | error e => exact .throw e (Nat.le_refl lo)

/-- Boxes that lie one behind the other are walked one after the other. -/
theorem walks_siblings {policy : UnknownBoxPolicy} {visit : BoxKind → Frame → Walk Node}
    {visit' : BoxKind → Frame → Tree.Walk Node} {frames : List Frame} {fault : Option Error}
    (hplaced : Frame.Placed lo hi frames)
    (hvisit : ∀ f ∈ frames, ∀ kind,
      Walks (visit kind f) (visit' kind f) f.offset (f.offset + f.size)) :
    Walks (siblings policy visit frames fault) (Tree.siblings policy visit' frames fault) lo hi := by
  induction frames generalizing lo with
  | nil =>
    cases fault with
    | none => exact .pure [] hplaced
    | some e => exact .throw e hplaced
  | cons f frames ih =>
    obtain ⟨hstart, -, hrest⟩ := hplaced
    rw [List.forall_mem_cons] at hvisit
    have hle := hrest.le
    have hgoOn := ih hrest hvisit.2
    have hskip : Walks (siblings policy visit frames fault)
        (Tree.siblings policy visit' frames fault) lo hi := hgoOn.mono (by omega) (Nat.le_refl hi)
    unfold siblings Tree.siblings
    cases BoxKind.ofFourCc? f.type with
    | none =>
      cases policy with
      | skip => exact (Walks.warn f _).bind (by omega) fun _ => hskip
      | fail => exact .throw _ (by omega)
    | some kind =>
      refine ((hvisit.1 kind).attempt.mono hstart (Nat.le_refl _)).bind hle fun outcome => ?_
      cases outcome with
      | ok node => exact hgoOn.bind (Nat.le_refl hi) fun _ => .pure _ (Nat.le_refl hi)
      | error e =>
        exact .ite (fun _ => .throw _ hle) fun _ => (Walks.warn f _).bind hle fun _ => hgoOn

/-- Where there are so many levels left, `within` walks the bytes inside a box one level further below
the root. -/
def WalksWithin (policy : UnknownBoxPolicy) (levels depth : Nat)
    (within : (depth offset : Nat) → List UInt8 → Walk (List Node)) : Prop :=
  ∀ lower, levels = lower + 1 → ∀ offset bytes, Addressable bytes →
    offset + bytes.length < 2 ^ 64 →
      Walks (within (depth + 1) offset bytes)
        (Tree.inside policy (Tree.visit policy lower) .nested offset bytes) offset
        (offset + bytes.length)

/-- A box is walked, if the bytes inside it are. -/
theorem walks_visit {policy : UnknownBoxPolicy} {levels depth : Nat}
    {within : (depth offset : Nat) → List UInt8 → Walk (List Node)} {f : Frame}
    (hdepth : depth + levels = maxDepth) (hfilled : f.Filled) (hf : Addressable f.payload)
    (hend : f.offset + f.size < 2 ^ 64)
    (hwithin : WalksWithin policy levels depth within) (kind : BoxKind) :
    Walks (visit within depth kind f) (Tree.visit policy levels kind f) f.offset
      (f.offset + f.size) := by
  have hstart := hfilled.offset_lt
  have hpayload := hfilled.payload_end
  unfold visit Tree.visit
  cases levels with
  | zero =>
    rw [if_pos (by omega)]
    exact .throw _ (Nat.le_add_right _ _)
  | succ lower =>
    have hoffset : payloadOffset f = pure f.payloadOffset := add_eq (by
      show f.payloadOffset < _
      omega)
    have hnext : add 64 depth 1 = pure (depth + 1) := add_eq (by unfold maxDepth at hdepth; omega)
    rw [if_neg (by omega)]
    dsimp only
    refine .ite (fun _ => ?_) fun _ => ?_
    -- A track is counted on the first byte of its box, and the boxes inside start behind that byte.
    · refine (walks_startTrack f (by omega)).bind (by omega) fun outer =>
        .step hoffset (.step hnext ?_)
      refine ((hwithin lower rfl _ _ hf (by omega)).attempt.mono hstart (Nat.le_of_eq hpayload)).bind
        (Nat.le_refl _) fun outcome => ?_
      refine (walks_leaveTrack outer).bind (Nat.le_refl _) fun draft =>
        (walks_liftExcept outcome).bind (Nat.le_refl _) fun children => ?_
      exact (Walks.modify (by intro; rfl)).bind (Nat.le_refl _) fun _ => .pure _ (Nat.le_refl _)
    · have hle : f.offset ≤ f.offset + f.size := Nat.le_add_right _ _
      refine walks_get.bind hle fun g => (Walks.lift (computes_interpret kind hf (by omega))).bind hle
        fun reading => (Walks.modify (by intro; rfl)).bind hle fun _ => .ite (fun _ => ?_)
        fun _ => .pure _ hle
      refine .ite (fun _ => .throw_bind _ hle) fun hinner => ?_
      refine .step (slice_to_end (by omega)) <| .step hoffset <| .step (add_eq (by omega)) <|
        .step hnext ?_
      have hlength : (f.payload.drop reading.inner).length = f.payload.length - reading.inner :=
        List.length_drop
      have hinside := hwithin lower rfl (f.payloadOffset + reading.inner) _
        (hf.drop reading.inner) (by omega)
      exact (hinside.mono (by omega) (by omega)).bind (Nat.le_refl _)
        fun _ => .pure _ (Nat.le_refl _)

/-- The boxes of a run of bytes are walked one after the other, if the bytes inside each are. -/
theorem walks_boxes {policy : UnknownBoxPolicy} {levels depth offset : Nat} {scope : Scope}
    {within : (depth offset : Nat) → List UInt8 → Walk (List Node)} {bytes : List UInt8}
    (hdepth : depth + levels = maxDepth) (hbytes : Addressable bytes)
    (hend : offset + bytes.length < 2 ^ 64)
    (hwithin : WalksWithin policy levels depth within) :
    Walks (Walk.lift (boxes scope offset bytes) >>= fun x =>
        siblings policy (visit within depth) x.1 x.2)
      (Tree.inside policy (Tree.visit policy levels) scope offset bytes) offset
      (offset + bytes.length) := by
  have hplaced := Frame.placed_all scope offset bytes
  refine .step (boxes_eq hend) (walks_siblings hplaced fun f hf kind => ?_)
  obtain ⟨-, hfilled, hhi⟩ := placed_of_mem hplaced hf
  exact walks_visit hdepth hfilled (addressable_payload hbytes hf) (by omega) hwithin kind

/-- **A walk does not halt**, if there is room on the stack for one walk on every level that may be
below it. -/
theorem walks_walk (policy : UnknownBoxPolicy) {levels depth room : Nat} {scope : Scope}
    {offset : Nat} {bytes : List UInt8} (hdepth : depth + levels = maxDepth) (hroom : levels < room)
    (hbytes : Addressable bytes) (hend : offset + bytes.length < 2 ^ 64) :
    Walks (walk policy room depth scope offset bytes)
      (Tree.inside policy (Tree.visit policy levels) scope offset bytes) offset
      (offset + bytes.length) := by
  induction levels generalizing depth room scope offset bytes with
  | zero =>
    obtain ⟨room, rfl⟩ := Nat.exists_eq_add_of_lt hroom
    exact walks_boxes hdepth hbytes hend nofun
  | succ levels ih =>
    obtain ⟨room, rfl⟩ := Nat.exists_eq_add_of_lt hroom
    refine walks_boxes hdepth hbytes hend fun lower hlower offset bytes hbytes hend => ?_
    cases hlower
    exact ih (by omega) (by omega) hbytes hend

/-- Walk a whole file, with room on the stack for so many walks, that of the root among them. -/
def buildTree (room : Nat) (policy : UnknownBoxPolicy) (bytes : List UInt8) : Machine Tree.Parsed :=
  ExceptT.mk do
    let (outcome, g) ← (walk policy room 0 .topLevel 0 bytes).run.run {}
    return outcome.map fun children =>
      ⟨Node.root bytes.length children, g.finished, g.warnings.reverse.toArray⟩

/-- **A file is walked without a fault** with room for the walk of the root and one on each level
below it. -/
theorem computes_buildTree (policy : UnknownBoxPolicy) {room : Nat} (hroom : maxDepth < room)
    {bytes : List UInt8} (hbytes : Addressable bytes) :
    Computes (buildTree room policy bytes) (Tree.build policy bytes) := by
  have hwalks : Walks (walk policy room 0 .topLevel 0 bytes)
      (Tree.inside policy (Tree.visit policy maxDepth) .topLevel 0 bytes) 0 (0 + bytes.length) :=
    walks_walk policy (Nat.zero_add maxDepth) hroom hbytes hbytes.nested
  obtain ⟨hwalk, -⟩ := hwalks {} (Nat.le_refl 0)
  unfold Computes buildTree
  rw [hwalk]
  rfl

end IsoMedia.Machine
