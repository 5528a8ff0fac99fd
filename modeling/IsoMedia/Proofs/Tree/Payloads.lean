import IsoMedia.Proofs.Journal
import IsoMedia.Tree.Payload

/-!
# What a payload does to the draft of its track

Reading a payload does the same whatever the draft around it holds: whether it can be read, and what
it says, depends only on whether there is a draft, and the draft is changed in one way
(`Payload.result_interpret`).  `Payload.tells` is what is read, `TrackDraft.enter` the change; kinds
that do not belong to a track change nothing (`TrackDraft.enter_eq_self`).
-/

namespace IsoMedia

/-- Whether boxes of the kind are kept in the draft of the track in which they stand. -/
def BoxKind.isForTrack : BoxKind → Bool
  | .tkhd | .elst | .mdhd | .hdlr | .stsd | .stts | .ctts | .stsc | .stsz | .stz2 | .stco | .co64
  | .stss => true
  | _ => false

namespace Payload

/-- What a payload says, and how many bytes precede the first box inside, where there is a draft
around it or not. -/
def tells (kind : BoxKind) (f : Frame) (inTrack : Bool) : Except Error (NodeData × Nat) :=
  (interpret kind f (if inTrack then some { number := 0 } else none)).result.map fun r =>
    (r.data, r.inner)

end Payload

/-- The draft with another number. -/
def TrackDraft.withNumber (d : TrackDraft) (number : Nat) : TrackDraft := { d with number }

/-- The draft after the payload of a box was read into it. -/
def TrackDraft.enter (kind : BoxKind) (f : Frame) (d : TrackDraft) : TrackDraft :=
  match (Payload.interpret kind f (some d)).result with
  | .ok r => r.draft.getD d
  | .error _ => d

namespace Payload

variable {α : Type}

/-- A reading that says the same whatever the draft holds, and changes it by `set`. -/
def Changes (read : Option TrackDraft → Checked Reading) (set : TrackDraft → TrackDraft) : Prop :=
  ∃ outside inside : Except Error (NodeData × Nat),
    (read none).result = outside.map (fun p => ⟨p.1, none, p.2⟩) ∧
    ∀ d, (read (some d)).result = inside.map fun p => ⟨p.1, some (set d), p.2⟩

theorem changes_plain (parsed : Except Error NodeData) :
    Changes (fun draft => plain draft parsed) id := by
  refine ⟨parsed.map fun data => (data, 0), parsed.map fun data => (data, 0), ?_, fun d => ?_⟩
  · cases parsed <;> rfl
  · cases parsed <;> rfl

theorem changes_dataReferences (f : Frame) : Changes (interpret .dref f) id := by
  refine ⟨(dataReferences.parse f.payload).map fun data => (data, 8),
    (dataReferences.parse f.payload).map fun data => (data, 8), ?_, fun d => ?_⟩ <;>
    · unfold interpret
      rw [Checked.result_ofExcept]
      cases dataReferences.parse f.payload <;> rfl

theorem changes_forTrack (f : Frame) (value : α) (set : TrackDraft → α → Noted TrackDraft)
    (data : NodeData) :
    Changes (fun draft => forTrack f draft value set data) fun d => (set d value).value :=
  ⟨.error (.invalidData (.outsideTrack f.type f.offset)), .ok (data, 0), rfl, fun _ => rfl⟩

/-- Put a value into a draft, if there is one. -/
def put (set : TrackDraft → α → Noted TrackDraft) (parsed : Except Error α) (d : TrackDraft) :
    TrackDraft :=
  match parsed with
  | .ok a => (set d a).value
  | .error _ => d

theorem put_keeps {β : Type} {set : TrackDraft → α → Noted TrackDraft} {field : TrackDraft → β}
    (h : ∀ d a, field (set d a).value = field d) (parsed : Except Error α) (d : TrackDraft) :
    field (put set parsed d) = field d := by
  cases parsed with
  | ok a => exact h d a
  | error e => rfl

theorem Changes.bind {x : Checked α} {read : α → Option TrackDraft → Checked Reading}
    {set : TrackDraft → α → Noted TrackDraft}
    (h : ∀ a, Changes (read a) fun d => (set d a).value) :
    Changes (fun draft => x >>= fun a => read a draft) (put set x.result) := by
  cases hx : x.result with
  | error e =>
    refine ⟨.error e, .error e, ?_, fun d => ?_⟩ <;>
      · rw [Checked.result_bind, hx]
        rfl
  | ok a =>
    obtain ⟨outside, inside, hnone, hsome⟩ := h a
    refine ⟨outside, inside, ?_, fun d => ?_⟩
    · rw [Checked.result_bind, hx]
      exact hnone
    · rw [Checked.result_bind, hx]
      exact hsome d

theorem changes_bind_forTrack (f : Frame) (x : Checked α) (set : TrackDraft → α → Noted TrackDraft)
    (data : α → NodeData) :
    Changes (fun draft => x >>= fun a => forTrack f draft a set (data a)) (put set x.result) :=
  Changes.bind fun a => changes_forTrack f a set (data a)

theorem changes_tableForTrack (f : Frame) (parsed : Except Error α) (entryCount : α → Nat)
    (set : TrackDraft → α → Noted TrackDraft) :
    Changes (fun draft => tableForTrack f draft parsed entryCount set) (put set parsed) := by
  refine Changes.bind (x := Checked.ofExcept parsed) fun a => ?_
  cases hfull : Decode.versionFlags.parse f.payload with
  | error e => exact ⟨.error e, .error e, rfl, fun _ => rfl⟩
  | ok full => exact changes_forTrack f a set _

theorem changes_handler (f : Frame) :
    Changes (handler f) (put TrackDraft.setHandler (Handler.ofPayload f.payload)) :=
  Changes.bind (x := Checked.ofExcept (Handler.ofPayload f.payload)) fun h =>
    ⟨.ok (.handler h, 0), .ok (.handler h, 0), rfl, fun _ => rfl⟩

/-! ### Every kind -/

/-- What is true of the readings of every kind.  No reading looks at the number of a track, only that
of an edit list changes its edit list, and only those of kinds that belong to a track change
anything. -/
structure Regular (kind : BoxKind) (read : Option TrackDraft → Checked Reading)
    (set : TrackDraft → TrackDraft) : Prop where
  changes : Changes read set
  withNumber : ∀ d number, set (d.withNumber number) = (set d).withNumber number
  editList : kind ≠ .elst → ∀ d, (set d).editList = d.editList
  idle : kind.isForTrack = false → set = id

/-- No reading changes the number of a track. -/
theorem Regular.number {kind : BoxKind} {read : Option TrackDraft → Checked Reading}
    {set : TrackDraft → TrackDraft} (h : Regular kind read set) (d : TrackDraft) :
    (set d).number = d.number := by
  have hsame : set d = (set d).withNumber d.number := h.withNumber d d.number
  rw [hsame]
  rfl

theorem regular_plain {kind : BoxKind} {read : Option TrackDraft → Checked Reading}
    (h : Changes read id) : Regular kind read id :=
  ⟨h, fun _ _ => rfl, fun _ _ => rfl, fun _ => rfl⟩

/-- A reading that puts a value into the draft, whatever its number, and leaves the edit list alone. -/
theorem regular_put {kind : BoxKind} {read : Option TrackDraft → Checked Reading}
    {set : TrackDraft → α → Noted TrackDraft} {parsed : Except Error α}
    (h : Changes read (put set parsed)) (hkind : kind.isForTrack = true)
    (hnumber : ∀ d a number, (set (d.withNumber number) a).value =
      (set d a).value.withNumber number)
    (hedits : kind ≠ .elst → ∀ d a, (set d a).value.editList = d.editList) :
    Regular kind read (put set parsed) := by
  refine ⟨h, fun d number => ?_, fun hne => put_keeps (hedits hne) parsed,
    fun hidle => absurd hkind (by rw [hidle]; decide)⟩
  cases parsed with
  | ok a => exact hnumber d a number
  | error e => rfl

theorem exists_regular (kind : BoxKind) (f : Frame) :
    ∃ set, Regular kind (interpret kind f) set := by
  cases kind with
  | tkhd =>
    exact ⟨_, regular_put (changes_bind_forTrack f (.ofExcept _) TrackDraft.setHeader _) rfl
      (fun _ _ _ => rfl) fun _ _ _ => rfl⟩
  | elst =>
    exact ⟨_, regular_put (changes_bind_forTrack f (.ofExcept _) TrackDraft.setEditList _) rfl
      (fun _ _ _ => rfl) fun hne => absurd rfl hne⟩
  | mdhd =>
    exact ⟨_, regular_put (changes_bind_forTrack f (.ofExcept _) TrackDraft.setMediaHeader _) rfl
      (fun _ _ _ => rfl) fun _ _ _ => rfl⟩
  | hdlr =>
    have hhandled (d : TrackDraft) (h : Handler) :
        (d.setHandler h).value = if h.handlesData then d else { d with handler := some h } := rfl
    refine ⟨_, regular_put (changes_handler f) rfl (fun d h number => ?_) fun _ d h => ?_⟩
    · rw [hhandled, hhandled]
      split <;> rfl
    · rw [hhandled]
      split <;> rfl
  | stsd =>
    exact ⟨_, regular_put (changes_bind_forTrack f _ TrackDraft.setDescription _) rfl
      (fun _ _ _ => rfl) fun _ _ _ => rfl⟩
  | stts | ctts | stsc | stsz | stz2 | stco | co64 | stss =>
    exact ⟨_, regular_put (changes_tableForTrack f _ _ _) rfl (fun _ _ _ => rfl) fun _ _ _ => rfl⟩
  | dref => exact ⟨_, regular_plain (changes_dataReferences f)⟩
  | _ => exact ⟨_, regular_plain (changes_plain _)⟩

/-- What a payload says does not depend on what the draft holds, nor does the change to it. -/
theorem result_interpret (kind : BoxKind) (f : Frame) (draft : Option TrackDraft) :
    (interpret kind f draft).result =
      (tells kind f draft.isSome).map fun p => ⟨p.1, draft.map (TrackDraft.enter kind f), p.2⟩ := by
  obtain ⟨set, ⟨outside, inside, hnone, hsome⟩, -⟩ := exists_regular kind f
  cases draft with
  | none =>
    show _ = Except.map _ ((interpret kind f none).result.map _)
    rw [hnone]
    cases outside <;> rfl
  | some d =>
    show _ = Except.map _ ((interpret kind f (some _)).result.map _)
    rw [hsome, hsome]
    cases hinside : inside with
    | error e => rfl
    | ok p =>
      have henter : d.enter kind f = set d := by
        rw [TrackDraft.enter, hsome, hinside]
        rfl
      rw [Option.map_some, henter]
      rfl

theorem tells_of_critical {kind : BoxKind} (hcontainer : kind.isContainer = true)
    (hcritical : kind.isCritical = true) (f : Frame) (inTrack : Bool) :
    tells kind f inTrack = .ok (.container, 0) := by
  cases kind with
  | moov | trak | mdia | minf | stbl => rfl
  | tref | trgr | edts | dinf | dref => cases hcritical
  | _ => cases hcontainer

end Payload

namespace TrackDraft

/-- A draft that is read into is changed as every reading of the box changes it, or not at all. -/
theorem enter_eq {kind : BoxKind} {f : Frame} {set : TrackDraft → TrackDraft}
    (h : Payload.Changes (Payload.interpret kind f) set) (d : TrackDraft) :
    d.enter kind f = set d ∨ d.enter kind f = d := by
  obtain ⟨outside, inside, -, hsome⟩ := h
  rw [enter, hsome]
  cases inside with
  | error e => exact .inr rfl
  | ok p => exact .inl rfl

variable (kind : BoxKind) (f : Frame) (d : TrackDraft)

@[simp] theorem number_enter : (d.enter kind f).number = d.number := by
  obtain ⟨set, h⟩ := Payload.exists_regular kind f
  rcases enter_eq h.changes d with henter | henter
  · rw [henter, h.number]
  · rw [henter]

/-- A payload is read into a draft whatever its number. -/
theorem withNumber_enter (number : Nat) :
    (d.withNumber number).enter kind f = (d.enter kind f).withNumber number := by
  obtain ⟨set, h⟩ := Payload.exists_regular kind f
  obtain ⟨outside, inside, -, hsome⟩ := h.changes
  rw [enter, enter, hsome, hsome]
  cases inside with
  | error e => rfl
  | ok p => exact h.withNumber d number

variable {kind f}

theorem enter_eq_self (hidle : kind.isForTrack = false) : d.enter kind f = d := by
  obtain ⟨set, h⟩ := Payload.exists_regular kind f
  rcases enter_eq h.changes d with henter | henter
  · rw [henter, h.idle hidle]
    rfl
  · exact henter

theorem editList_enter (hne : kind ≠ .elst) : (d.enter kind f).editList = d.editList := by
  obtain ⟨set, h⟩ := Payload.exists_regular kind f
  rcases enter_eq h.changes d with henter | henter
  · rw [henter, h.editList hne]
  · rw [henter]

/-- An edit list that can be read in a track is kept there. -/
theorem isSome_editList_enter {p : NodeData × Nat} (h : Payload.tells .elst f true = .ok p) :
    (d.enter .elst f).editList.isSome = true := by
  cases hparsed : EditList.ofPayload f.payload with
  | error e =>
    have hfails : (Payload.interpret .elst f (some { number := 0 })).result = .error e := by
      unfold Payload.interpret
      rw [Checked.result_bind, Checked.result_ofExcept, hparsed]
      rfl
    rw [Payload.tells, if_pos rfl, hfails] at h
    cases h
  | ok l =>
    have hreads : (Payload.interpret .elst f (some d)).result =
        .ok ⟨.editList l, some { d with editList := some l }, 0⟩ := by
      unfold Payload.interpret
      rw [Checked.result_bind, Checked.result_ofExcept, hparsed]
      rfl
    rw [enter, hreads]
    rfl

end TrackDraft

end IsoMedia
