import IsoMedia.Proofs.Tree.Geometry
import IsoMedia.Proofs.Tree.Shifting
import Mathlib.Data.List.Nodup

/-!
# Tracks do not touch one another

What is kept of a track is what a walk of its payload alone would leave of it, and other tracks have
no part in that, even if they stand inside it.  Only one thing about a track inside counts: whether it
is walked to its end, for otherwise it takes the container around it down, and what stands behind it
there is not read any more.

`Course.Alike` says that two courses end alike and put the same into the draft around them;
`Course.alike_cons` goes one box on.  `SameBut` relates payloads that differ in tracks only, and
`Course.alike_of_sameBut` follows its cases.

* `Tree.build_isolates` : the draft of a track depends on its payload only, and on a track inside
  only by whether that is walked to its end.
-/

namespace IsoMedia.Tree

/-- The draft is the one that is finished for the track with the given node. -/
def RecordedFor (policy : UnknownBoxPolicy) (bytes : List UInt8) (n : Node) (d : TrackDraft) : Prop :=
  ∃ t ∈ walkedTracks policy bytes, t.node = n ∧ t.draft = d

/-- Walking the payload with a fresh draft around it comes to its end and leaves the draft behind,
whatever was gathered before, wherever the payload stands and whichever number the draft has. -/
def LeavesAlone (policy : UnknownBoxPolicy) (levels : Nat) (payload : List UInt8) (d : TrackDraft) :
    Prop :=
  ∀ (offset number : Nat) (g : Gathered), g.draft = some { number } →
    ∃ nodes g', (inside policy (visit policy levels) .nested offset payload).result g =
      (.ok nodes, g') ∧ g'.draft = some (d.withNumber number)

/-- The track is walked to its end, with at most so many levels of boxes from it on. -/
def WalksTrack (policy : UnknownBoxPolicy) (levels : Nat) (b : WrittenBox) : Prop :=
  ∃ node, ((visit policy levels .trak (b.frame 0)).result {}).1 = .ok node

/-- The payloads differ only inside tracks: tracks that stand in them, directly or in other
containers, may hold anything, but are walked to their end in both payloads or in neither. -/
inductive SameBut (policy : UnknownBoxPolicy) : Nat → List UInt8 → List UInt8 → Prop
  /-- From here on nothing differs. -/
  | same (levels : Nat) (bs : List UInt8) : SameBut policy levels bs bs
  /-- A box is the same in both. -/
  | box {levels : Nat} {b : WrittenBox} {bs bs' : List UInt8} (hfits : b.Fits)
      (hform : b.form ≠ .toEnd) (rest : SameBut policy levels bs bs') :
      SameBut policy levels (b.bytes ++ bs) (b.bytes ++ bs')
  /-- A track holds something else. -/
  | track {levels : Nat} {b b' : WrittenBox} {bs bs' : List UInt8} (hfits : b.Fits)
      (hform : b.form ≠ .toEnd) (hfits' : b'.Fits) (hform' : b'.form ≠ .toEnd)
      (htype : BoxKind.ofFourCc? b.type = some .trak) (htype' : b'.type = b.type)
      (hwalks : WalksTrack policy levels b ↔ WalksTrack policy levels b')
      (rest : SameBut policy levels bs bs') :
      SameBut policy levels (b.bytes ++ bs) (b'.bytes ++ bs')
  /-- The payloads of a container differ in tracks only, behind what precedes the boxes in it. -/
  | container {levels : Nat} {b b' : WrittenBox} {kind : BoxKind} {fixed p p' bs bs' : List UInt8}
      (hfits : b.Fits) (hform : b.form ≠ .toEnd) (hfits' : b'.Fits) (hform' : b'.form ≠ .toEnd)
      (hkind : BoxKind.ofFourCc? b.type = some kind) (hcontainer : kind.isContainer = true)
      (htype' : b'.type = b.type) (hfixed : fixed.length = Course.innerOffset kind)
      (hpayload : b.payload = fixed ++ p) (hpayload' : b'.payload = fixed ++ p')
      (inner : SameBut policy (levels - 1) p p') (rest : SameBut policy levels bs bs') :
      SameBut policy levels (b.bytes ++ bs) (b'.bytes ++ bs')

namespace Course

variable {policy : UnknownBoxPolicy} {levels : Nat} {kind : BoxKind} {f f' : Frame}

/-! ### Courses that do the same to the draft around them -/

/-- Both walks come to the end, or neither, and they put the same into the draft around them. -/
structure Alike (c c' : Course) : Prop where
  fault : c.fault?.isSome = c'.fault?.isSome
  fill : ∀ d, c.fill d = c'.fill d

theorem Alike.symm {c c' : Course} (h : Alike c c') : Alike c' c :=
  ⟨h.fault.symm, fun d => (h.fill d).symm⟩

/-- Two boxes of a kind are met alike: neither can be read, or both can, and then the walks inside
end alike and put the same into the draft around them. -/
inductive MetAlike (kind : BoxKind) (f f' : Frame) :
    Except Error (NodeData × Course) → Except Error (NodeData × Course) → Prop
  | unread (e e' : Error) : MetAlike kind f f' (.error e) (.error e')
  | read (data data' : NodeData) {inner inner' : Course}
      (hfault : inner.fault?.isSome = inner'.fault?.isSome)
      (hfill : kind ≠ .trak → ∀ d : TrackDraft,
        inner.fill (d.enter kind f) = inner'.fill (d.enter kind f')) :
      MetAlike kind f f' (.ok (data, inner)) (.ok (data', inner'))

theorem MetAlike.symm {met met' : Except Error (NodeData × Course)}
    (h : MetAlike kind f f' met met') : MetAlike kind f' f met' met := by
  cases h with
  | unread e e' => exact .unread e' e
  | read data data' hfault hfill =>
    exact .read data' data hfault.symm fun hne d => (hfill hne d).symm

theorem alike_andThen (kind : BoxKind) {fault fault' : Option Error} {rest rest' : Course}
    (hfault : fault.isSome = fault'.isSome) (h : Alike rest rest') :
    Alike (andThen kind fault rest) (andThen kind fault' rest') := by
  cases fault with
  | none =>
    cases fault' with
    | none => exact h
    | some e' => cases hfault
  | some e =>
    cases fault' with
    | none => cases hfault
    | some e' =>
      unfold andThen
      cases kind.isCritical with
      | true => exact ⟨rfl, fun _ => rfl⟩
      | false => exact h

/-- Courses stay alike when a box is put before each of them that is met alike. -/
theorem alike_cons {met met' : BoxKind → Frame → Except Error (NodeData × Course)}
    {frames frames' : List Frame} {fault fault' : Option Error} (htype : f'.type = f.type)
    (hmet : ∀ kind, BoxKind.ofFourCc? f.type = some kind →
      MetAlike kind f f' (met kind f) (met' kind f'))
    (hrest : Alike (ofFrames policy met frames fault) (ofFrames policy met' frames' fault')) :
    Alike (ofFrames policy met (f :: frames) fault)
      (ofFrames policy met' (f' :: frames') fault') := by
  cases hkind : BoxKind.ofFourCc? f.type with
  | none =>
    have hkind' : BoxKind.ofFourCc? f'.type = none := by rw [htype, hkind]
    cases policy with
    | skip =>
      rw [ofFrames_skip_unknown _ _ hkind, ofFrames_skip_unknown _ _ hkind']
      exact ⟨hrest.fault, hrest.fill⟩
    | fail =>
      rw [ofFrames_fail_unknown _ _ hkind, ofFrames_fail_unknown _ _ hkind']
      exact ⟨rfl, fun _ => rfl⟩
  | some kind =>
    have hkind' : BoxKind.ofFourCc? f'.type = some kind := by rw [htype, hkind]
    have hboth := hmet kind hkind
    generalize hx : met kind f = x at hboth
    generalize hy : met' kind f' = y at hboth
    cases hboth with
    | unread e e' =>
      rw [ofFrames_unread _ _ hkind hx, ofFrames_unread _ _ hkind' hy]
      have hgoesOn := alike_andThen kind (show (some e).isSome = (some e').isSome from rfl)
        hrest
      exact ⟨hgoesOn.fault, hgoesOn.fill⟩
    | read data data' hfault hfill =>
      rw [ofFrames_read _ _ hkind hx, ofFrames_read _ _ hkind' hy]
      have hgoesOn := alike_andThen kind hfault hrest
      refine ⟨hgoesOn.fault, fun d => ?_⟩
      rw [fill, fill, hgoesOn.fill]
      by_cases htrack : kind = .trak
      · rw [if_pos htrack, if_pos htrack]
      · rw [if_neg htrack, if_neg htrack, hfill htrack]

/-! ### What a box says in a track -/

/-- The bytes inside a box in a track, if the box can be read and if it holds boxes. -/
def contents (kind : BoxKind) (f : Frame) : Option (Option (List UInt8)) :=
  (opening true kind f).toOption.map fun opened => opened.2.map Prod.snd

theorem contents_dref (f : Frame) :
    contents .dref f = match Payload.dataReferences.parse f.payload with
      | .error _ => none
      | .ok _ => if f.payload.length < 8 then none else some (some (f.payload.drop 8)) := by
  unfold contents opening
  rw [if_neg (by decide), tells_dref]
  cases Payload.dataReferences.parse f.payload with
  | error e => rfl
  | ok data =>
    simp only [Except.map, BoxKind.isContainer, if_true]
    split <;> rfl

/-- The boxes in a container stand behind its fixed bytes, whatever those are. -/
theorem contents_container (hcontainer : kind.isContainer = true) {fixed p : List UInt8}
    (hfixed : fixed.length = innerOffset kind) (hpayload : f.payload = fixed ++ p) :
    contents kind f = some (some p) := by
  cases kind with
  | dref =>
    rw [contents_dref, hpayload]
    match fixed, hfixed with
    | [_, _, _, _, _, _, _, _], _ => rfl
  | moov | trak | tref | trgr | edts | mdia | minf | dinf | stbl =>
    obtain rfl := List.eq_nil_of_length_eq_zero hfixed
    rw [List.nil_append] at hpayload
    subst hpayload
    rfl
  | _ => cases hcontainer

/-- Boxes are met alike if the walks inside them are alike, wherever those start. -/
theorem metAlike_of_contents (henter : ∀ d : TrackDraft, d.enter kind f = d.enter kind f')
    (h : Option.Rel (Option.Rel fun p p' => ∀ offset offset',
      Alike (ofBytes policy (meet policy (levels - 1) true) .nested offset p)
        (ofBytes policy (meet policy (levels - 1) true) .nested offset' p'))
      (contents kind f) (contents kind f')) :
    MetAlike kind f f' (meet policy levels true kind f) (meet policy levels true kind f') := by
  cases levels with
  | zero => exact .unread _ _
  | succ levels =>
    unfold contents at h
    rw [meet, meet]
    cases hopening : opening true kind f with
    | error e =>
      cases hopening' : opening true kind f' with
      | error e' => exact .unread e e'
      | ok opened' =>
        rw [hopening, hopening'] at h
        cases h
    | ok opened =>
      cases hopening' : opening true kind f' with
      | error e' =>
        rw [hopening, hopening'] at h
        cases h
      | ok opened' =>
        rw [hopening, hopening'] at h
        obtain ⟨data, interior⟩ := opened
        obtain ⟨data', interior'⟩ := opened'
        obtain ⟨hinside⟩ := h
        cases interior with
        | none =>
          cases interior' with
          | none => exact .read data data' rfl fun _ d => henter d
          | some interior' => cases hinside
        | some interior =>
          cases interior' with
          | none => cases hinside
          | some interior' =>
            obtain ⟨halike⟩ := hinside
            have halike := halike interior.1 interior'.1
            refine .read data data' halike.fault fun _ d => ?_
            rw [henter]
            exact halike.fill _

/-! ### The same bytes elsewhere, and other bytes -/

theorem alike_of_shifted {n : Nat} {c c' : Course} (h : c.Shifted n c') : Alike c c' := by
  refine ⟨?_, fun d => by rw [h.fill]⟩
  rw [← Option.not_isNone, ← Option.not_isNone, h.isNone_fault]

/-- Wherever bytes stand in a track, they are walked alike. -/
theorem alike_anywhere (offset offset' : Nat) (bs : List UInt8) :
    Alike (ofBytes policy (meet policy levels true) .nested offset bs)
      (ofBytes policy (meet policy levels true) .nested offset' bs) := by
  rcases Nat.le_total offset offset' with hle | hle
  · obtain ⟨n, rfl⟩ := Nat.exists_eq_add_of_le hle
    exact alike_of_shifted (shifted_ofBytes policy levels true .nested offset n bs)
  · obtain ⟨n, rfl⟩ := Nat.exists_eq_add_of_le hle
    exact (alike_of_shifted (shifted_ofBytes policy levels true .nested offset' n bs)).symm

theorem metAlike_shift (kind : BoxKind) (f : Frame) (n : Nat) :
    MetAlike kind f (f.shift n) (meet policy levels true kind f)
      (meet policy levels true kind (f.shift n)) := by
  have hboth : MetShifted n (meet policy levels true kind f)
      (meet policy levels true kind (f.shift n)) := metShifted_meet policy levels true kind f
  generalize meet policy levels true kind f = met at hboth
  generalize meet policy levels true kind (f.shift n) = met' at hboth
  cases hboth with
  | error _ => exact .unread _ _
  | ok h =>
    have halike := alike_of_shifted h.2
    refine .read _ _ halike.fault fun _ d => ?_
    rw [TrackDraft.enter_shift, halike.fill]

/-- Wherever a box stands in a track, it is met alike. -/
theorem metAlike_frame (kind : BoxKind) (b : WrittenBox) (offset offset' : Nat) :
    MetAlike kind (b.frame offset) (b.frame offset')
      (meet policy levels true kind (b.frame offset))
      (meet policy levels true kind (b.frame offset')) := by
  rcases Nat.le_total offset offset' with hle | hle
  · obtain ⟨n, rfl⟩ := Nat.exists_eq_add_of_le hle
    exact metAlike_shift kind (b.frame offset) n
  · obtain ⟨n, rfl⟩ := Nat.exists_eq_add_of_le hle
    exact (metAlike_shift kind (b.frame offset') n).symm

/-- Courses stay alike when a written box is put before the bytes of each of them that is met
alike. -/
theorem alike_written {b b' : WrittenBox} {bs bs' : List UInt8} (hfits : b.Fits)
    (hform : b.form ≠ .toEnd) (hfits' : b'.Fits) (hform' : b'.form ≠ .toEnd)
    (htype : b'.type = b.type) {offset offset' : Nat}
    (hmet : ∀ kind, BoxKind.ofFourCc? b.type = some kind →
      MetAlike kind (b.frame offset) (b'.frame offset')
        (meet policy levels true kind (b.frame offset))
        (meet policy levels true kind (b'.frame offset')))
    (hrest : ∀ offset offset', Alike (ofBytes policy (meet policy levels true) .nested offset bs)
      (ofBytes policy (meet policy levels true) .nested offset' bs')) :
    Alike (ofBytes policy (meet policy levels true) .nested offset (b.bytes ++ bs))
      (ofBytes policy (meet policy levels true) .nested offset' (b'.bytes ++ bs')) := by
  have hnext : Frame.next? .nested offset (b.bytes ++ bs) = .ok (some (b.frame offset, bs)) :=
    Frame.next?_written hfits (fun h => absurd h hform) offset
  have hnext' : Frame.next? .nested offset' (b'.bytes ++ bs') = .ok (some (b'.frame offset', bs')) :=
    Frame.next?_written hfits' (fun h => absurd h hform') offset'
  unfold ofBytes
  rw [Frame.all_of_next hnext, Frame.all_of_next hnext']
  exact alike_cons htype hmet (hrest _ _)

theorem walksTrack_iff (b : WrittenBox) (offset : Nat) :
    WalksTrack policy (levels + 1) b ↔
      (ofBytes policy (meet policy levels true) .nested offset b.payload).fault? = none := by
  have hmet : meet policy (levels + 1) false .trak (b.frame 0) =
      .ok (.container, ofBytes policy (meet policy levels true) .nested
        (b.frame 0).payloadOffset b.payload) := meet_of_opening opening_trak
  have halike : Alike (ofBytes policy (meet policy levels true) .nested (b.frame 0).payloadOffset
      b.payload) (ofBytes policy (meet policy levels true) .nested offset b.payload) :=
    alike_anywhere _ _ _
  have hfault := halike.fault
  unfold WalksTrack
  rw [follows_visit policy (levels + 1) false .trak (b.frame 0) {} rfl, hmet]
  dsimp only [boxOutcome]
  cases hends : (ofBytes policy (meet policy levels true) .nested
      (b.frame 0).payloadOffset b.payload).fault? with
  | none =>
    rw [hends] at hfault
    exact iff_of_true ⟨_, rfl⟩ (Option.isSome_eq_false_iff.1 hfault.symm |> Option.isNone_iff_eq_none.1)
  | some e =>
    rw [hends] at hfault
    refine iff_of_false (fun ⟨node, hnode⟩ => nomatch hnode) fun hnone => ?_
    rw [hnone] at hfault
    cases hfault

/-- **Payloads that differ in tracks only are walked alike.** -/
theorem alike_of_sameBut {p p' : List UInt8} (h : SameBut policy levels p p')
    (offset offset' : Nat) :
    Alike (ofBytes policy (meet policy levels true) .nested offset p)
      (ofBytes policy (meet policy levels true) .nested offset' p') := by
  -- The induction is on how the payloads differ.  A track needs nothing of what it holds: its draft is
  -- its own, and only its fault gets out.
  induction h generalizing offset offset' with
  | same levels bs => exact alike_anywhere offset offset' bs
  | box hfits hform _ ih =>
    exact alike_written hfits hform hfits hform rfl (fun kind _ => metAlike_frame kind _ _ _) ih
  | @track levels b b' bs bs' hfits hform hfits' hform' htype htype' hwalks _ ih =>
    refine alike_written hfits hform hfits' hform' htype' (fun kind hkind => ?_) ih
    obtain rfl : kind = .trak := kind_of_type hkind htype
    cases levels with
    | zero => exact .unread _ _
    | succ levels =>
      rw [walksTrack_iff b (b.frame offset).payloadOffset,
        walksTrack_iff b' (b'.frame offset').payloadOffset] at hwalks
      rw [meet_of_opening opening_trak, meet_of_opening opening_trak]
      refine .read _ _ ?_ fun hne => absurd rfl hne
      rw [Bool.eq_iff_iff, ← not_iff_not]
      simpa [ofInterior] using hwalks
  | container hfits hform hfits' hform' hkind hcontainer htype' hfixed hpayload hpayload' _ _
      ihInner ihRest =>
    refine alike_written hfits hform hfits' hform' htype' (fun kind hkind' => ?_) ihRest
    obtain rfl := Option.some.inj (hkind'.symm.trans hkind)
    refine metAlike_of_contents (fun d => ?_) ?_
    · rw [d.enter_eq_self (isForTrack_of_container hcontainer),
        d.enter_eq_self (isForTrack_of_container hcontainer)]
    · rw [contents_container hcontainer hfixed hpayload,
        contents_container hcontainer hfixed hpayload']
      exact .some (.some ihInner)

/-- A draft is filled in the same way whatever its number. -/
theorem withNumber_fill (c : Course) (d : TrackDraft) (number : Nat) :
    c.fill (d.withNumber number) = (c.fill d).withNumber number := by
  induction c generalizing d with
  | stop fault => rfl
  | unknown f rest ih => exact ih d
  | unread kind f e rest ih => exact ih d
  | read kind f data inner rest ihInner ihRest =>
    rw [fill, fill, ← ihRest]
    by_cases htrack : kind = .trak
    · rw [if_pos htrack, if_pos htrack]
    · rw [if_neg htrack, if_neg htrack, TrackDraft.withNumber_enter, ihInner]

/-- What a walk of a payload in a track leaves can be read off its course. -/
theorem leavesAlone {start : Nat} {payload : List UInt8} {number : Nat}
    (hends : (ofBytes policy (meet policy levels true) .nested start payload).fault? = none) :
    LeavesAlone policy levels payload
      ((ofBytes policy (meet policy levels true) .nested start payload).fill { number }) := by
  intro offset number' g hg
  have halike : Alike (ofBytes policy (meet policy levels true) .nested start payload)
      (ofBytes policy (meet policy levels true) .nested offset payload) :=
    alike_anywhere _ _ _
  have hfault : (ofBytes policy (meet policy levels true) .nested offset payload).fault? = none := by
    have hisSome := halike.fault
    rw [hends] at hisSome
    simpa using hisSome.symm
  refine ⟨(ofBytes policy (meet policy levels true) .nested offset payload).nodes,
    (ofBytes policy (meet policy levels true) .nested offset payload).leave g, ?_, ?_⟩
  · rw [result_inside (follows_visit policy levels true) .nested offset payload (by rw [hg]; rfl),
      outcome, hfault]
  · rw [leave, hg, halike.fill, ← withNumber_fill]
    rfl

end Course

/-! ### The tracks of a file -/

section File

variable {policy : UnknownBoxPolicy} {bytes : List UInt8} {parsed : Parsed} {depth : Nat} {n : Node}

/-- Different tracks have different nodes. -/
theorem eq_of_node_eq {t u : WalkedTrack} (ht : t ∈ walkedTracks policy bytes)
    (hu : u ∈ walkedTracks policy bytes) (hnode : t.node = u.node) : t = u := by
  have hle := number_lt_number_iff policy bytes ht hu
  have hge := number_lt_number_iff policy bytes hu ht
  rw [hnode] at hle hge
  have hnumber : t.number = u.number := by omega
  exact List.inj_on_of_nodup_map (nodup_number_walkedTracks policy bytes) ht hu hnumber

/-- The track of a node was walked as the bytes inside the node say. -/
theorem exists_walkedTrack (h : (build policy bytes).result = .ok parsed)
    (hn : Node.Below parsed.root depth n) (hkind : n.kind? = some .trak) :
    ∃ t ∈ walkedTracks policy bytes, t.node = n ∧ t.inner.fault? = none ∧
      t.inner = Course.ofBytes policy (Course.meet policy (maxDepth - depth) true) .nested
        (n.innerStart bytes) (n.interior bytes) := by
  obtain ⟨-, hroot, -, -⟩ := build_eq_ok_iff.1 h
  rw [hroot] at hn
  obtain ⟨b, hkeeps, rfl⟩ := Course.exists_keeps_of_below rfl hn
  have hstands := Course.stands_of_keeps hkeeps
  have htrack : b.kind = .trak := Option.some.inj (hstands.kind_eq.symm.trans hkind)
  -- The node is that of a box that is kept, and a track that is kept was walked to its end.
  obtain ⟨number, ended, -, hmem⟩ := Course.exists_tracks_of_keeps hkeeps 0 0
  obtain ⟨inTrack, hinTrack, hinner⟩ := Course.inner_of_stands hstands (by rw [htrack]; rfl)
  rw [hinTrack htrack] at hinner
  exact ⟨_, hmem htrack, rfl, hstands.ends, hinner⟩

/-- What is recorded for a node is what the bytes inside it fill a draft with. -/
theorem recordedFor_iff (h : (build policy bytes).result = .ok parsed)
    (hn : Node.Below parsed.root depth n) (hkind : n.kind? = some .trak) :
    ∃ number, ∀ d, RecordedFor policy bytes n d ↔
      d = (Course.ofBytes policy (Course.meet policy (maxDepth - depth) true) .nested
        (n.innerStart bytes) (n.interior bytes)).fill { number } := by
  obtain ⟨t, ht, hnode, -, hinner⟩ := exists_walkedTrack h hn hkind
  refine ⟨t.number, fun d => ⟨?_, ?_⟩⟩
  · rintro ⟨u, hu, hnode', rfl⟩
    rw [eq_of_node_eq hu ht (hnode'.trans hnode.symm), WalkedTrack.draft, hinner]
  · rintro rfl
    exact ⟨t, ht, hnode, by rw [WalkedTrack.draft, hinner]⟩

end File

/-- **Tracks are isolated.**  In a file that is walked to its end, one draft is recorded for each
track of the tree, and it is what walking the payload of the track alone leaves of a fresh draft, but
for its number.  So, if two such files have tracks at the same depth whose payloads differ only in
other tracks inside them, or not at all, and these are walked to their end in both or in neither, then
the same is recorded for both, but for the number. -/
theorem build_isolates (policy : UnknownBoxPolicy) :
    (∀ bytes parsed, (build policy bytes).result = .ok parsed →
      parsed.drafts.toList = (walkedTracks policy bytes).map WalkedTrack.draft ∧
      ∀ depth n, Node.Below parsed.root depth n → n.kind? = some .trak →
        ∃ d, RecordedFor policy bytes n d ∧ (∀ d', RecordedFor policy bytes n d' → d' = d) ∧
          LeavesAlone policy (maxDepth - depth) (n.interior bytes) d) ∧
    ∀ bytes bytes' parsed parsed', (build policy bytes).result = .ok parsed →
      (build policy bytes').result = .ok parsed' →
      ∀ depth n n', Node.Below parsed.root depth n → Node.Below parsed'.root depth n' →
        n.kind? = some .trak → n'.kind? = some .trak →
        SameBut policy (maxDepth - depth) (n.interior bytes) (n'.interior bytes') →
        ∀ d d', RecordedFor policy bytes n d → RecordedFor policy bytes' n' d' →
          d' = d.withNumber d'.number := by
  constructor
  · intro bytes parsed h
    obtain ⟨-, -, hdrafts, -⟩ := build_eq_ok_iff.1 h
    refine ⟨?_, fun depth n hn hkind => ?_⟩
    · rw [hdrafts]
      exact (Course.map_draft_tracks _ true 0 0).symm
    · obtain ⟨t, ht, hnode, hends, hinner⟩ := exists_walkedTrack h hn hkind
      refine ⟨t.draft, ⟨t, ht, hnode, rfl⟩, ?_, ?_⟩
      · rintro d' ⟨u, hu, hnode', rfl⟩
        rw [eq_of_node_eq hu ht (hnode'.trans hnode.symm)]
      · rw [WalkedTrack.draft, hinner]
        rw [hinner] at hends
        exact Course.leavesAlone hends
  · intro bytes bytes' parsed parsed' h h' depth n n' hn hn' hkind hkind' hsame d d' hd hd'
    obtain ⟨number, hrecorded⟩ := recordedFor_iff h hn hkind
    obtain ⟨number', hrecorded'⟩ := recordedFor_iff h' hn' hkind'
    rw [hrecorded] at hd
    rw [hrecorded'] at hd'
    have hfill := (Course.alike_of_sameBut hsame (n.innerStart bytes) (n'.innerStart bytes')).fill
    rw [hd, hd', Course.number_fill, ← Course.withNumber_fill, hfill]
    rfl

/-- A track that holds the given bytes. -/
def trackHolding (payload : List UInt8) : WrittenBox :=
  ⟨.ofChars 't' 'r' 'a' 'k', .narrow, payload⟩

/-- The edits of a track, in which another track stands before an edit list without entries. -/
def editsAround (payload : List UInt8) : WrittenBox :=
  let edits : WrittenBox := ⟨.ofChars 'e' 'l' 's' 't', .narrow, [0, 0, 0, 0, 0, 0, 0, 0]⟩
  ⟨.ofChars 'e' 'd' 't' 's', .narrow, (trackHolding payload).bytes ++ edits.bytes⟩

/-- A file with a track that has these edits. -/
def trackInEdits (payload : List UInt8) : List UInt8 :=
  (WrittenBox.mk (.ofChars 'm' 'o' 'o' 'v') .narrow
    (trackHolding (editsAround payload).bytes).bytes).bytes

/-- Where the nodes on the second level of a file stand. -/
def places (policy : UnknownBoxPolicy) (bytes : List UInt8) : List (FourCc × Nat × Nat) :=
  (Course.ofFile policy bytes).nodes.flatMap fun m =>
    m.children.map fun n => (n.type, n.offset, n.size)

theorem exists_node_of_places {policy : UnknownBoxPolicy} {bytes : List UInt8} (type : FourCc)
    (offset size : Nat) (hends : (Course.ofFile policy bytes).fault? = none)
    (hplace : (type, offset, size) ∈ places policy bytes) :
    ∃ parsed, (build policy bytes).result = .ok parsed ∧ ∃ data children,
      Node.Below parsed.root 2 (.mk type offset size data children) := by
  refine ⟨⟨Node.root bytes.length (Course.ofFile policy bytes).nodes,
    ((Course.ofFile policy bytes).drafts 0).toArray,
    (Course.ofFile policy bytes).warnings.toArray⟩,
    build_eq_ok_iff.2 ⟨hends, rfl, rfl, rfl⟩, ?_⟩
  obtain ⟨m, hm, hplace⟩ := List.mem_flatMap.1 hplace
  obtain ⟨n, hn, heq⟩ := List.mem_map.1 hplace
  obtain ⟨_, _, _, data, children⟩ := n
  cases heq
  exact ⟨data, children, .deeper (.child hm) hn⟩

/-- Edits around two tracks that are both walked to their end differ in tracks only. -/
theorem sameBut_editsAround {payload payload' : List UInt8} (hfits : (editsAround payload).Fits)
    (hfits' : (editsAround payload').Fits)
    (hends : WalksTrack .skip 29 (trackHolding payload))
    (hends' : WalksTrack .skip 29 (trackHolding payload')) :
    SameBut .skip 30 ((editsAround payload).bytes ++ []) ((editsAround payload').bytes ++ []) := by
  have hinner (payload : List UInt8) (hfits : (editsAround payload).Fits) :
      (trackHolding payload).Fits := by
    simp only [WrittenBox.Fits, editsAround, trackHolding, WrittenBox.size, WrittenBox.headerLength,
      List.length_append, WrittenBox.length_bytes] at hfits ⊢
    omega
  have hedits : BoxKind.ofFourCc? (.ofChars 'e' 'd' 't' 's') = some .edts := by decide
  have htrack : BoxKind.ofFourCc? (.ofChars 't' 'r' 'a' 'k') = some .trak := by decide
  have hfixed : ([] : List UInt8).length = Course.innerOffset .edts := rfl
  have hnarrow : SizeForm.narrow ≠ .toEnd := by decide
  refine .container hfits hnarrow hfits' hnarrow hedits rfl rfl hfixed rfl rfl ?_ (.same _ _)
  exact .track (hinner _ hfits) hnarrow (hinner _ hfits') hnarrow htrack rfl
    (iff_of_true hends hends') (.same _ _)

/-- The same is recorded for the outer track whether the one in its edits holds four zero bytes or
none, as if either were walked alone. -/
theorem trackInEdits_isolated : ∃ parsed parsed' n n' d d',
    (build .skip (trackInEdits [])).result = .ok parsed ∧
    (build .skip (trackInEdits [0, 0, 0, 0])).result = .ok parsed' ∧
    Node.Below parsed.root 2 n ∧ Node.Below parsed'.root 2 n' ∧
    LeavesAlone .skip 30 (n.interior (trackInEdits [])) d ∧
    LeavesAlone .skip 30 (n'.interior (trackInEdits [0, 0, 0, 0])) d' ∧
    d' = d.withNumber d'.number := by
  have htrack : BoxKind.ofFourCc? (.ofChars 't' 'r' 'a' 'k') = some .trak := by decide
  have hends : (Course.ofFile .skip (trackInEdits [])).fault? = none := by decide +kernel
  obtain ⟨parsed, h, data, children, hn⟩ :=
    exists_node_of_places (.ofChars 't' 'r' 'a' 'k') 8 40 hends (by decide +kernel)
  have hends' : (Course.ofFile .skip (trackInEdits [0, 0, 0, 0])).fault? = none := by decide +kernel
  obtain ⟨parsed', h', data', children', hn'⟩ :=
    exists_node_of_places (.ofChars 't' 'r' 'a' 'k') 8 44 hends' (by decide +kernel)
  have hinterior : (Node.mk (.ofChars 't' 'r' 'a' 'k') 8 40 .container []).interior
      (trackInEdits []) = (editsAround []).bytes ++ [] := by decide +kernel
  have hinterior' : (Node.mk (.ofChars 't' 'r' 'a' 'k') 8 44 .container []).interior
      (trackInEdits [0, 0, 0, 0]) = (editsAround [0, 0, 0, 0]).bytes ++ [] := by decide +kernel
  have hsame := sameBut_editsAround (show (editsAround []).size < 2 ^ 32 by decide)
    (show (editsAround [0, 0, 0, 0]).size < 2 ^ 32 by decide)
    ((Course.walksTrack_iff _ 0).2 (by decide +kernel))
    ((Course.walksTrack_iff _ 0).2 (by decide +kernel))
  rw [← hinterior, ← hinterior'] at hsame
  obtain ⟨hfile, hisolated⟩ := build_isolates .skip
  obtain ⟨d, hd, -, halone⟩ := (hfile _ _ h).2 2 _ hn htrack
  obtain ⟨d', hd', -, halone'⟩ := (hfile _ _ h').2 2 _ hn' htrack
  exact ⟨parsed, parsed', _, _, d, d', h, h', hn, hn', halone, halone',
    hisolated _ _ _ _ h h' 2 _ _ hn hn' htrack htrack hsame d d' hd hd'⟩

/-- If the track in the edits is not walked to its end, the edits are dropped with what stands behind
it there, and the outer track has no edit list, though nothing outside the inner one was changed. -/
theorem not_isolated_trackInEdits : ∃ parsed parsed' n n' d d',
    (build .skip (trackInEdits [0, 0, 0, 0])).result = .ok parsed ∧
    (build .skip (trackInEdits [0, 0, 0, 1])).result = .ok parsed' ∧
    Node.Below parsed.root 2 n ∧ Node.Below parsed'.root 2 n' ∧
    n.kind? = some .trak ∧ n'.kind? = some .trak ∧ n.offset = n'.offset ∧
    RecordedFor .skip (trackInEdits [0, 0, 0, 0]) n d ∧
    RecordedFor .skip (trackInEdits [0, 0, 0, 1]) n' d' ∧
    d.editList.isSome = true ∧ d'.editList = none := by
  have htrack : BoxKind.ofFourCc? (.ofChars 't' 'r' 'a' 'k') = some .trak := by decide
  have hends : (Course.ofFile .skip (trackInEdits [0, 0, 0, 0])).fault? = none := by decide +kernel
  obtain ⟨parsed, h, data, children, hn⟩ :=
    exists_node_of_places (.ofChars 't' 'r' 'a' 'k') 8 44 hends (by decide +kernel)
  have hends' : (Course.ofFile .skip (trackInEdits [0, 0, 0, 1])).fault? = none := by decide +kernel
  obtain ⟨parsed', h', data', children', hn'⟩ :=
    exists_node_of_places (.ofChars 't' 'r' 'a' 'k') 8 44 hends' (by decide +kernel)
  obtain ⟨t, ht, hnode, -⟩ := exists_walkedTrack h hn htrack
  obtain ⟨t', ht', hnode', -⟩ := exists_walkedTrack h' hn' htrack
  have hkept : ∀ t ∈ walkedTracks .skip (trackInEdits [0, 0, 0, 0]),
      t.node.offset = 8 → t.draft.editList.isSome = true := by decide +kernel
  have hlost : ∀ t ∈ walkedTracks .skip (trackInEdits [0, 0, 0, 1]),
      t.node.offset = 8 → t.draft.editList = none := by decide +kernel
  exact ⟨parsed, parsed', _, _, t.draft, t'.draft, h, h', hn, hn', htrack, htrack, rfl,
    ⟨t, ht, hnode, rfl⟩, ⟨t', ht', hnode', rfl⟩, hkept t ht (by rw [hnode]; rfl),
    hlost t' ht' (by rw [hnode']; rfl)⟩

end IsoMedia.Tree
