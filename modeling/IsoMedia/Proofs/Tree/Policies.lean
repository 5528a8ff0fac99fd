import IsoMedia.Proofs.Tree.Tracks

/-!
# The two policies about unknown boxes

A box of an unknown kind is passed over with a warning, or is a fault.  The fault goes the way of
any other: it ends the walk through the critical containers around it, and is put up with at the
first container that may be dropped.  So only unknown boxes with nothing but critical containers
around them, the `exposed` ones, keep a file from being walked to its end.

* `Tree.build_fail_iff` : when the stricter policy accepts a file, and when the two agree on it.
-/

namespace IsoMedia

/-- The warning tells that a box of an unknown kind was passed over. -/
def ParseWarning.AboutUnknown (w : ParseWarning) : Prop :=
  ∃ f, BoxKind.ofFourCc? f.type = none ∧ w = Tree.unknownWarning f

namespace Tree

open Course

/-- The unknown boxes among boxes, and those that are found inside the others. -/
def unknownAmong (inner : BoxKind → Frame → List Frame) (frames : List Frame) : List Frame :=
  frames.flatMap fun f =>
    match BoxKind.ofFourCc? f.type with
    | none => [f]
    | some kind => inner kind f

/-- The unknown boxes inside a box, if it is a critical container, that have no other than critical
containers around them. -/
def exposed : Nat → BoxKind → Frame → List Frame
  | 0, _, _ => []
  | levels + 1, kind, f =>
    if kind.isCritical ∧ kind.isContainer then
      unknownAmong (exposed levels) (Frame.all .nested f.payloadOffset f.payload).1
    else []

/-- The unknown boxes of a file with nothing but critical containers around them. -/
def exposedInFile (bytes : List UInt8) : List Frame :=
  unknownAmong (exposed maxDepth) (Frame.all .topLevel 0 bytes).1

theorem unknownAmong_cons_of_known {inner : BoxKind → Frame → List Frame} {f : Frame}
    {kind : BoxKind} (h : BoxKind.ofFourCc? f.type = some kind) (frames : List Frame) :
    unknownAmong inner (f :: frames) = inner kind f ++ unknownAmong inner frames := by
  simp [unknownAmong, h]

theorem unknownAmong_cons_of_unknown {inner : BoxKind → Frame → List Frame} {f : Frame}
    (h : BoxKind.ofFourCc? f.type = none) (frames : List Frame) :
    unknownAmong inner (f :: frames) = f :: unknownAmong inner frames := by
  simp [unknownAmong, h]

theorem exposed_eq_nil {kind : BoxKind} (h : kind.isCritical = false) (levels : Nat) (f : Frame) :
    exposed levels kind f = [] := by
  cases levels with
  | zero => rfl
  | succ levels => simp [exposed, h]

namespace Course

variable {policy : UnknownBoxPolicy} {levels : Nat} {inTrack : Bool} {kind : BoxKind} {f : Frame}

/-- The fault of a box that was met: it cannot be read, or the walk inside it ends with a fault. -/
def faultOf : Except Error (NodeData × Course) → Option Error
  | .error e => some e
  | .ok (_, inner) => inner.fault?

/-- A walk comes past a box unless it is critical and has a fault. -/
theorem fault?_ofFrames_cons {meet : BoxKind → Frame → Except Error (NodeData × Course)}
    (h : BoxKind.ofFourCc? f.type = some kind) (frames : List Frame) (fault : Option Error) :
    (ofFrames policy meet (f :: frames) fault).fault? = none ↔
      (kind.isCritical = true → faultOf (meet kind f) = none) ∧
        (ofFrames policy meet frames fault).fault? = none := by
  have hgoOn (e : Option Error) (rest : Course) : (andThen kind e rest).fault? = none ↔
      (kind.isCritical = true → e = none) ∧ rest.fault? = none := by
    cases e with
    | none => simp [andThen]
    | some e =>
      cases hcritical : kind.isCritical with
      | false => simp [andThen, hcritical]
      | true => simp [andThen, hcritical, fault?]
  cases hmeet : meet kind f with
  | error e =>
    rw [ofFrames_unread frames fault h hmeet]
    exact hgoOn _ _
  | ok met =>
    rw [ofFrames_read frames fault h hmeet]
    exact hgoOn _ _

/-- A run of boxes is walked to its end under the stricter policy if it is under the other and no
unknown box is exposed in it, if that holds of every critical box. -/
theorem fault?_ofFrames_fail_iff
    {strict lenient : BoxKind → Frame → Except Error (NodeData × Course)}
    {inner : BoxKind → Frame → List Frame}
    (hcritical : ∀ kind f, kind.isCritical = true →
      (faultOf (strict kind f) = none ↔ faultOf (lenient kind f) = none ∧ inner kind f = []))
    (hother : ∀ kind f, kind.isCritical = false → inner kind f = [])
    (frames : List Frame) (fault : Option Error) :
    (ofFrames .fail strict frames fault).fault? = none ↔
      (ofFrames .skip lenient frames fault).fault? = none ∧ unknownAmong inner frames = [] := by
  induction frames with
  | nil => simp [ofFrames, unknownAmong]
  | cons f frames ih =>
    cases hkind : BoxKind.ofFourCc? f.type with
    | none => simp [ofFrames_fail_unknown, hkind, fault?, unknownAmong_cons_of_unknown]
    | some kind =>
      rw [fault?_ofFrames_cons hkind, fault?_ofFrames_cons hkind, ih,
        unknownAmong_cons_of_known hkind, List.append_eq_nil_iff]
      -- A box that is not critical is no fault of the walk around it under either policy.
      cases hcrit : kind.isCritical with
      | true =>
        simp only [true_imp_iff, hcritical kind f hcrit]
        exact and_and_and_comm
      | false => simp [hother kind f hcrit]

/-- A critical box has no fault under the stricter policy if it has none under the other and no
unknown box is exposed in it. -/
theorem faultOf_meet_fail_iff (hcritical : kind.isCritical = true) :
    faultOf (meet .fail levels inTrack kind f) = none ↔
      faultOf (meet .skip levels inTrack kind f) = none ∧ exposed levels kind f = [] := by
  induction levels generalizing inTrack kind f with
  | zero => simp [meet, exposed, malformed, faultOf]
  | succ levels ih =>
    rw [meet, meet]
    cases hcontainer : kind.isContainer with
    | true =>
      rw [opening_of_critical hcontainer hcritical, exposed, if_pos ⟨hcritical, hcontainer⟩]
      exact fault?_ofFrames_fail_iff (fun _ _ => ih) (fun _ f h => exposed_eq_nil h levels f) _ _
    | false =>
      rw [exposed, if_neg (by simp [hcontainer]), and_iff_left rfl]
      cases hopening : opening inTrack kind f with
      | error e => exact Iff.rfl
      | ok opened =>
        obtain ⟨data, interior⟩ := opened
        rw [← (interior_of_opening hopening).1, Option.isSome_eq_false_iff,
          Option.isNone_iff_eq_none] at hcontainer
        rw [hcontainer]
        exact Iff.rfl

theorem fault?_ofBytes_fail_iff (levels : Nat) (inTrack : Bool) (scope : Scope) (offset : Nat)
    (bytes : List UInt8) :
    (ofBytes .fail (meet .fail levels inTrack) scope offset bytes).fault? = none ↔
      (ofBytes .skip (meet .skip levels inTrack) scope offset bytes).fault? = none ∧
        unknownAmong (exposed levels) (Frame.all scope offset bytes).1 = [] :=
  fault?_ofFrames_fail_iff (fun _ _ => faultOf_meet_fail_iff)
    (fun _ f h => exposed_eq_nil h levels f) _ _

/-! ### Warnings about unknown boxes -/

/-- No warning is about an unknown box. -/
def Knows (c : Course) : Prop := ∀ w ∈ c.warnings, ¬ w.AboutUnknown

theorem knows_stop (fault : Option Error) : (stop fault).Knows := nofun

theorem not_knows_unknown (h : BoxKind.ofFourCc? f.type = none) (rest : Course) :
    ¬ (unknown f rest).Knows := fun hknows => hknows _ List.mem_cons_self ⟨f, h, rfl⟩

theorem knows_dropWarnings (h : BoxKind.ofFourCc? f.type = some kind) (fault : Option Error) :
    ∀ w ∈ dropWarnings kind f fault, ¬ w.AboutUnknown := by
  unfold dropWarnings
  split
  · exact nofun
  · split
    · exact nofun
    · rintro w hw ⟨g, hunknown, rfl⟩
      have htype : g.type = f.type := congrArg ParseWarning.type (List.mem_singleton.1 hw)
      rw [htype, h] at hunknown
      cases hunknown

theorem knows_unread_iff (h : BoxKind.ofFourCc? f.type = some kind) (e : Error) (rest : Course) :
    (unread kind f e rest).Knows ↔ rest.Knows := by
  rw [Knows, warnings, List.forall_mem_append, and_iff_right (knows_dropWarnings h _)]
  rfl

theorem knows_read_iff (h : BoxKind.ofFourCc? f.type = some kind) (data : NodeData)
    (inner rest : Course) : (read kind f data inner rest).Knows ↔ inner.Knows ∧ rest.Knows := by
  rw [Knows, warnings, List.forall_mem_append, List.forall_mem_append,
    and_iff_right (knows_dropWarnings h _)]
  rfl

theorem knows_andThen {rest : Course} (h : rest.Knows) (fault : Option Error) :
    (andThen kind fault rest).Knows := by
  unfold andThen
  split
  · exact h
  · split
    · exact knows_stop _
    · exact h

/-- The course of a walk does not depend on the policy if no unknown box was passed over. -/
theorem ofFrames_fail_eq {strict lenient : BoxKind → Frame → Except Error (NodeData × Course)}
    (herror : ∀ kind f e, lenient kind f = .error e → strict kind f = .error e)
    (hok : ∀ kind f data inner, lenient kind f = .ok (data, inner) → inner.Knows →
      strict kind f = .ok (data, inner))
    {frames : List Frame} {fault : Option Error} (h : (ofFrames .skip lenient frames fault).Knows) :
    ofFrames .fail strict frames fault = ofFrames .skip lenient frames fault := by
  induction frames with
  | nil => rfl
  | cons f frames ih =>
    -- Behind a critical box that failed there is nothing to compare.
    have hgoOn {kind : BoxKind} {e : Option Error}
        (h : (andThen kind e (ofFrames .skip lenient frames fault)).Knows) :
        andThen kind e (ofFrames .fail strict frames fault) =
          andThen kind e (ofFrames .skip lenient frames fault) := by
      cases e with
      | none => exact ih h
      | some e =>
        cases hcritical : kind.isCritical with
        | true => simp [andThen, hcritical]
        | false =>
          simp only [andThen, hcritical, Bool.false_eq_true, if_false] at h ⊢
          exact ih h
    cases hkind : BoxKind.ofFourCc? f.type with
    | none =>
      rw [ofFrames_skip_unknown frames fault hkind] at h
      exact absurd h (not_knows_unknown hkind _)
    | some kind =>
      cases hmet : lenient kind f with
      | error e =>
        rw [ofFrames_unread frames fault hkind hmet] at h ⊢
        rw [ofFrames_unread frames fault hkind (herror kind f e hmet),
          hgoOn ((knows_unread_iff hkind _ _).1 h)]
      | ok met =>
        obtain ⟨data, inner⟩ := met
        rw [ofFrames_read frames fault hkind hmet] at h ⊢
        obtain ⟨hinner, hrest⟩ := (knows_read_iff hkind _ _ _).1 h
        rw [ofFrames_read frames fault hkind (hok kind f data inner hmet hinner), hgoOn hrest]

/-- A box that cannot be read cannot be read under either policy. -/
theorem meet_eq_error {policy : UnknownBoxPolicy} {e : Error}
    (h : meet policy levels inTrack kind f = .error e) (policy' : UnknownBoxPolicy) :
    meet policy' levels inTrack kind f = .error e := by
  cases levels with
  | zero => exact h
  | succ levels =>
    rw [meet] at h ⊢
    cases hopening : opening inTrack kind f with
    | error e' =>
      rw [hopening] at h
      cases h
      rfl
    | ok opened =>
      rw [hopening] at h
      cases h

/-- A box in which no unknown box was passed over is met the same way under the stricter policy. -/
theorem meet_fail_eq {data : NodeData} {inner : Course}
    (h : meet .skip levels inTrack kind f = .ok (data, inner)) (hinner : inner.Knows) :
    meet .fail levels inTrack kind f = .ok (data, inner) := by
  induction levels generalizing inTrack kind f data inner with
  | zero => cases h
  | succ levels ih =>
    obtain ⟨_, interior, ⟨⟩, hopening, rfl⟩ := meet_eq_ok h
    rw [meet_of_opening hopening]
    cases interior with
    | none => rfl
    | some interior =>
      have hsame :=
        ofFrames_fail_eq (fun _ _ _ h => meet_eq_error h .fail) (fun _ _ _ _ => ih) hinner
      exact congrArg (fun inner => Except.ok (data, inner)) hsame

/-- The stricter policy passes over no unknown box. -/
theorem knows_ofFrames_fail {strict : BoxKind → Frame → Except Error (NodeData × Course)}
    (h : ∀ kind f data inner, strict kind f = .ok (data, inner) → inner.Knows)
    (frames : List Frame) (fault : Option Error) : (ofFrames .fail strict frames fault).Knows := by
  induction frames with
  | nil => exact knows_stop fault
  | cons f frames ih =>
    cases hkind : BoxKind.ofFourCc? f.type with
    | none =>
      rw [ofFrames_fail_unknown frames fault hkind]
      exact knows_stop _
    | some kind =>
      cases hmet : strict kind f with
      | error e =>
        rw [ofFrames_unread frames fault hkind hmet, knows_unread_iff hkind]
        exact knows_andThen ih _
      | ok met =>
        rw [ofFrames_read frames fault hkind hmet, knows_read_iff hkind]
        exact ⟨h kind f _ _ hmet, knows_andThen ih _⟩

theorem knows_of_meet_fail {data : NodeData} {inner : Course}
    (h : meet .fail levels inTrack kind f = .ok (data, inner)) : inner.Knows := by
  induction levels generalizing inTrack kind f data inner with
  | zero => cases h
  | succ levels ih =>
    obtain ⟨_, interior, ⟨⟩, -, rfl⟩ := meet_eq_ok h
    cases interior with
    | none => exact knows_stop none
    | some interior => exact knows_ofFrames_fail (fun _ _ _ _ => ih) _ _

theorem knows_ofFile_fail (bytes : List UInt8) : (ofFile .fail bytes).Knows :=
  knows_ofFrames_fail (fun _ _ _ _ => knows_of_meet_fail) _ _

theorem ofFile_fail_eq {bytes : List UInt8} (h : (ofFile .skip bytes).Knows) :
    ofFile .fail bytes = ofFile .skip bytes :=
  ofFrames_fail_eq (fun _ _ _ h => meet_eq_error h .fail) (fun _ _ _ _ => meet_fail_eq) h

end Course

/-- A walk under the stricter policy comes to the end of the boxes if it does under the other, and
no unknown box is exposed among them. -/
theorem exists_inside_fail_iff (levels : Nat) (scope : Scope) (offset : Nat) (bytes : List UInt8)
    (g : Gathered) :
    (∃ nodes, ((inside .fail (visit .fail levels) scope offset bytes).result g).1 = .ok nodes) ↔
      (∃ nodes, ((inside .skip (visit .skip levels) scope offset bytes).result g).1 = .ok nodes) ∧
        unknownAmong (exposed levels) (Frame.all scope offset bytes).1 = [] := by
  rw [result_inside (follows_visit .fail levels _) scope offset bytes rfl,
    result_inside (follows_visit .skip levels _) scope offset bytes rfl,
    exists_outcome_eq_ok_iff, exists_outcome_eq_ok_iff]
  exact fault?_ofBytes_fail_iff levels _ scope offset bytes

theorem exists_build_eq_ok_iff (policy : UnknownBoxPolicy) (bytes : List UInt8) :
    (∃ parsed, (build policy bytes).result = .ok parsed) ↔ (ofFile policy bytes).fault? = none := by
  constructor
  · rintro ⟨parsed, h⟩
    exact (build_eq_ok_iff.1 h).1
  · exact fun h => ⟨⟨_, _, _⟩, build_eq_ok_iff.2 ⟨h, rfl, rfl, rfl⟩⟩

theorem knows_ofFile_iff {policy : UnknownBoxPolicy} {bytes : List UInt8} {parsed : Parsed}
    (h : (build policy bytes).result = .ok parsed) :
    (ofFile policy bytes).Knows ↔ ∀ w ∈ parsed.warnings, ¬ w.AboutUnknown := by
  obtain ⟨-, -, -, hwarnings⟩ := build_eq_ok_iff.1 h
  simp [hwarnings, Knows]

/-- **What the stricter policy accepts.**  It accepts a file exactly if the other does and no
unknown box is exposed in it: none that stands at the top level or has only critical containers
around it.  The same holds of the boxes inside any container at any depth, whether or not the
container may be dropped.  If the other policy had no unknown box to pass over, then the outcome is
the same; and only then do the two agree on a file that both accept. -/
theorem build_fail_iff (bytes : List UInt8) :
    let strict := (build .fail bytes).result
    let lenient := (build .skip bytes).result
    ((∃ parsed, strict = .ok parsed) ↔
      (∃ parsed, lenient = .ok parsed) ∧ exposedInFile bytes = []) ∧
    (∀ (levels : Nat) (scope : Scope) (offset : Nat) (payload : List UInt8) (g : Gathered),
      (∃ nodes, ((inside .fail (visit .fail levels) scope offset payload).result g).1 = .ok nodes) ↔
        (∃ nodes,
          ((inside .skip (visit .skip levels) scope offset payload).result g).1 = .ok nodes) ∧
        unknownAmong (exposed levels) (Frame.all scope offset payload).1 = []) ∧
    (∀ parsed, lenient = .ok parsed → (∀ w ∈ parsed.warnings, ¬ w.AboutUnknown) →
      strict = .ok parsed) ∧
    (∀ parsed parsed', strict = .ok parsed → lenient = .ok parsed' →
      (parsed = parsed' ↔ ∀ w ∈ parsed'.warnings, ¬ w.AboutUnknown)) ∧
    ∀ parsed, strict = .ok parsed → ∀ w ∈ parsed.warnings, ¬ w.AboutUnknown := by
  dsimp only
  have hagree (parsed : Parsed) (h : (build .skip bytes).result = .ok parsed)
      (hknows : ∀ w ∈ parsed.warnings, ¬ w.AboutUnknown) :
      (build .fail bytes).result = .ok parsed := by
    rw [build_eq_ok_iff, ofFile_fail_eq ((knows_ofFile_iff h).2 hknows)]
    exact build_eq_ok_iff.1 h
  have hstrict (parsed : Parsed) (h : (build .fail bytes).result = .ok parsed) :
      ∀ w ∈ parsed.warnings, ¬ w.AboutUnknown :=
    (knows_ofFile_iff h).1 (knows_ofFile_fail bytes)
  refine ⟨?_, exists_inside_fail_iff, hagree, fun parsed parsed' h h' => ⟨?_, fun hknows => ?_⟩,
    hstrict⟩
  · rw [exists_build_eq_ok_iff, exists_build_eq_ok_iff]
    exact fault?_ofBytes_fail_iff maxDepth false .topLevel 0 bytes
  · rintro rfl
    exact hstrict parsed h
  · exact Except.ok.inj (h.symm.trans (hagree parsed' h' hknows))

/-- A file with an unknown box inside the edits of a track. -/
def unknownInEdits : List UInt8 :=
  -- `moov`, `trak`, `edts` and `zzzz`
  [0, 0, 0, 32, 109, 111, 111, 118, 0, 0, 0, 24, 116, 114, 97, 107, 0, 0, 0, 16, 101, 100, 116, 115,
    0, 0, 0, 8, 122, 122, 122, 122]

/-- A file with an unknown box inside a track. -/
def unknownInTrack : List UInt8 :=
  -- `moov`, `trak` and `zzzz`
  [0, 0, 0, 24, 109, 111, 111, 118, 0, 0, 0, 16, 116, 114, 97, 107, 0, 0, 0, 8, 122, 122, 122, 122]

/-- An unknown box inside the edits is put up with, one directly inside the track is not. -/
theorem unknownInEdits_unexposed :
    (∃ parsed, (build .fail unknownInEdits).result = .ok parsed) ∧
      ¬ ∃ parsed, (build .fail unknownInTrack).result = .ok parsed := by
  constructor
  · obtain ⟨hiff, -⟩ := build_fail_iff unknownInEdits
    have hends : (ofFile .skip unknownInEdits).fault? = none := by decide +kernel
    exact hiff.2 ⟨(exists_build_eq_ok_iff .skip unknownInEdits).2 hends, by decide +kernel⟩
  · obtain ⟨hiff, -⟩ := build_fail_iff unknownInTrack
    intro haccepted
    have hexposed : exposedInFile unknownInTrack ≠ [] := by decide +kernel
    exact hexposed (hiff.1 haccepted).2

/-- The stricter policy accepts a file in which the other passes over an unknown box. -/
theorem not_strict_unknownInEdits :
    ¬ ((∃ parsed, (build .fail unknownInEdits).result = .ok parsed) ↔
      ∃ parsed, (build .skip unknownInEdits).result = .ok parsed ∧
        ∀ w ∈ parsed.warnings, ¬ w.AboutUnknown) := by
  have hends : (ofFile .fail unknownInEdits).fault? = none := by decide +kernel
  have hunknown : (ofFile .skip unknownInEdits).warnings =
      [unknownWarning ⟨.ofChars 'z' 'z' 'z' 'z', 24, 8, 8, []⟩] := by decide +kernel
  intro hiff
  obtain ⟨parsed, hparsed, hknows⟩ := hiff.1 ((exists_build_eq_ok_iff .fail unknownInEdits).2 hends)
  refine (knows_ofFile_iff hparsed).2 hknows _ (hunknown ▸ List.mem_cons_self) ⟨_, ?_, rfl⟩
  decide

end Tree

end IsoMedia
