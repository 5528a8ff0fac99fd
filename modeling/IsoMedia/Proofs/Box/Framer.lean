import IsoMedia.Proofs.Box.Grammar

/-!
# Asking for one box after the other

A `Framer` hands over the boxes of a run of bytes one at a time.  A request that fails leaves it as it
is, so that every later request fails in the same way.

* `Framer.answer_eq_all` : the requests are answered with the boxes that `Frame.all` cuts out.
* `Framer.yields_iff_splits` : the requests come to an end exactly if the bytes are written boxes, and
  how they are answered in every case.
-/

namespace IsoMedia

/-- A run of bytes that is cut into boxes from the front. -/
structure Framer where
  scope : Scope
  /-- Where the bytes that are left start in the file. -/
  offset : Nat
  /-- The bytes that are left. -/
  rest : List UInt8

namespace Framer

/-- Ask for the next box. -/
def next (r : Framer) : Except Error (Option Frame) × Framer :=
  match Frame.next? r.scope r.offset r.rest with
  | .error e => (.error e, r)
  | .ok none => (.ok none, { r with offset := r.offset + r.rest.length, rest := [] })
  | .ok (some (f, rest)) => (.ok (some f), { r with offset := r.offset + f.size, rest })

/-- The framer after so many requests. -/
def after (r : Framer) : Nat → Framer
  | 0 => r
  | k + 1 => r.next.2.after k

/-- The answer to a request that comes after so many others. -/
def answer (r : Framer) (k : Nat) : Except Error (Option Frame) := (r.after k).next.1

variable {scope : Scope} {offset : Nat} {bs rest : List UInt8}

theorem next_written {b : WrittenBox} (h : b.Fits) (hrest : b.MayPrecede scope rest)
    (offset : Nat) :
    next ⟨scope, offset, b.bytes ++ rest⟩ =
      (.ok (some (b.frame offset)), ⟨scope, offset + b.size, rest⟩) := by
  unfold next
  rw [Frame.next?_written h hrest]
  rfl

theorem next_of_filler (h : Filler scope bs) :
    next ⟨scope, offset, bs⟩ = (.ok none, ⟨scope, offset + bs.length, []⟩) := by
  unfold next
  rw [Frame.next?_of_filler h]

theorem next_of_faultAt {e : Error} (h : FaultAt scope bs e) :
    next ⟨scope, offset, bs⟩ = (.error e, ⟨scope, offset, bs⟩) := by
  unfold next
  rw [Frame.next?_of_faultAt h]

theorem answer_zero (r : Framer) : r.answer 0 = r.next.1 := rfl

theorem answer_succ (r : Framer) (k : Nat) : r.answer (k + 1) = r.next.2.answer k := rfl

theorem answer_of_filler (h : Filler scope bs) (k : Nat) :
    answer ⟨scope, offset, bs⟩ k = .ok none := by
  induction k generalizing offset bs with
  | zero => rw [answer_zero, next_of_filler h]
  | succ k ih =>
    rw [answer_succ, next_of_filler h]
    exact ih (.inl rfl)

/-- A fault does not move the framer on. -/
theorem after_of_faultAt {e : Error} (h : FaultAt scope bs e) (k : Nat) :
    after ⟨scope, offset, bs⟩ k = ⟨scope, offset, bs⟩ := by
  induction k with
  | zero => rfl
  | succ k ih => rw [after, next_of_faultAt h, ih]

/-- The requests for written boxes are answered with these, and leave what follows them. -/
theorem answers_spelled {boxes : List WrittenBox} (h : Spelled scope boxes rest) (offset : Nat) :
    (∀ (k : Nat) (f : Frame), (WrittenBox.frames offset boxes)[k]? = some f →
      answer ⟨scope, offset, WrittenBox.allBytes boxes ++ rest⟩ k = .ok (some f)) ∧
    ∀ k, after ⟨scope, offset, WrittenBox.allBytes boxes ++ rest⟩ (boxes.length + k) =
      after ⟨scope, offset + (WrittenBox.allBytes boxes).length, rest⟩ k := by
  induction boxes generalizing offset with
  | nil => exact ⟨nofun, fun k => by simp⟩
  | cons b boxes ih =>
    obtain ⟨hfits, hprecede, hrest⟩ := h
    obtain ⟨hanswers, hafter⟩ := ih hrest (offset + b.size)
    have hnext := next_written hfits hprecede offset
    rw [WrittenBox.allBytes_cons, List.append_assoc]
    constructor
    · intro k f hk
      cases k with
      | zero =>
        cases hk
        rw [answer_zero, hnext]
      | succ k =>
        rw [answer_succ, hnext]
        exact hanswers k f hk
    · intro k
      rw [List.length_cons, Nat.add_right_comm, after, hnext, hafter, List.length_append,
        WrittenBox.length_bytes, Nat.add_assoc]

section Splits

variable {boxes : List WrittenBox} (h : Splits scope bs boxes rest)

include h

theorem answer_of_frame {k : Nat} {f : Frame}
    (hk : (WrittenBox.frames offset boxes)[k]? = some f) :
    answer ⟨scope, offset, bs⟩ k = .ok (some f) := by
  obtain ⟨rfl, hspelled⟩ := h
  exact (answers_spelled hspelled offset).1 k f hk

theorem after_of_le (offset : Nat) {k : Nat} (hk : boxes.length ≤ k) :
    after ⟨scope, offset, bs⟩ k =
      after ⟨scope, offset + (WrittenBox.allBytes boxes).length, rest⟩ (k - boxes.length) := by
  obtain ⟨rfl, hspelled⟩ := h
  rw [← (answers_spelled hspelled offset).2, Nat.add_sub_cancel' hk]

/-- Behind the last box there is nothing. -/
theorem answer_of_end (hfiller : Filler scope rest) {k : Nat} (hk : boxes.length ≤ k) :
    answer ⟨scope, offset, bs⟩ k = .ok none := by
  unfold answer
  rw [after_of_le h offset hk]
  exact answer_of_filler hfiller _

/-- Behind the last box there is the same fault again and again. -/
theorem answer_of_fault {e : Error} (hfault : FaultAt scope rest e) {k : Nat}
    (hk : boxes.length ≤ k) :
    answer ⟨scope, offset, bs⟩ k = .error e ∧
      after ⟨scope, offset, bs⟩ k =
        ⟨scope, offset + (WrittenBox.allBytes boxes).length, rest⟩ := by
  have hafter := after_of_le h offset hk
  rw [after_of_faultAt hfault] at hafter
  refine ⟨?_, hafter⟩
  unfold answer
  rw [hafter, next_of_faultAt hfault]

end Splits

/-- **The requests are answered with the boxes that are cut out**, then with the end or the fault. -/
theorem answer_eq_all (r : Framer) (k : Nat) :
    r.answer k =
      match (Frame.all r.scope r.offset r.rest).1[k]?, (Frame.all r.scope r.offset r.rest).2 with
      | some f, _ => .ok (some f)
      | none, none => .ok none
      | none, some e => .error e := by
  obtain ⟨scope, offset, bs⟩ := r
  obtain ⟨boxes, rest, hsplits, hframes, hend⟩ := Frame.exists_splits scope offset bs
  dsimp only
  rw [hframes]
  cases hk : (WrittenBox.frames offset boxes)[k]? with
  | some f => exact answer_of_frame hsplits hk
  | none =>
    rw [List.getElem?_eq_none_iff, WrittenBox.length_frames] at hk
    rcases hend with ⟨hnone, hfiller⟩ | ⟨e, hsome, hfault⟩
    · rw [hnone]
      exact answer_of_end hsplits hfiller hk
    · rw [hsome]
      exact (answer_of_fault hsplits hfault hk).1

/-- So many boxes are handed over, and then the end is told. -/
def Yields (r : Framer) (frames : List Frame) : Prop :=
  (∀ (k : Nat) (f : Frame), frames[k]? = some f → r.answer k = .ok (some f)) ∧
    r.answer frames.length = .ok none

theorem yields_of_splits {boxes : List WrittenBox} (h : Splits scope bs boxes rest)
    (hfiller : Filler scope rest) :
    Yields ⟨scope, offset, bs⟩ (WrittenBox.frames offset boxes) :=
  ⟨fun _ _ => answer_of_frame h,
    answer_of_end h hfiller (Nat.le_of_eq (WrittenBox.length_frames _ _).symm)⟩

/-- There is one place only where the end is told for the first time. -/
theorem Yields.length_eq {r : Framer} {frames frames' : List Frame} (h : r.Yields frames)
    (h' : r.Yields frames') : frames.length = frames'.length := by
  have hle {frames frames' : List Frame} (h : r.Yields frames) (h' : r.Yields frames') :
      frames'.length ≤ frames.length := by
    by_contra hlt
    have hsome := h'.1 _ _ (List.getElem?_eq_getElem (Nat.lt_of_not_le hlt))
    rw [h.2] at hsome
    cases hsome
  exact Nat.le_antisymm (hle h' h) (hle h h')

theorem Yields.eq {r : Framer} {frames frames' : List Frame} (h : r.Yields frames)
    (h' : r.Yields frames') : frames = frames' := by
  refine List.ext_getElem (h.length_eq h') fun k hk hk' => ?_
  have hsome := h.1 k _ (List.getElem?_eq_getElem hk)
  rw [h'.1 k _ (List.getElem?_eq_getElem hk')] at hsome
  exact (Option.some.inj (Except.ok.inj hsome)).symm

/-- The end is never told if there is a fault. -/
theorem not_yields_of_fault {boxes : List WrittenBox} (h : Splits scope bs boxes rest) {e : Error}
    (hfault : FaultAt scope rest e) (frames : List Frame) :
    ¬ Yields ⟨scope, offset, bs⟩ frames := by
  rintro ⟨-, hend⟩
  by_cases hk : boxes.length ≤ frames.length
  · rw [(answer_of_fault h hfault hk).1] at hend
    cases hend
  · rw [← WrittenBox.length_frames offset] at hk
    rw [answer_of_frame h (List.getElem?_eq_getElem (Nat.lt_of_not_le hk))] at hend
    cases hend

/-- **The requests come to an end exactly if the bytes are written boxes.**  Whichever boxes the bytes
start with, these are handed over first.  A fault behind them is the answer to every further request
and leaves the framer where it is.  Bytes that are not boxes to their end have such a fault behind
the boxes that they start with. -/
theorem yields_iff_splits (scope : Scope) (base : Nat) (bs : List UInt8) :
    let r : Framer := ⟨scope, base, bs⟩
    (∀ frames, r.Yields frames ↔ ∃ boxes rest, Splits scope bs boxes rest ∧ Filler scope rest ∧
      frames = WrittenBox.frames base boxes) ∧
    (∀ boxes rest, Splits scope bs boxes rest →
      (∀ (k : Nat) (f : Frame), (WrittenBox.frames base boxes)[k]? = some f →
        r.answer k = .ok (some f)) ∧
      ∀ e, FaultAt scope rest e → ∀ k, boxes.length ≤ k →
        r.answer k = .error e ∧
        r.after k = ⟨scope, base + (WrittenBox.allBytes boxes).length, rest⟩) ∧
    ((¬ ∃ frames, r.Yields frames) →
      ∃ boxes rest e, Splits scope bs boxes rest ∧ FaultAt scope rest e) := by
  intro r
  obtain ⟨boxes, rest, hsplits, -, hend⟩ := Frame.exists_splits scope base bs
  refine ⟨fun frames => ⟨fun hyields => ?_, ?_⟩,
    fun _ _ h => ⟨fun _ _ => answer_of_frame h, fun _ hfault _ => answer_of_fault h hfault⟩,
    fun hnone => ?_⟩
  · rcases hend with ⟨-, hfiller⟩ | ⟨e, -, hfault⟩
    · exact ⟨boxes, rest, hsplits, hfiller, hyields.eq (yields_of_splits hsplits hfiller)⟩
    · exact absurd hyields (not_yields_of_fault hsplits hfault frames)
  · rintro ⟨boxes, rest, h, hfiller, rfl⟩
    exact yields_of_splits h hfiller
  · rcases hend with ⟨-, hfiller⟩ | ⟨e, -, hfault⟩
    · exact absurd ⟨_, yields_of_splits hsplits hfiller⟩ hnone
    · exact ⟨boxes, rest, e, hsplits, hfault⟩

end Framer

end IsoMedia
