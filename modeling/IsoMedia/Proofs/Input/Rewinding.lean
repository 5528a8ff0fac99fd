import IsoMedia.Proofs.Input.Plain
import IsoMedia.Proofs.Input.Reuse
import Mathlib.Data.List.Induction

/-!
# Reads from a block that was left behind

Large reads take bytes straight from the source once the block is used up, and leave the block
`Behind` the place where the source is.  That has no effect until a request for a new block is refused:
then the old block becomes readable again, at a place that is not that of its bytes.

* `Input.behind_run` : whatever is called and however the source answers, the block lies some number of
  bytes behind.
* `Input.fresh_or_reread` : where that shows, the last request to the source was for a block in a read,
  and was refused.  Requests to tell its place do not count.
* `Input.readExact_after_run` : which bytes a read hands over that succeeds.
-/

namespace IsoMedia

namespace Input

/-! ### Calls -/

/-- A call that is no read asks the source for no more than its place, or goes elsewhere and gives up
the block. -/
theorem call_cases (i : Input) (c : Call) :
    (∃ wanted, c = .readExact wanted) ∨ (i.call c).2 = i.later ∨
      ∃ source, i.source.Same source ∧ (i.call c).2 = ⟨source, .empty, 0⟩ := by
  have hsame := i.source.seek_same
  cases c with
  | readExact wanted => exact .inl ⟨wanted, rfl⟩
  | readAll =>
    refine .inr (.inr ?_)
    have hall : i.source.Same i.readAll.2.source := (readAll_spec rfl).1
    simp only [call, Prod.map, id]
    refine ⟨_, hall, ?_⟩
    unfold readAll Input.seek
    rcases i.source.seek (.start 0) with ⟨e | n, source⟩ <;> rfl
  | seek target => exact .inr (.inr ⟨_, hsame target, rfl⟩)
  | seekTo place =>
    simp only [call, Prod.map, id]
    rcases i.seekTo_cases place with
      ⟨reason, -, hseek⟩ | ⟨-, hseek⟩ | ⟨-, found, source, hgone, hseek⟩
    · exact .inr (.inl (congrArg Prod.snd hseek))
    · exact .inr (.inl (congrArg Prod.snd hseek))
    · have hthere := i.source.later.seek_same (.start place)
      rw [hgone] at hthere
      exact .inr (.inr ⟨source, i.source.same_later.trans hthere, congrArg Prod.snd hseek⟩)
  | position =>
    simp only [call, Prod.map, id]
    rcases i.tell_cases with htell | ⟨reason, -, htell⟩
    · exact .inr (.inl (congrArg Prod.snd htell))
    · exact .inr (.inl (congrArg Prod.snd htell))

theorem run_append (i : Input) (calls calls' : List Call) :
    (i.run (calls ++ calls')).2 = ((i.run calls).2.run calls').2 := by
  induction calls generalizing i with
  | nil => rfl
  | cons c calls ih => exact ih (i.call c).2

/-- The block ends so many bytes before the place where the source is. -/
structure Behind (i : Input) (lag : Nat) : Prop where
  taken_le : i.taken ≤ i.block.size
  inside : i.block.size + lag ≤ i.source.pos
  bytes : i.block =
    i.source.content.extract (i.source.pos - lag - i.block.size) (i.source.pos - lag)

variable {i i' : Input} {lag : Nat}

theorem behind_of_empty {source : Source} : Behind ⟨source, .empty, 0⟩ 0 :=
  ⟨Nat.le_refl _, Nat.zero_le _, ByteArray.extract_same.symm⟩

/-- A new block ends where the source is. -/
theorem behind_of_read {source source' : Source} {asked : Nat} {piece : ByteArray}
    (h : source.read asked = (.ok piece, source')) : Behind ⟨source', piece, 0⟩ 0 := by
  obtain ⟨hsame, hbytes⟩ := Source.read_eq_ok h
  obtain ⟨-, hpos, -, -⟩ := Source.read_of_ok h
  refine ⟨Nat.zero_le _, by dsimp only; omega, ?_⟩
  dsimp only
  rw [hsame.content, Nat.sub_zero, show source'.pos - piece.size = source.pos by omega]
  exact hbytes

theorem Fresh.behind (h : i.Fresh) (ha : 0 < i.ahead) : i.Behind 0 :=
  ⟨h.taken_le, h.block_le, h.anchored ha⟩

namespace Behind

theorem inRange (h : i.Behind lag) : i.InRange :=
  ⟨h.taken_le, by have := h.inside; omega⟩

/-- What is left of the block lies as far behind the position as the block behind the source. -/
theorem unread (h : i.Behind lag) {n : Nat} (hn : n ≤ i.ahead) :
    i.block.extract i.taken (i.taken + n) =
      i.source.content.extract (i.position - lag) (i.position - lag + n) := by
  obtain ⟨htaken, hinside, hbytes⟩ := h
  have hplace : i.source.pos - lag - i.block.size + i.taken = i.position - lag := by
    unfold position ahead
    omega
  rw [hbytes, ByteArray.extract_extract, hplace]
  congr 1
  unfold ahead at hn
  omega

/-! ### Steps -/

theorem take (h : i.Behind lag) {n : Nat} (hn : n ≤ i.ahead) :
    Behind { i with taken := i.taken + n } lag :=
  ⟨(h.inRange.take hn).1.taken_le, h.inside, h.bytes⟩

theorem rewind (h : i.Behind lag) : Behind { i with taken := 0 } lag :=
  ⟨Nat.zero_le _, h.inside, h.bytes⟩

theorem later (h : i.Behind lag) : i.later.Behind lag := ⟨h.taken_le, h.inside, h.bytes⟩

/-- The source moves on, and the block stays. -/
theorem move (h : i.Behind lag) {source : Source} (hsame : i.source.Same source) {n : Nat}
    (hpos : source.pos = i.source.pos + n) : Behind { i with source } (lag + n) := by
  have hinside := h.inside
  refine ⟨h.taken_le, by dsimp only; omega, ?_⟩
  have hlag : source.pos - (lag + n) = i.source.pos - lag := by omega
  dsimp only
  rw [hsame.content, hlag]
  exact h.bytes

end Behind

/-- A read leaves the block behind the source, or a new one at it. -/
theorem behind_readFrom (h : ∃ lag, i.Behind lag) (wanted : Nat) (got : ByteArray) :
    ∃ lag, (readFrom wanted got i).2.Behind lag := by
  fun_induction readFrom wanted got i with
  | case1 => exact h
  | case2 wanted got i hw ha n ih =>
    obtain ⟨lag, h⟩ := h
    exact ih ⟨lag, h.take (Nat.min_le_left _ _)⟩
  | case3 wanted got i hw ha hbig e source hread =>
    obtain ⟨lag, h⟩ := h
    obtain ⟨hsame, hpos⟩ := Source.read_eq_error hread
    exact ⟨lag, h.move (n := 0) hsame hpos⟩
  | case4 wanted got i hw ha hbig piece source hread hpiece =>
    obtain ⟨lag, h⟩ := h
    exact ⟨_, h.move (Source.read_eq_ok hread).1 (Source.read_of_ok hread).2.1⟩
  | case5 wanted got i hw ha hbig piece source hread hpiece ih =>
    -- What comes straight from the source leaves the block further behind.
    obtain ⟨lag, h⟩ := h
    exact ih ⟨_, h.move (Source.read_eq_ok hread).1 (Source.read_of_ok hread).2.1⟩
  | case6 wanted got i hw ha hsmall e source hread =>
    obtain ⟨lag, h⟩ := h
    obtain ⟨hsame, hpos⟩ := Source.read_eq_error hread
    exact ⟨lag, (h.move (n := 0) hsame hpos).rewind⟩
  | case7 wanted got i hw ha hsmall piece source hread hpiece => exact ⟨0, behind_of_read hread⟩
  | case8 wanted got i hw ha hsmall piece source hread hpiece ih =>
    exact ih ⟨0, behind_of_read hread⟩

theorem behind_call (h : ∃ lag, i.Behind lag) (c : Call) : ∃ lag, (i.call c).2.Behind lag := by
  rcases call_cases i c with ⟨wanted, rfl⟩ | hstays | ⟨source, -, hempty⟩
  · exact behind_readFrom h wanted .empty
  · obtain ⟨lag, h⟩ := h
    exact ⟨lag, hstays.symm ▸ h.later⟩
  · exact ⟨0, hempty.symm ▸ behind_of_empty⟩

theorem behind_run (h : ∃ lag, i.Behind lag) (calls : List Call) :
    ∃ lag, (i.run calls).2.Behind lag := by
  induction calls generalizing i with
  | nil => exact h
  | cons c calls ih => exact ih (behind_call h c)

theorem same_call (h : i.InRange) (c : Call) : i.source.Same (i.call c).2.source := by
  rcases call_cases i c with ⟨wanted, rfl⟩ | hstays | ⟨source, hsame, hempty⟩
  · cases hread : i.readExact wanted with
    | mk outcome i' =>
      simp only [call, hread, Prod.map, id]
      cases outcome with
      | ok data => exact (readExact_eq_ok h hread).1
      | error e => exact (readFrom_eq_error h hread).1
  · rw [hstays]
    exact i.source.same_later
  · rw [hempty]
    exact hsame

theorem same_run (h : ∃ lag, i.Behind lag) (calls : List Call) :
    i.source.Same (i.run calls).2.source := by
  induction calls generalizing i with
  | nil => exact .refl _
  | cons c calls ih =>
    obtain ⟨lag, hlag⟩ := h
    exact (same_call hlag.inRange c).trans (ih (behind_call ⟨lag, hlag⟩ c))

/-! ### Which calls show that a block is behind -/

/-- Between the two the source was asked for nothing but its place. -/
def Waited (s s' : Source) : Prop := ∃ n, s' = { s with clock := s.clock + n }

theorem Waited.refl (s : Source) : Waited s s := ⟨0, rfl⟩

theorem waited_later (s : Source) : Waited s s.later := ⟨1, rfl⟩

theorem Waited.trans {s s' s'' : Source} (h : Waited s s') (h' : Waited s' s'') : Waited s s'' := by
  obtain ⟨n, rfl⟩ := h
  obtain ⟨n', rfl⟩ := h'
  exact ⟨n + n', by rw [Nat.add_assoc]⟩

/-- The last request to the source but for its place was made by a read that needed a new block.  It
was refused, and the block from before that read became readable again. -/
def Reread (start : Input) (calls : List Call) : Prop :=
  ∃ earlier wanted later, calls = earlier ++ .readExact wanted :: later ∧
    ∃ reason after, (start.run earlier).2.readExact wanted = (.error (.io reason), after) ∧
      after.block = (start.run earlier).2.block ∧ after.taken = 0 ∧
      Waited after.source (start.run calls).2.source ∧ (start.run calls).2.block = after.block

/-- The read may be followed by calls that ask the source for no more than its place. -/
theorem Reread.snoc {start : Input} {calls : List Call} (h : Reread start calls) {c : Call}
    (hsource : Waited (start.run calls).2.source (start.run (calls ++ [c])).2.source)
    (hblock : (start.run (calls ++ [c])).2.block = (start.run calls).2.block) :
    Reread start (calls ++ [c]) := by
  obtain ⟨earlier, wanted, later, rfl, reason, after, hread, hkept, htaken, hsource', hblock'⟩ := h
  exact ⟨earlier, wanted, later ++ [c], by simp, reason, after, hread, hkept, htaken,
    hsource'.trans hsource, hblock.trans hblock'⟩

/-- A read that wants no more than is left of the block takes it from there. -/
theorem readExact_of_le_ahead {wanted : Nat} (h : wanted ≤ i.ahead) :
    i.readExact wanted =
      (.ok (i.block.extract i.taken (i.taken + wanted)), { i with taken := i.taken + wanted }) := by
  unfold readExact
  by_cases hnone : wanted = 0
  · rw [hnone, readFrom, if_pos rfl, Nat.add_zero, ByteArray.extract_same]
  · rw [readFrom, if_neg hnone, if_pos (by omega)]
    dsimp only
    rw [Nat.min_eq_right h, Nat.sub_self, readFrom, if_pos rfl, ByteArray.empty_append]

/-- A read that finds nothing left of the block takes what it wants from a new one. -/
theorem readExact_of_read {wanted : Nat} (ha : i.ahead = 0) (hw : wanted ≠ 0)
    (hsmall : wanted < blockSize) {piece : ByteArray} {source : Source}
    (hread : i.source.read blockSize = (.ok piece, source)) (hle : wanted ≤ piece.size) :
    i.readExact wanted = (.ok (piece.extract 0 wanted), ⟨source, piece, wanted⟩) := by
  have hnew := readExact_of_le_ahead (i := ⟨source, piece, 0⟩) hle
  rw [Nat.zero_add] at hnew
  rw [readExact, readFrom, if_neg hw, if_neg (by omega), if_neg (by omega), hread]
  dsimp only
  rw [if_neg (by omega)]
  exact hnew

/-- A read leaves a fresh block, or what was there, or it is refused a new block itself. -/
theorem fresh_or_reread_readExact {start : Input} {calls : List Call} (wanted : Nat)
    (hrange : (start.run calls).2.InRange)
    (h : (start.run calls).2.Fresh ∨ Reread start calls) :
    (start.run (calls ++ [.readExact wanted])).2.Fresh ∨
      Reread start (calls ++ [.readExact wanted]) := by
  cases hread : (start.run calls).2.readExact wanted with
  | mk outcome i' =>
    have hlast : (start.run (calls ++ [.readExact wanted])).2 = i' := by
      rw [run_append, run, call, hread]
      rfl
    cases outcome with
    | ok data =>
      obtain ⟨-, -, -, hfresh⟩ := readExact_eq_ok hrange hread
      by_cases hless : wanted < (start.run calls).2.ahead
      · -- The read does not get to the end of the block.
        have hleft := readExact_of_le_ahead (Nat.le_of_lt hless)
        rw [hread] at hleft
        obtain ⟨-, rfl⟩ := Prod.mk.inj hleft
        refine h.imp (fun hf => hlast ▸ hfresh (.inr hf)) fun hr => hr.snoc ?_ ?_
        · rw [hlast]
          exact .refl _
        · rw [hlast]
      · exact .inl (hlast ▸ hfresh (.inl (Nat.le_of_not_lt hless)))
    | error e =>
      obtain ⟨-, -, hfresh | hrewound⟩ := readFrom_eq_error hrange hread
      · exact .inl (hlast ▸ hfresh)
      · obtain ⟨reason, rfl⟩ := hrewound.refused
        refine .inr ⟨calls, wanted, [], rfl, reason, i', hread, hrewound.block, hrewound.taken, ?_, ?_⟩
        · rw [hlast]
          exact .refl _
        · rw [hlast]

/-- **A block that is behind shows only in reads after a refusal.** -/
theorem fresh_or_reread (source : Source) (calls : List Call) :
    (run ⟨source, .empty, 0⟩ calls).2.Fresh ∨ Reread ⟨source, .empty, 0⟩ calls := by
  -- The induction is on the calls from the last one on, which decides what there is to be shown.
  induction calls using List.reverseRecOn with
  | nil => exact .inl fresh_of_empty
  | append_singleton calls c ih =>
    have hstep : (run ⟨source, .empty, 0⟩ (calls ++ [c])).2 =
        ((run ⟨source, .empty, 0⟩ calls).2.call c).2 := run_append _ calls [c]
    obtain ⟨lag, hbehind⟩ := behind_run ⟨0, behind_of_empty⟩ calls
    rcases call_cases (run ⟨source, .empty, 0⟩ calls).2 c with
      ⟨wanted, rfl⟩ | hstays | ⟨source', -, hempty⟩
    · exact fresh_or_reread_readExact wanted hbehind.inRange ih
    · have hlast := hstep.trans hstays
      refine ih.imp (fun hf => hlast ▸ hf.later) fun hr => hr.snoc ?_ ?_
      · rw [hlast]
        exact waited_later _
      · rw [hlast]
        rfl
    · rw [hstep, hempty]
      exact .inl fresh_of_empty

/-! ### What reads hand over -/

/-- What is left of the block comes first, and then the bytes that come next. -/
theorem Behind.readExact_eq_ok (h : i.Behind lag) {wanted : Nat} {data : ByteArray}
    (hread : i.readExact wanted = (.ok data, i')) :
    data = i.source.content.extract (i.position - lag) (i.position - lag + min i.ahead wanted) ++
      i.source.content.extract (i.position + min i.ahead wanted) (i.position + wanted) := by
  obtain ⟨-, -, rfl, -⟩ := Input.readExact_eq_ok h.inRange hread
  rw [h.unread (Nat.min_le_left _ _)]
  have hplace := h.inRange.position_add_ahead
  congr 1
  by_cases hw : wanted ≤ i.ahead
  · rw [Nat.min_eq_right hw, Nat.sub_eq_zero_of_le hw, Nat.add_zero, ByteArray.extract_same,
      ByteArray.extract_same]
  · rw [Nat.min_eq_left (by omega), hplace]
    congr 1
    omega

/-- Where something is left of the block and it is not at its place, it was taken up again. -/
theorem behind_or_reread (source : Source) (calls : List Call) :
    let i := (run ⟨source, .empty, 0⟩ calls).2
    ∃ lag, i.Behind lag ∧ (0 < i.ahead → 0 < lag → Reread ⟨source, .empty, 0⟩ calls) := by
  intro i
  obtain ⟨lag, hbehind⟩ := behind_run ⟨0, behind_of_empty⟩ calls
  rcases fresh_or_reread source calls with hfresh | hreread
  · by_cases ha : 0 < i.ahead
    · -- The block may happen to hold the bytes of other places too.
      exact ⟨0, hfresh.behind ha, fun _ hlag => absurd hlag (Nat.lt_irrefl 0)⟩
    · exact ⟨lag, hbehind, fun h => absurd h ha⟩
  · exact ⟨lag, hbehind, fun _ _ => hreread⟩

/-- **What a read hands over after any calls**, from a source that may hand over fewer bytes than it
was asked for and refuse any request.  What is taken from the block lies `lag` bytes before its place.
If there is anything to take and the lag is not zero, then the source was asked last, but for its
place, by a read that was refused a new block. -/
theorem readExact_after_run (source : Source) (calls : List Call) :
    let i := (run ⟨source, .empty, 0⟩ calls).2
    ∃ lag, i.Behind lag ∧ (0 < i.ahead → 0 < lag → Reread ⟨source, .empty, 0⟩ calls) ∧
      ∀ wanted data i', i.readExact wanted = (.ok data, i') →
        let reused := source.content.extract (i.position - lag)
          (i.position - lag + min i.ahead wanted)
        data.size = wanted ∧
        data = reused ++
          source.content.extract (i.position + min i.ahead wanted) (i.position + wanted) ∧
        (data = source.content.extract i.position (i.position + wanted) ↔
          reused = source.content.extract i.position (i.position + min i.ahead wanted)) := by
  intro i
  have hsame : source.Same i.source := same_run ⟨0, behind_of_empty⟩ calls
  obtain ⟨lag, hbehind, hshows⟩ := behind_or_reread source calls
  refine ⟨lag, hbehind, hshows, fun wanted data i' hread => ?_⟩
  dsimp only
  rw [← hsame.content]
  refine ⟨?_, hbehind.readExact_eq_ok hread, ?_⟩
  · rw [size_of_readFrom hread, ByteArray.size_empty, Nat.zero_add]
  · rw [readExact_eq_iff hbehind.inRange hread, hbehind.unread (Nat.min_le_left _ _)]

/-- A source that hands over two bytes at most, and refuses to when it is at place 4 or behind. -/
def refusingAtFour : Source where
  content := ⟨#[10, 11, 12, 13, 14]⟩
  onRead _ pos _ := if 4 ≤ pos then .fail "refused" else .atMost 2

/-- Two bytes are read, and then too many: two of them come straight from the source, before the
request for a block is refused. -/
def interruptedCalls : List Call := [.readExact 2, .readExact blockSize]

/-- What the first of them leaves: a block that is used up, with the source at its end. -/
def usedUp : Input := ⟨{ refusingAtFour with pos := 2, clock := 1 }, ⟨#[10, 11]⟩, 2⟩

/-- What both of them leave: the source is at place 4, and the block is that of the first two bytes. -/
def interrupted : Input := ⟨{ refusingAtFour with pos := 4, clock := 3 }, ⟨#[10, 11]⟩, 0⟩

theorem run_interruptedCalls :
    (run ⟨refusingAtFour, .empty, 0⟩ interruptedCalls).2 = interrupted := by
  have hfirst : (⟨refusingAtFour, .empty, 0⟩ : Input).readExact 2 = (_, usedUp) :=
    readExact_of_read rfl (by decide) (by decide)
      (show refusingAtFour.read blockSize = _ from rfl) (by decide)
  have hdirect : usedUp.source.read blockSize =
      (.ok ⟨#[12, 13]⟩, { refusingAtFour with pos := 4, clock := 2 }) := rfl
  have hsecond : (usedUp.readExact blockSize).2 = interrupted := by
    rw [readExact, readFrom, if_neg (by decide), if_neg (by decide), if_pos (by decide), hdirect]
    dsimp only
    -- What is still wanted is less than a block.
    rw [if_neg (by decide), readFrom, if_neg (by decide), if_neg (by decide), if_neg (by decide)]
    rfl
  rw [interruptedCalls, run, call, hfirst]
  exact hsecond

theorem readExact_interrupted :
    interrupted.readExact 2 = (.ok ⟨#[10, 11]⟩, { interrupted with taken := 2 }) :=
  readExact_of_le_ahead (by decide)

/-- The next read starts at place 2, and hands over the first two bytes again. -/
theorem refusingAtFour_reread :
    let i := (run ⟨refusingAtFour, .empty, 0⟩ interruptedCalls).2
    i.position = 2 ∧ (i.readExact 2).1 = .ok ⟨#[10, 11]⟩ ∧
      refusingAtFour.content.extract 2 4 = ⟨#[12, 13]⟩ := by
  rw [run_interruptedCalls]
  dsimp only
  rw [readExact_interrupted]
  exact ⟨rfl, rfl, rfl⟩

theorem refusingAtFour_behind :
    let i := (run ⟨refusingAtFour, .empty, 0⟩ interruptedCalls).2
    ∃ lag, 0 < lag ∧ i.Behind lag ∧ Reread ⟨refusingAtFour, .empty, 0⟩ interruptedCalls ∧
      (i.readExact 2).1 =
        .ok (refusingAtFour.content.extract (i.position - lag) (i.position - lag + 2)) := by
  obtain ⟨lag, hbehind, hreread, hreads⟩ := readExact_after_run refusingAtFour interruptedCalls
  rw [run_interruptedCalls] at hbehind hreread hreads ⊢
  obtain ⟨-, hdata, hplace⟩ := hreads 2 _ _ readExact_interrupted
  have hnext : refusingAtFour.content.extract (interrupted.position + min interrupted.ahead 2)
      (interrupted.position + 2) = .empty := rfl
  have hlag : 0 < lag := by
    refine Nat.pos_of_ne_zero fun hzero => ?_
    subst hzero
    exact absurd (hplace.2 rfl) (by decide)
  refine ⟨lag, hlag, hbehind, hreread (by decide) hlag, ?_⟩
  rw [hnext, ByteArray.append_empty] at hdata
  rw [readExact_interrupted]
  exact congrArg Except.ok hdata

end Input

end IsoMedia
