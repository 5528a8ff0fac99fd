import IsoMedia.Proofs.Input.Rewinding

/-!
# Going elsewhere with bytes at hand

A source is ahead of its input by what is left of the block, and the block is given up before the
source is asked to go elsewhere.

* `Input.seek_current_after_run` : a distance from the present place is counted from the place of the
  source.
* `Input.seek_refused_after_run` : a target that is refused moves the input to the place of the source,
  and whether that shows in anything that is called later.

In both, the place is right if and only if nothing is left of the block.
-/

namespace IsoMedia

namespace Source

/-- A source that answers every request, and does not count them. -/
structure Reliable (s : Source) : Prop extends s.Obliging where
  uncounted : ∀ clock clock' pos asked, s.onRead clock pos asked = s.onRead clock' pos asked

theorem reliable_ofBytes (content : ByteArray) : (ofBytes content).Reliable :=
  ⟨obliging_ofBytes content, fun _ _ _ _ => rfl⟩

theorem Reliable.of_same {s s' : Source} (h : s.Reliable) (hs : s.Same s') : s'.Reliable :=
  ⟨h.toObliging.of_same hs, hs.onRead ▸ h.uncounted⟩

theorem Obliging.seek_eq_error {s : Source} (h : s.Obliging) {target : Target}
    (hout : ¬ (0 ≤ s.aim target ∧ s.aim target < placeBound)) :
    s.seek target = (.error (.io "seek 到负偏移"), { s with clock := s.clock + 1 }) := by
  unfold seek
  rw [h.seeks]
  exact if_neg hout

/-- Two sources with the same bytes at the same place, which answer alike. -/
structure Twins (s t : Source) : Prop where
  content : t.content = s.content
  pos : t.pos = s.pos
  onRead : t.onRead = s.onRead
  onSeek : t.onSeek = s.onSeek
  onTell : t.onTell = s.onTell

variable {s t : Source}

theorem Twins.reliable (h : s.Twins t) (hs : s.Reliable) : t.Reliable :=
  hs.of_same ⟨h.content, h.onRead, h.onSeek, h.onTell⟩

theorem Twins.later (h : s.Twins t) : s.later.Twins t.later :=
  ⟨h.content, h.pos, h.onRead, h.onSeek, h.onTell⟩

/-- What one of them hands over the other does too. -/
theorem Twins.read (h : s.Twins t) (hs : s.Reliable) {asked : Nat} (ha : 0 < asked)
    {piece : ByteArray} {s' : Source} (hread : s.read asked = (.ok piece, s')) :
    ∃ t', t.read asked = (.ok piece, t') ∧ s'.Twins t' ∧ s'.Reliable := by
  obtain ⟨n, -, hanswer⟩ := hs.reads s.clock s.pos asked ha
  obtain ⟨hcontent, hpos, honRead, honSeek, honTell⟩ := h
  have hreply : t.onRead t.clock t.pos asked = .atMost n := by
    rw [honRead, hpos, ← hanswer]
    exact hs.uncounted _ _ _ _
  have hslice : t.slice s.pos (s.pos + min asked n) = s.slice s.pos (s.pos + min asked n) := by
    unfold slice
    rw [hcontent]
  unfold Source.read at hread ⊢
  rw [hanswer] at hread
  cases hread
  rw [hreply]
  dsimp only
  rw [hpos, hslice]
  exact ⟨_, rfl, ⟨hcontent, rfl, honRead, honSeek, honTell⟩, hs.of_same ⟨rfl, rfl, rfl, rfl⟩⟩

theorem Twins.seek (h : s.Twins t) (hs : s.Reliable) (target : Target) :
    (t.seek target).1 = (s.seek target).1 ∧ (s.seek target).2.Twins (t.seek target).2 := by
  have ht := h.reliable hs
  obtain ⟨hcontent, hpos, honRead, honSeek, honTell⟩ := h
  have haim : t.aim target = s.aim target := by
    cases target with
    | start n => rfl
    | current d => exact congrArg (fun n : Nat => (n : Int) + d) hpos
    | stop d => exact congrArg (fun b : ByteArray => (b.size : Int) + d) hcontent
  unfold Source.seek
  rw [hs.seeks, ht.seeks]
  dsimp only
  rw [haim]
  split
  · exact ⟨rfl, hcontent, rfl, honRead, honSeek, honTell⟩
  · exact ⟨rfl, hcontent, hpos, honRead, honSeek, honTell⟩

end Source

namespace Input

variable {i j : Input}

/-! ### Inputs that cannot be told apart -/

/-- Two inputs over twins that have the same left of their blocks. -/
structure Alike (i j : Input) : Prop where
  source : i.source.Twins j.source
  reliable : i.source.Reliable
  block : i.ahead = 0 ∧ j.ahead = 0 ∨ j.block = i.block ∧ j.taken = i.taken

theorem Alike.ahead_eq (h : i.Alike j) : j.ahead = i.ahead := by
  rcases h.block with ⟨hi, hj⟩ | ⟨hblock, htaken⟩
  · rw [hi, hj]
  · unfold ahead
    rw [hblock, htaken]

theorem Alike.position_eq (h : i.Alike j) : j.position = i.position := by
  unfold position
  rw [h.source.pos, h.ahead_eq]

theorem Alike.later (h : i.Alike j) : i.later.Alike j.later :=
  ⟨h.source.later, h.reliable.of_same i.source.same_later, h.block⟩

theorem Alike.tell_eq (h : i.Alike j) :
    i.tell = (.ok i.position, i.later) ∧ j.tell = (.ok i.position, j.later) := by
  refine ⟨tell_of_obliging h.reliable.toObliging, ?_⟩
  rw [tell_of_obliging (h.source.reliable h.reliable).toObliging, h.position_eq]

theorem drain_of_read {s s' : Source} {piece got : ByteArray}
    (h : s.read blockSize = (.ok piece, s')) :
    drain s got = if piece.size = 0 then (.ok got, s') else drain s' (got ++ piece) := by
  rw [drain]
  split
  · rename_i hread
    cases h.symm.trans hread
  · rename_i hread
    cases h.symm.trans hread
    rfl

theorem alike_readFrom (wanted : Nat) (got : ByteArray) (i : Input) :
    ∀ j, i.Alike j → (readFrom wanted got j).1 = (readFrom wanted got i).1 ∧
      (readFrom wanted got i).2.Alike (readFrom wanted got j).2 := by
  fun_induction readFrom wanted got i with
  | case1 got i =>
    intro j h
    rw [readFrom, if_pos rfl]
    exact ⟨rfl, h⟩
  | case2 wanted got i hw ha n ih =>
    intro j h
    have hahead := h.ahead_eq
    obtain ⟨hblock, htaken⟩ := h.block.resolve_left fun hzero => by omega
    rw [readFrom, if_neg hw, if_pos (by omega)]
    dsimp only
    rw [hahead, hblock, htaken]
    exact ih _ ⟨h.source, h.reliable, .inr ⟨rfl, rfl⟩⟩
  | case3 wanted got i hw ha hbig e source hread =>
    intro j h
    exact absurd hread (h.reliable.read_ne_error (Nat.pos_of_ne_zero hw))
  | case4 wanted got i hw ha hbig piece source hread hpiece =>
    intro j h
    have hahead := h.ahead_eq
    obtain ⟨source', hread', htwins, hreliable⟩ :=
      h.source.read h.reliable (Nat.pos_of_ne_zero hw) hread
    rw [readFrom, if_neg hw, if_neg (by omega), if_pos hbig, hread']
    dsimp only
    rw [if_pos hpiece]
    exact ⟨rfl, htwins, hreliable, h.block⟩
  | case5 wanted got i hw ha hbig piece source hread hpiece ih =>
    intro j h
    have hahead := h.ahead_eq
    obtain ⟨source', hread', htwins, hreliable⟩ :=
      h.source.read h.reliable (Nat.pos_of_ne_zero hw) hread
    rw [readFrom, if_neg hw, if_neg (by omega), if_pos hbig, hread']
    dsimp only
    rw [if_neg hpiece]
    exact ih _ ⟨htwins, hreliable, h.block⟩
  | case6 wanted got i hw ha hsmall e source hread =>
    intro j h
    exact absurd hread (h.reliable.read_ne_error (show 0 < blockSize by decide))
  | case7 wanted got i hw ha hsmall piece source hread hpiece =>
    intro j h
    have hahead := h.ahead_eq
    obtain ⟨source', hread', htwins, hreliable⟩ :=
      h.source.read h.reliable (show 0 < blockSize by decide) hread
    rw [readFrom, if_neg hw, if_neg (by omega), if_neg hsmall, hread']
    dsimp only
    rw [if_pos hpiece]
    exact ⟨rfl, htwins, hreliable, .inr ⟨rfl, rfl⟩⟩
  | case8 wanted got i hw ha hsmall piece source hread hpiece ih =>
    intro j h
    have hahead := h.ahead_eq
    obtain ⟨source', hread', htwins, hreliable⟩ :=
      h.source.read h.reliable (show 0 < blockSize by decide) hread
    rw [readFrom, if_neg hw, if_neg (by omega), if_neg hsmall, hread']
    dsimp only
    rw [if_neg hpiece]
    exact ih _ ⟨htwins, hreliable, .inr ⟨rfl, rfl⟩⟩

theorem twins_drain (s : Source) (got : ByteArray) :
    ∀ t, s.Twins t → s.Reliable → (drain t got).1 = (drain s got).1 ∧
      (drain s got).2.Twins (drain t got).2 := by
  fun_induction drain s got with
  | case1 s got e s' hread =>
    intro t h hs
    exact absurd hread (hs.read_ne_error (show 0 < blockSize by decide))
  | case2 s got piece s' hread hpiece =>
    intro t h hs
    obtain ⟨t', hread', htwins, -⟩ := h.read hs (show 0 < blockSize by decide) hread
    rw [drain_of_read hread', if_pos hpiece]
    exact ⟨rfl, htwins⟩
  | case3 s got piece s' hread hpiece ih =>
    intro t h hs
    obtain ⟨t', hread', htwins, hreliable⟩ :=
      h.read hs (show 0 < blockSize by decide) hread
    rw [drain_of_read hread', if_neg hpiece]
    exact ih t' htwins hreliable

theorem alike_seek (h : i.Alike j) (target : Target) :
    (j.seek target).1 = (i.seek target).1 ∧ (i.seek target).2.Alike (j.seek target).2 := by
  obtain ⟨hplace, htwins⟩ := h.source.seek h.reliable target
  exact ⟨hplace, htwins, h.reliable.of_same (i.source.seek_same target), .inl ⟨rfl, rfl⟩⟩

theorem alike_seekTo (h : i.Alike j) (place : Nat) :
    (j.seekTo place).1 = (i.seekTo place).1 ∧ (i.seekTo place).2.Alike (j.seekTo place).2 := by
  obtain ⟨hplace, hleft⟩ := alike_seek h.later (.start place)
  obtain ⟨htell, htell'⟩ := h.tell_eq
  unfold Input.seekTo
  rw [htell, htell']
  dsimp only
  split
  · exact ⟨rfl, h.later⟩
  · exact ⟨congrArg (Except.map fun _ => true) hplace, hleft⟩

theorem alike_readAll (h : i.Alike j) :
    j.readAll.1 = i.readAll.1 ∧ i.readAll.2.Alike j.readAll.2 := by
  obtain ⟨hplace, hleft⟩ := alike_seek h (.start 0)
  unfold readAll
  rcases hi : i.seek (.start 0) with ⟨place, i'⟩
  rcases hj : j.seek (.start 0) with ⟨place', j'⟩
  rw [hi, hj] at hplace hleft
  obtain rfl : place' = place := hplace
  cases place' with
  | error e => exact ⟨rfl, hleft⟩
  | ok n =>
    obtain ⟨hdrained, htwins⟩ := twins_drain i'.source .empty j'.source hleft.source hleft.reliable
    exact ⟨hdrained, htwins, hleft.reliable.of_same (drain_same _ _), hleft.block⟩

/-- **No call tells them apart.** -/
theorem alike_call (h : i.Alike j) (c : Call) :
    (j.call c).1 = (i.call c).1 ∧ (i.call c).2.Alike (j.call c).2 := by
  cases c with
  | readExact wanted =>
    obtain ⟨hbytes, hleft⟩ := alike_readFrom wanted .empty i j h
    exact ⟨congrArg Answer.bytes hbytes, hleft⟩
  | readAll =>
    obtain ⟨hbytes, hleft⟩ := alike_readAll h
    exact ⟨congrArg Answer.bytes hbytes, hleft⟩
  | seek target =>
    obtain ⟨hplace, hleft⟩ := alike_seek h target
    exact ⟨congrArg Answer.place hplace, hleft⟩
  | seekTo place =>
    obtain ⟨hmoved, hleft⟩ := alike_seekTo h place
    exact ⟨congrArg Answer.moved hmoved, hleft⟩
  | position =>
    obtain ⟨htell, htell'⟩ := h.tell_eq
    simp only [call, htell, htell', Prod.map, id, true_and]
    exact h.later

theorem alike_run (h : i.Alike j) (calls : List Call) : (j.run calls).1 = (i.run calls).1 := by
  induction calls generalizing i j with
  | nil => rfl
  | cons c calls ih =>
    obtain ⟨hanswer, hleft⟩ := alike_call h c
    simp only [run, Prod.map, id]
    rw [hanswer, ih hleft]

/-! ### Places to go to -/

/-- Whatever was called on a new input, its source is ahead by what is left of the block. -/
theorem pos_after_run (source : Source) (calls : List Call) :
    (run ⟨source, .empty, 0⟩ calls).2.source.pos =
      (run ⟨source, .empty, 0⟩ calls).2.position + (run ⟨source, .empty, 0⟩ calls).2.ahead := by
  obtain ⟨lag, hbehind⟩ := behind_run ⟨0, behind_of_empty⟩ calls
  exact hbehind.inRange.position_add_ahead.symm

theorem seek_eq_ok (ho : i.source.Obliging) {target : Target} (hlo : 0 ≤ i.source.aim target)
    (hhi : i.source.aim target < Source.placeBound) :
    ∃ i', i.seek target = (.ok (i.source.aim target).toNat, i') ∧
      (i'.position : Int) = i.source.aim target := by
  obtain ⟨source, hseek, hpos⟩ := ho.seek_eq_ok target hlo hhi
  refine ⟨⟨source, .empty, 0⟩, by rw [Input.seek, hseek], ?_⟩
  rw [position_of_used_up rfl, hpos]
  exact Int.toNat_of_nonneg hlo

/-- A target that is refused costs what was left of the block. -/
theorem seek_eq_error (ho : i.source.Obliging) {target : Target}
    (hout : ¬ (0 ≤ i.source.aim target ∧ i.source.aim target < Source.placeBound)) :
    i.seek target = (.error (.io "seek 到负偏移"),
      ⟨{ i.source with clock := i.source.clock + 1 }, .empty, 0⟩) := by
  rw [Input.seek, ho.seek_eq_error hout]

/-- **A distance from the present place is counted from the place of the source**, which is ahead by
what is left of the block. -/
theorem seek_current_after_run {source : Source} (ho : source.Obliging) (calls : List Call)
    (d : Int) :
    let i := (run ⟨source, .empty, 0⟩ calls).2
    let reached : Int := i.position + i.ahead + d
    (0 ≤ reached ∧ reached < Source.placeBound →
      ∃ i', i.seek (.current d) = (.ok reached.toNat, i') ∧ (i'.position : Int) = reached) ∧
    (¬ (0 ≤ reached ∧ reached < Source.placeBound) →
      ∃ i', i.seek (.current d) = (.error (.io "seek 到负偏移"), i')) ∧
    (0 ≤ i.position + d →
      ((∃ i', i.seek (.current d) = (.ok (i.position + d).toNat, i') ∧
        (i'.position : Int) = i.position + d) ↔
      i.ahead = 0 ∧ i.position + d < Source.placeBound)) := by
  intro i reached
  have ho : i.source.Obliging := ho.of_same (same_run ⟨0, behind_of_empty⟩ calls)
  have haim : i.source.aim (.current d) = reached := by
    have hpos : i.source.pos = i.position + i.ahead := pos_after_run source calls
    show (i.source.pos : Int) + d = i.position + i.ahead + d
    omega
  have hreached : 0 ≤ reached ∧ reached < Source.placeBound →
      ∃ i', i.seek (.current d) = (.ok reached.toNat, i') ∧ (i'.position : Int) = reached := by
    rintro ⟨hlo, hhi⟩
    rw [← haim] at hlo hhi ⊢
    exact seek_eq_ok ho hlo hhi
  have hrefused : ¬ (0 ≤ reached ∧ reached < Source.placeBound) →
      ∃ i', i.seek (.current d) = (.error (.io "seek 到负偏移"), i') := by
    intro hout
    rw [← haim] at hout
    exact ⟨_, seek_eq_error ho hout⟩
  refine ⟨hreached, hrefused, fun hd => ⟨?_, ?_⟩⟩
  · rintro ⟨i', hseek, hplace⟩
    by_cases hin : 0 ≤ reached ∧ reached < Source.placeBound
    · obtain ⟨i'', hseek', hplace'⟩ := hreached hin
      rw [hseek] at hseek'
      obtain ⟨-, rfl⟩ := Prod.mk.inj hseek'
      omega
    · obtain ⟨i'', hseek'⟩ := hrefused hin
      rw [hseek] at hseek'
      cases hseek'
  · rintro ⟨hahead, hbound⟩
    have heq : reached = i.position + d := by omega
    rw [← heq] at hd hbound ⊢
    exact hreached ⟨hd, hbound⟩

/-- A source that hands over all of its five bytes at once. -/
def fiveBytes : Source := .ofBytes ⟨#[10, 11, 12, 13, 14]⟩

/-- What a read of one byte leaves: the source is at its end, and four bytes are left of the block. -/
def fourAhead : Input := ⟨{ fiveBytes with pos := 5, clock := 1 }, ⟨#[10, 11, 12, 13, 14]⟩, 1⟩

theorem reliable_fiveBytes : fiveBytes.Reliable := Source.reliable_ofBytes _

theorem run_fiveBytes : (run ⟨fiveBytes, .empty, 0⟩ [.readExact 1]).2 = fourAhead := by
  have hall : fiveBytes.slice 0 (0 + min blockSize blockSize) = fiveBytes.content := by
    decide +kernel
  have hask : fiveBytes.read blockSize = (.ok fiveBytes.content, fourAhead.source) := by
    show (Except.ok (fiveBytes.slice 0 (0 + min blockSize blockSize)), _) = _
    rw [hall]
    rfl
  have hread : (⟨fiveBytes, .empty, 0⟩ : Input).readExact 1 = (_, fourAhead) :=
    readExact_of_read rfl (by decide) (by decide) hask (by decide)
  rw [run, call, hread]
  rfl

/-- To go no distance from place 1 leads to the end. -/
theorem fiveBytes_jumps :
    let i := (run ⟨fiveBytes, .empty, 0⟩ [.readExact 1]).2
    i.position = 1 ∧ (i.seek (.current 0)).1 = .ok 5 ∧ (i.seek (.current 0)).2.position = 5 := by
  rw [run_fiveBytes]
  decide +kernel

theorem fiveBytes_not_there :
    let i := (run ⟨fiveBytes, .empty, 0⟩ [.readExact 1]).2
    (0 : Int) ≤ i.position + 0 ∧ i.ahead = 4 ∧
      (∃ i', i.seek (.current 0) = (.ok 5, i') ∧ (i'.position : Int) = 5) ∧
      ¬ ∃ i', i.seek (.current 0) = (.ok 1, i') ∧ (i'.position : Int) = 1 := by
  obtain ⟨hreached, -, hright⟩ :=
    seek_current_after_run reliable_fiveBytes.toObliging [.readExact 1] 0
  rw [run_fiveBytes] at hreached hright ⊢
  have hahead : fourAhead.ahead ≠ 0 := by decide
  exact ⟨by decide, rfl, hreached (by decide), fun h => hahead ((hright (by decide)).1 h).1⟩

/-- **A target that is refused moves the input to the place of its source.**  Nothing that is called
later shows that it was called if and only if nothing was left of the block. -/
theorem seek_refused_after_run {source : Source} (hs : source.Reliable) (calls : List Call)
    {target : Target}
    (hout : ¬ (0 ≤ (run ⟨source, .empty, 0⟩ calls).2.source.aim target ∧
      (run ⟨source, .empty, 0⟩ calls).2.source.aim target < Source.placeBound)) :
    let i := (run ⟨source, .empty, 0⟩ calls).2
    let after := (i.seek target).2
    (i.seek target).1 = .error (.io "seek 到负偏移") ∧ after.position = i.position + i.ahead ∧
      ((∀ later, (after.run later).1 = (i.run later).1) ↔ i.ahead = 0) := by
  intro i after
  have hreliable : i.source.Reliable := hs.of_same (same_run ⟨0, behind_of_empty⟩ calls)
  have hseek := seek_eq_error hreliable.toObliging hout
  have hafter : after = ⟨{ i.source with clock := i.source.clock + 1 }, .empty, 0⟩ :=
    congrArg Prod.snd hseek
  have hplace : after.position = i.position + i.ahead := by
    rw [hafter, position_of_used_up rfl]
    exact pos_after_run source calls
  refine ⟨congrArg Prod.fst hseek, hplace, fun hsame => ?_, fun hahead later => ?_⟩
  · -- Asking for the position is enough to tell.
    have hasked := hsame [.position]
    have hreliable' : after.source.Reliable := by
      rw [hafter]
      exact hreliable.of_same i.source.same_later
    simp only [run, call, tell_of_obliging hreliable.toObliging,
      tell_of_obliging hreliable'.toObliging, Prod.map, id, List.cons.injEq, Answer.place.injEq,
      Except.ok.injEq, and_true] at hasked
    omega
  · refine alike_run ⟨?_, hreliable, .inl ⟨hahead, ?_⟩⟩ later
    · rw [hafter]
      exact ⟨rfl, rfl, rfl, rfl, rfl⟩
    · rw [hafter]
      rfl

/-- A target before the start is refused, and the next byte is the one behind the end instead of that
at place 1. -/
theorem fiveBytes_skips :
    let i := (run ⟨fiveBytes, .empty, 0⟩ [.readExact 1]).2
    let after := (i.seek (.stop (-6))).2
    (i.seek (.stop (-6))).1 = .error (.io "seek 到负偏移") ∧ i.position = 1 ∧ after.position = 5 ∧
      (i.readExact 1).1 = .ok ⟨#[11]⟩ ∧ (after.readExact 1).1 = .error .endOfStream := by
  rw [run_fiveBytes]
  intro i after
  have hbyte : i.readExact 1 = (.ok ⟨#[11]⟩, _) := readExact_of_le_ahead (by decide)
  obtain ⟨i', hend, -⟩ := readFrom_of_short 1 .empty (i := after) ⟨by decide, by decide⟩
    (reliable_fiveBytes.toObliging.of_same ⟨rfl, rfl, rfl, rfl⟩) (by decide)
  exact ⟨by decide +kernel, rfl, by decide +kernel, congrArg Prod.fst hbyte, congrArg Prod.fst hend⟩

theorem fiveBytes_refused_shows :
    let i := (run ⟨fiveBytes, .empty, 0⟩ [.readExact 1]).2
    ¬ (0 ≤ i.source.aim (.stop (-6)) ∧ i.source.aim (.stop (-6)) < Source.placeBound) ∧
      (i.seek (.stop (-6))).2.position = 5 ∧
      ∃ later, ((i.seek (.stop (-6))).2.run later).1 ≠ (i.run later).1 := by
  have hout : ¬ (0 ≤ fourAhead.source.aim (.stop (-6)) ∧
      fourAhead.source.aim (.stop (-6)) < Source.placeBound) := by decide
  rw [← run_fiveBytes] at hout
  obtain ⟨-, hplace, hshows⟩ := seek_refused_after_run reliable_fiveBytes _ hout
  refine ⟨hout, ?_, ?_⟩
  · rw [hplace, run_fiveBytes]
    rfl
  · have hahead : fourAhead.ahead ≠ 0 := by decide
    rw [run_fiveBytes] at hshows ⊢
    exact not_forall.1 fun hsame => hahead (hshows.1 hsame)

end Input

end IsoMedia
