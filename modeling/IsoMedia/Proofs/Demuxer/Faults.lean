import IsoMedia.Proofs.Demuxer.Delivery

/-!
# Readings from a faulty source

A source may hand over fewer bytes than it was asked for, and may refuse any request.  A reading
that fails is tried again with the next one, and then goes on from what the input has at hand.  If
that is a block that the failed reading made readable again, the bytes in it may be those of an
earlier place: the input is `Stale` for the sample.

`Opened.Steady` holds between two readings from any source, and `Opened.read_steady` shows what one
reading does.

* `Demuxer.read_eq_iff_not_stale` : a delivered sample has its own bytes unless the input was stale
  for it, and which readings leave a stale input behind.
-/

namespace IsoMedia

/-- The input takes itself to be where the sample starts, but has other bytes at hand. -/
def Input.Stale (i : Input) (s : Sample) : Prop :=
  i.position = s.pos ∧
    i.block.extract i.taken (i.taken + min i.ahead s.size) ≠
      i.source.content.extract s.pos (s.pos + min i.ahead s.size)

theorem Input.Fresh.not_stale {i : Input} (h : i.Fresh) (s : Sample) : ¬ i.Stale s := by
  rintro ⟨hplace, hne⟩
  refine hne ?_
  rw [h.unread (Nat.min_le_left _ _), hplace]

namespace Opened

variable {input input' : Input} {t : Track} {s : Sample}

/-- A sample that was fetched has its own bytes unless the input was stale for it. -/
theorem fetch_eq_ok {data : ByteArray} (hi : input.InRange)
    (h : fetch input t s = (.ok data, input')) :
    input.source.Same input'.source ∧ input'.InRange ∧
      (data = input.source.content.extract s.pos (s.pos + s.size) ↔ ¬ input.Stale s) ∧
      (input.Fresh ∨ input.source.pos < s.pos + s.size → input'.Fresh) := by
  unfold fetch at h
  split at h
  · cases h
  · rename_i asked there hseek
    have hread : there.readExact s.size = (.ok data, input') := by
      split at h
      · cases h
      · exact h
    rcases Input.seekTo_spec hseek with
      ⟨reason, -, hok, -⟩ | ⟨hplace, -, rfl⟩ | ⟨hplace, hsame, hrange, hblock, -, hthere⟩
    · cases hok
    · obtain ⟨hsame', hrange', -, hfresh'⟩ := Input.readExact_eq_ok hi.later hread
      refine ⟨input.source.same_later.trans hsame', hrange', ?_, fun h => hfresh' ?_⟩
      · have hiff := Input.readExact_eq_iff hi.later hread
        rw [Input.position_later, hplace] at hiff
        refine hiff.trans ?_
        show _ ↔ ¬ (input.position = s.pos ∧ _)
        simp only [hplace, true_and, not_not]
        rfl
      · have hahead := hi.position_add_ahead
        rcases h with h | h
        · exact .inr h.later
        · exact .inl (by rw [Input.ahead_later]; omega)
    · obtain ⟨hsame', hfresh', hdata⟩ := (hrange.fresh_of_empty hblock).readExact_eq_ok hread
      rw [hthere _ rfl, hsame.content] at hdata
      exact ⟨hsame.trans hsame', hfresh'.toInRange,
        iff_of_true hdata fun hstale => hplace hstale.1, fun _ => hfresh'⟩

/-- The source does not tell where it is, so that a reading fails before it has begun. -/
structure Unplaced (e : Error) (i i' : Input) : Prop where
  refused : ∃ reason, i.source.onTell i.source.clock = some reason ∧ e = .io reason
  stays : i' = i.later

/-- A sample that could not be fetched leaves a fresh input, or one that was rewound although the
reading went on from the bytes at hand, or the input as it was. -/
theorem fetch_eq_error {e : Error} (hi : input.InRange) (h : fetch input t s = (.error e, input')) :
    input.source.Same input'.source ∧ input'.InRange ∧
      (input'.Fresh ∨ (input.position = s.pos ∧ Input.Rewound s.size e input input') ∨
        Unplaced e input input') := by
  unfold fetch at h
  split at h
  · rename_i e' there hseek
    cases h
    rcases Input.seekTo_spec hseek with
      ⟨reason, hrefused, hfail, rfl⟩ | ⟨-, hok, -⟩ | ⟨-, hsame, hrange, hblock, -, -⟩
    · obtain rfl := Except.error.inj hfail
      exact ⟨input.source.same_later, hi.later, .inr (.inr ⟨⟨reason, hrefused, rfl⟩, rfl⟩)⟩
    · cases hok
    · exact ⟨hsame, hrange, .inl (hrange.fresh_of_empty hblock)⟩
  · rename_i asked there hseek
    obtain ⟨e', hread, hend⟩ : ∃ e', there.readExact s.size = (.error e', input') ∧
        (e' = .endOfStream ∨ e' = e) := by
      split at h
      · rename_i hread
        cases h
        exact ⟨_, hread, .inl rfl⟩
      · exact ⟨_, h, .inr rfl⟩
    have hleft (hrange : there.InRange) : there.source.Same input'.source ∧ input'.InRange ∧
        (input'.Fresh ∨ Input.Rewound s.size e there input') := by
      obtain ⟨hsame', hrange', hrewound⟩ := Input.readFrom_eq_error hrange hread
      refine ⟨hsame', hrange', hrewound.imp_right fun hr => ?_⟩
      obtain ⟨reason, hreason⟩ := hr.refused
      rcases hend with rfl | rfl
      · cases hreason
      · exact hr
    rcases Input.seekTo_spec hseek with
      ⟨reason, -, hok, -⟩ | ⟨hplace, -, rfl⟩ | ⟨-, hsame, hrange, hblock, -, -⟩
    · cases hok
    · obtain ⟨hsame', hrange', hrewound⟩ := hleft hi.later
      have hsame' := input.source.same_later.trans hsame'
      refine ⟨hsame', hrange', hrewound.imp_right fun hr => .inl ⟨hplace, ?_⟩⟩
      exact ⟨hr.block, hr.taken, hr.short, hr.large, hr.refused⟩
    · obtain ⟨hsame', hrange', hrewound⟩ := hleft hrange
      refine ⟨hsame.trans hsame', hrange', .inl (hrewound.elim id fun hr => ?_)⟩
      exact hrange'.fresh_of_empty (hr.block.trans hblock)

/-! ### Readings -/

variable {o o' : Opened} {start : Source}

/-- What holds between two readings from any source.  A block that is not fresh ends inside the next
sample. -/
structure Steady (o : Opened) (start : Source) : Prop where
  same : start.Same o.input.source
  range : o.input.InRange
  fresh : o.input.Fresh ∨ ∃ place t s, first? o.tracks = some (place, t, s) ∧
    o.input.source.pos < s.pos + s.size

/-- A reading that delivers leaves a fresh input. -/
theorem read_eq_ok (h : o.Steady start) {delivery : Delivery}
    (hread : o.read = (.ok delivery, o')) :
    o'.Steady start ∧ o'.input.Fresh ∧ ∃ place t s, first? o.tracks = some (place, t, s) ∧
      (delivery = t.delivery start.content s ↔ ¬ o.input.Stale s) := by
  obtain ⟨hsteady, hrange, hfresh⟩ := h
  cases hfirst : first? o.tracks with
  | none => cases (read_end hfirst).symm.trans hread
  | some next =>
    obtain ⟨place, t, s⟩ := next
    cases hfetch : fetch o.input t s with
    | mk outcome input' =>
      cases outcome with
      | error e => cases (read_of_fetch_error hfirst hfetch).symm.trans hread
      | ok data =>
        cases (read_of_fetch_ok hfirst hfetch).symm.trans hread
        obtain ⟨hsame, hrange', hdata, hfresh'⟩ := fetch_eq_ok hrange hfetch
        have hfresh' : input'.Fresh := by
          refine hfresh' (hfresh.imp_right ?_)
          rintro ⟨place', t', s', hfirst', hplace⟩
          cases hfirst.symm.trans hfirst'
          exact hplace
        refine ⟨⟨hsteady.trans hsame, hrange', .inl hfresh'⟩, hfresh', place, t, s, rfl, ?_⟩
        rw [← hdata, ← hsteady.content]
        simp [Track.delivery, Track.handOver]

/-- A reading that fails moves no track on, and leaves a fresh input, or one that was rewound, or the
input as it was. -/
theorem read_eq_error (h : o.Steady start) {e : Error} (hread : o.read = (.error e, o')) :
    o'.Steady start ∧ o'.tracks = o.tracks ∧
      (o'.input.Fresh ∨ (∃ place t s, first? o.tracks = some (place, t, s) ∧
        o.input.position = s.pos ∧ Input.Rewound s.size e o.input o'.input) ∨
        Unplaced e o.input o'.input) := by
  obtain ⟨hsteady, hrange, hfresh⟩ := h
  cases hfirst : first? o.tracks with
  | none =>
    cases (read_end hfirst).symm.trans hread
    refine ⟨⟨hsteady, hrange, hfresh⟩, rfl, .inl (hfresh.resolve_right ?_)⟩
    rintro ⟨place, t, s, hfirst', -⟩
    cases hfirst.symm.trans hfirst'
  | some next =>
    obtain ⟨place, t, s⟩ := next
    cases hfetch : fetch o.input t s with
    | mk outcome input' =>
      cases outcome with
      | ok data => cases (read_of_fetch_ok hfirst hfetch).symm.trans hread
      | error e' =>
        cases (read_of_fetch_error hfirst hfetch).symm.trans hread
        obtain ⟨hsame, hrange', hleft⟩ := fetch_eq_error hrange hfetch
        refine ⟨⟨hsteady.trans hsame, hrange', ?_⟩, rfl, ?_⟩
        · rcases hleft with hfresh' | ⟨hplace, hr⟩ | hunplaced
          · exact .inl hfresh'
          · have := hr.short
            exact .inr ⟨place, t, s, hfirst, by dsimp only; omega⟩
          · obtain rfl := hunplaced.stays
            exact hfresh.imp_left Input.Fresh.later
        · exact hleft.imp_right fun hleft =>
            hleft.imp_left fun ⟨hplace, hr⟩ => ⟨place, t, s, rfl, hplace, hr⟩

end Opened

namespace Demuxer

theorem after_succ (d : Demuxer) (k : Nat) : d.after (k + 1) = (d.after k).read.2 := by
  induction k generalizing d with
  | zero => rfl
  | succ k ih => rw [after, ih, after]

/-- What is open after a file was opened. -/
theorem openInput_steady {d d' : Demuxer} {input : Input}
    (h : (d.openInput input).value = (.ok (), d')) :
    ∃ o, d'.opened = some o ∧ o.Steady input.source ∧ o.input.Fresh := by
  obtain ⟨content, input', o, warnings, hread, hopen, rfl⟩ := openInput_eq_ok_iff.1 h
  obtain ⟨parsed, tracks, -, -, -, rfl, -⟩ := Opened.ofBytes_eq_ok_iff.1 hopen
  obtain ⟨hsame, hfresh⟩ := Input.readAll_spec hread
  exact ⟨_, rfl, ⟨hsame, hfresh.toInRange, .inl hfresh⟩, hfresh⟩

theorem after_steady {d : Demuxer} {o : Opened} {start : Source} (hd : d.opened = some o)
    (h : o.Steady start) (k : Nat) :
    ∃ o', (d.after k).opened = some o' ∧ o'.Steady start := by
  induction k with
  | zero => exact ⟨o, hd, h⟩
  | succ k ih =>
    obtain ⟨o', hopened, hsteady⟩ := ih
    cases hread : o'.read with
    | mk outcome o'' =>
      rw [after_succ, read_of_opened hopened hread]
      cases outcome with
      | error e => exact ⟨o'', rfl, (Opened.read_eq_error hsteady hread).1⟩
      | ok delivery => exact ⟨o'', rfl, (Opened.read_eq_ok hsteady hread).1⟩

/-- How the input came to be stale for a sample: a reading `j` that had taken exactly as many bytes of
it as the block from before is long failed in a request for a block, and all readings between it and
the next one, `k`, failed because the source did not tell where it is. -/
structure StaleSince (d : Demuxer) (start : Source) (s : Sample) (o : Opened) (j k : Nat)
    (before : Opened) (reason : String) : Prop where
  lt : j < k
  opened : (d.after j).opened = some before
  tracks : before.tracks = o.tracks
  failed : (d.after j).read.1 = .error (.io reason)
  place : before.input.position = s.pos
  block : o.input.block = before.input.block
  taken : o.input.taken = 0
  behind : o.input.source.pos = s.pos + o.input.block.size
  short : o.input.block.size < s.size
  since : ∀ m, j < m → m < k → ∃ clock why, start.onTell clock = some why ∧
    (d.after m).read.1 = .error (.io why)

section

variable {d : Demuxer} {start : Source} {s : Sample} {o o' before : Opened} {j k : Nat}
  {reason why : String} {e : Error}

/-- A reading that was refused a block leaves a stale input only if it had taken as many bytes as the
block from before is long. -/
theorem staleSince_of_rewound (hopened : (d.after k).opened = some before)
    (htracks : before.tracks = o.tracks) (hfailed : (d.after k).read.1 = .error e)
    (hplace : before.input.position = s.pos) (hr : Input.Rewound s.size e before.input o.input)
    (hrange : o.input.InRange) (hstale : o.input.Stale s) :
    ∃ reason, StaleSince d start s o k (k + 1) before reason := by
  obtain ⟨reason, rfl⟩ := hr.refused
  have hbehind : o.input.source.pos = s.pos + o.input.block.size := by
    have hahead := hrange.position_add_ahead
    rw [hstale.1, Input.ahead, hr.taken, Nat.sub_zero] at hahead
    exact hahead.symm
  have hshort : o.input.block.size < s.size := by
    have := hr.short
    omega
  exact ⟨reason, Nat.lt_succ_self k, hopened, htracks, hfailed, hplace, hr.block, hr.taken, hbehind,
    hshort, fun m hm hm' => absurd (Nat.le_of_lt_succ hm') (Nat.not_le.2 hm)⟩

/-- A reading that fails because the source does not tell where it is leaves a stale input as it was. -/
theorem StaleSince.later (h : StaleSince d start s o j k before reason)
    (htracks : o'.tracks = o.tracks) (hstays : o'.input = o.input.later) {clock : Nat}
    (hrefused : start.onTell clock = some why) (hfailed : (d.after k).read.1 = .error (.io why)) :
    StaleSince d start s o' j (k + 1) before reason where
  lt := Nat.lt_succ_of_lt h.lt
  opened := h.opened
  tracks := h.tracks.trans htracks.symm
  failed := h.failed
  place := h.place
  block := by rw [hstays]; exact h.block
  taken := by rw [hstays]; exact h.taken
  behind := by rw [hstays]; exact h.behind
  short := by rw [hstays]; exact h.short
  since m hm hm' := by
    rcases Nat.lt_succ_iff_lt_or_eq.1 hm' with hm' | rfl
    · exact h.since m hm hm'
    · exact ⟨clock, why, hrefused, hfailed⟩

/-- A fresh input is made stale by a reading that fails, and stays so until one delivers. -/
theorem exists_staleSince {o₀ : Opened} (hd : d.opened = some o₀) (hsteady₀ : o₀.Steady start)
    (hfresh₀ : o₀.input.Fresh) (hopened : (d.after k).opened = some o) {place : Nat} {t : Track}
    (hfirst : Opened.first? o.tracks = some (place, t, s)) (hstale : o.input.Stale s) :
    ∃ j before reason, StaleSince d start s o j k before reason := by
  induction k generalizing o with
  | zero =>
    rw [after, hd, Option.some.injEq] at hopened
    subst hopened
    exact absurd hstale (hfresh₀.not_stale s)
  | succ k ih =>
    obtain ⟨before, hbefore, hsteady⟩ := after_steady hd hsteady₀ k
    cases hread : before.read with
    | mk outcome o' =>
      have hnext := read_of_opened hbefore hread
      rw [after_succ, hnext, Option.some.injEq] at hopened
      subst hopened
      cases outcome with
      | ok delivery =>
        obtain ⟨-, hfresh, -⟩ := Opened.read_eq_ok hsteady hread
        exact absurd hstale (hfresh.not_stale s)
      | error e =>
        obtain ⟨hsteady', htracks, hleft⟩ := Opened.read_eq_error hsteady hread
        have hfailed : (d.after k).read.1 = .error e := by rw [hnext]
        rcases hleft with hfresh | ⟨place', t', s', hfirst', hplace, hr⟩ | hunplaced
        · exact absurd hstale (hfresh.not_stale s)
        · -- This is the reading that made the input stale.
          rw [← htracks, hfirst] at hfirst'
          cases hfirst'
          obtain ⟨reason, hsince⟩ := staleSince_of_rewound hbefore htracks.symm hfailed hplace hr
            hsteady'.range hstale
          exact ⟨k, before, reason, hsince⟩
        · -- The input was stale before this reading too.
          obtain ⟨⟨why, hrefused, rfl⟩, hstays⟩ := hunplaced
          rw [hstays] at hstale
          rw [hsteady.same.onTell] at hrefused
          obtain ⟨j, first, reason, hsince⟩ := ih hbefore (htracks ▸ hfirst) hstale
          exact ⟨j, first, reason, hsince.later htracks hstays hrefused hfailed⟩

end

/-- **A delivered sample has its own bytes unless the input was stale for it.**  The source may
answer with any number of bytes and refuse any request.  The input is stale only after a reading of
the same sample that failed in a request for a block, when that reading had taken exactly as many
bytes as the block from before it is long.  It is the reading right before, or all readings in between
failed because the source did not tell where it is. -/
theorem read_eq_iff_not_stale {d d' : Demuxer} {input : Input}
    (h : (d.openInput input).value = (.ok (), d')) (k : Nat) :
    ∃ o, (d'.after k).opened = some o ∧ o.input.source.content = input.source.content ∧
      (∀ delivery, (d'.after k).read.1 = .ok delivery → ∃ place t s,
        Opened.first? o.tracks = some (place, t, s) ∧
        (delivery = t.delivery input.source.content s ↔ ¬ o.input.Stale s)) ∧
      ∀ place t s, Opened.first? o.tracks = some (place, t, s) → o.input.Stale s →
        ∃ j before reason, j < k ∧ (d'.after j).opened = some before ∧
          before.tracks = o.tracks ∧ (d'.after j).read.1 = .error (.io reason) ∧
          before.input.position = s.pos ∧ o.input.block = before.input.block ∧
          o.input.taken = 0 ∧ o.input.source.pos = s.pos + o.input.block.size ∧
          o.input.block.size < s.size ∧
          (∀ m, j < m → m < k → ∃ clock why, input.source.onTell clock = some why ∧
            (d'.after m).read.1 = .error (.io why)) ∧
          ((∀ clock, input.source.onTell clock = none) → k = j + 1) := by
  obtain ⟨o₀, hopened₀, hsteady₀, hfresh₀⟩ := openInput_steady h
  obtain ⟨o, hopened, hsteady⟩ := after_steady hopened₀ hsteady₀ k
  refine ⟨o, hopened, hsteady.same.content, fun delivery hdelivery => ?_,
    fun place t s hfirst hstale => ?_⟩
  · cases hread : o.read with
    | mk outcome o' =>
      rw [read_of_opened hopened hread] at hdelivery
      cases hdelivery
      obtain ⟨-, -, hspec⟩ := Opened.read_eq_ok hsteady hread
      exact hspec
  · obtain ⟨j, before, reason, hsince⟩ :=
      exists_staleSince hopened₀ hsteady₀ hfresh₀ hopened hfirst hstale
    refine ⟨j, before, reason, hsince.lt, hsince.opened, hsince.tracks, hsince.failed, hsince.place,
      hsince.block, hsince.taken, hsince.behind, hsince.short, hsince.since, fun htells => ?_⟩
    -- A reading in between would have been refused the place.
    by_contra hlater
    have hlt := hsince.lt
    obtain ⟨clock, why, hrefused, -⟩ := hsince.since (j + 1) (Nat.lt_succ_self j) (by omega)
    cases (htells clock).symm.trans hrefused

/-- A source that hands over a hundred bytes at most and refuses its eighth request, which is the
first for bytes of a sample. -/
def tinyInput : Input where
  source :=
    { content := tinyFile
      onRead := fun clock _ asked =>
        if clock = 7 then .fail "refused" else .atMost (min asked 100) }

set_option maxRecDepth 100000 in
/-- The file opens all the same, and no reading delivers other bytes unless the input is stale. -/
theorem tinyInput_not_stale :
    ∃ d', (({} : Demuxer).openInput tinyInput).value = (.ok (), d') ∧
      ∀ k, ∃ o, (d'.after k).opened = some o ∧ ∀ delivery, (d'.after k).read.1 = .ok delivery →
        ∃ place t s, Opened.first? o.tracks = some (place, t, s) ∧
          (delivery = t.delivery tinyFile s ↔ ¬ o.input.Stale s) := by
  have hok : (({} : Demuxer).openInput tinyInput).value.1.isOk = true := by decide +kernel
  have hopen := exists_eq_ok_of_isOk hok
  refine ⟨_, hopen, fun k => ?_⟩
  obtain ⟨o, hopened, -, hspec, -⟩ := read_eq_iff_not_stale hopen k
  exact ⟨o, hopened, hspec⟩

end Demuxer

end IsoMedia
