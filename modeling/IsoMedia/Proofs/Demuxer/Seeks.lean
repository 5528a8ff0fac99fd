import IsoMedia.Proofs.Demuxer.Faults
import IsoMedia.Proofs.Input.Plain

/-!
# Where a source is asked to go

A reading goes to the place of its sample only if the input is not there yet, and the input is where
the sample before it ends, or where the opening left it, at the end of the file.  It does not matter how
many bytes the source hands over at a time, what of them is left in the block, and which samples are
empty: `Opened.At` says where the input is, and `Opened.read_at` that a reading leaves it behind its
sample.

* `Demuxer.read_seeks` : which reading goes where, and that the places ascend if the samples of every
  track do.
-/

namespace IsoMedia

/-- Where the sample ends in the file. -/
def Sample.stop (s : Sample) : Nat := s.pos + s.size

/-! ### Requests that go nowhere -/

namespace Source

theorem visited_read (s : Source) (asked : Nat) : (s.read asked).2.visited = s.visited := by
  unfold read
  split <;> rfl

theorem visited_of_read {s s' : Source} {asked : Nat} {outcome : Except Error ByteArray}
    (h : s.read asked = (outcome, s')) : s'.visited = s.visited := by
  rw [← s.visited_read asked, h]

theorem visited_of_seek_start {s s' : Source} {place n : Nat}
    (h : s.seek (.start place) = (.ok n, s')) : s'.visited.toList = s.visited.toList ++ [place] := by
  unfold seek at h
  split at h
  · cases h
  · dsimp only at h
    split at h
    · cases h
      exact Array.toList_push
    · cases h

end Source

namespace Input

theorem visited_readFrom (wanted : Nat) (got : ByteArray) (i : Input) :
    (readFrom wanted got i).2.source.visited = i.source.visited := by
  fun_induction readFrom wanted got i with
  | case1 => rfl
  | case2 wanted got i hw ha n ih => exact ih
  | case3 wanted got i hw ha hbig e source hread => exact Source.visited_of_read hread
  | case4 wanted got i hw ha hbig piece source hread hpiece => exact Source.visited_of_read hread
  | case5 wanted got i hw ha hbig piece source hread hpiece ih =>
    exact ih.trans (Source.visited_of_read hread)
  | case6 wanted got i hw ha hsmall e source hread => exact Source.visited_of_read hread
  | case7 wanted got i hw ha hsmall piece source hread hpiece => exact Source.visited_of_read hread
  | case8 wanted got i hw ha hsmall piece source hread hpiece ih =>
    exact ih.trans (Source.visited_of_read hread)

/-- What is added to the places gone to on the way from one place to another. -/
def leap (here there : Nat) : List Nat := if there = here then [] else [there]

theorem leap_sublist (here there : Nat) : (leap here there).Sublist [there] := by
  unfold leap
  split
  · exact List.nil_sublist _
  · exact .refl _

theorem seekTo_of_plays {i : Input} {r : PlainReader} (h : i.Plays r) {place : Nat}
    (hplace : (place : Int) < Source.placeBound) :
    ∃ asked i', i.seekTo place = (.ok asked, i') ∧ i'.Plays { r with pos := place } ∧
      i'.source.visited.toList = i.source.visited.toList ++ leap r.pos place := by
  obtain ⟨-, hnext⟩ := plays_seekTo h (show (Call.seekTo place).Lands r.content.size from hplace)
  have hposition := h.position
  unfold leap
  rcases i.seekTo_cases place with
    ⟨reason, hrefused, -⟩ | ⟨hthere, hseek⟩ | ⟨helse, found, source, hgone, hseek⟩
  · exact absurd hrefused (h.obliging.onTell_ne _ reason)
  · simp only [call, hseek, Prod.map, id] at hnext
    refine ⟨_, _, hseek, hnext, ?_⟩
    rw [if_pos (by omega), List.append_nil]
    rfl
  · obtain ⟨source', hasked⟩ := (h.obliging.of_same i.source.same_later).seek_start place hplace
    cases hgone.symm.trans hasked
    simp only [call, hseek, Prod.map, id] at hnext
    refine ⟨_, _, hseek, hnext, ?_⟩
    rw [if_neg (by omega)]
    exact Source.visited_of_seek_start (s := i.source.later) hgone

theorem readExact_of_plays {i : Input} {r : PlainReader} (h : i.Plays r) {wanted : Nat}
    (hroom : r.pos + wanted ≤ r.content.size) :
    ∃ i', i.readExact wanted = (.ok (r.content.extract r.pos (r.pos + wanted)), i') ∧
      i'.Plays { r with pos := r.pos + wanted } ∧ i'.source.visited = i.source.visited := by
  obtain ⟨hanswer, hnext⟩ := plays_readExact h wanted
  have hvisited : (i.readExact wanted).2.source.visited = i.source.visited :=
    visited_readFrom wanted .empty i
  simp only [call, PlainReader.call, if_pos (show wanted ≤ r.content.size - r.pos by omega),
    Prod.map, id, Answer.bytes.injEq] at hanswer hnext
  exact ⟨_, Prod.ext hanswer rfl, hnext, hvisited⟩

end Input

/-! ### Readings -/

namespace Opened

variable {o : Opened} {content : ByteArray} {pos : Nat}

/-- Every byte is handed over, every sample lies within them, and the next byte is the one at a
place. -/
structure At (o : Opened) (content : ByteArray) (pos : Nat) : Prop extends o.Sound content where
  position_eq : o.input.position = pos

theorem At.plays (h : o.At content pos) : o.input.Plays ⟨content, pos⟩ :=
  ⟨h.fresh, h.obliging, h.content_eq, h.position_eq⟩

/-- A reading leaves the input where its sample ends, and goes to where the sample starts unless it is
there. -/
theorem read_at (h : o.At content pos) {place : Nat} {t : Track} {s : Sample}
    (hfirst : first? o.tracks = some (place, t, s)) :
    ∃ o', o.read = (.ok (t.delivery content s), o') ∧ o'.tracks = advanceAt o.tracks place t ∧
      o'.At content s.stop ∧ o'.input.source.visited.toList =
        o.input.source.visited.toList ++ Input.leap pos s.pos := by
  obtain ⟨ht, hs⟩ := first?_spec hfirst
  have hinside := h.inside t (List.mem_of_getElem? ht) s (Array.mem_of_getElem? hs)
  have hbound := h.numbered
  obtain ⟨asked, there, hseek, hthere, hleap⟩ :=
    Input.seekTo_of_plays h.plays (show (s.pos : Int) < Source.placeBound by omega)
  obtain ⟨input', hexact, hbehind, hsame⟩ :=
    Input.readExact_of_plays hthere (show s.pos + s.size ≤ content.size from hinside)
  have hfetch : fetch o.input t s = (.ok (content.extract s.pos (s.pos + s.size)), input') := by
    unfold fetch
    rw [hseek]
    dsimp only
    rw [hexact]
  obtain ⟨o', hread, htracks, hsound⟩ := read_sound h.toSound hfirst
  have hinput : o'.input = input' := by
    unfold read at hread
    rw [hfirst] at hread
    dsimp only at hread
    rw [hfetch] at hread
    cases hread
    rfl
  refine ⟨o', hread, htracks, ⟨hsound, ?_⟩, ?_⟩
  · rw [hinput, hbehind.position]
    rfl
  · rw [hinput, hsame, hleap]

/-- The samples in the order in which they are delivered. -/
def queue (tracks : List Track) : List Sample := (turns tracks).filterMap (Turn.sample? tracks)

theorem sample?_advanceAt {tracks : List Track} {place : Nat} {t : Track}
    (ht : tracks[place]? = some t) : Turn.sample? (advanceAt tracks place t) = Turn.sample? tracks := by
  funext turn
  unfold Turn.sample?
  rw [getElem?_advanceAt ht]
  cases tracks[turn.place]? <;> rfl

theorem queue_eq_nil {tracks : List Track} (h : first? tracks = none) : queue tracks = [] := by
  rw [queue, turns_eq_nil h]
  rfl

theorem queue_eq_cons {tracks : List Track} {place : Nat} {t : Track} {s : Sample}
    (h : first? tracks = some (place, t, s)) :
    queue tracks = s :: queue (advanceAt tracks place t) := by
  obtain ⟨ht, hs⟩ := first?_spec h
  have hsample : Turn.sample? tracks ⟨place, t.cursor⟩ = some s := by
    rw [Turn.sample?, ht, Option.bind_some, hs]
  rw [queue, turns_eq_cons h, List.filterMap_cons_some hsample, queue, sample?_advanceAt ht]

/-- Every turn delivers a sample. -/
theorem map_turns (tracks : List Track) :
    (turns tracks).map (Turn.sample? tracks) = (queue tracks).map some := by
  induction tracks using turns.induct with
  | case1 tracks h => rw [turns_eq_nil h, queue_eq_nil h, List.map_nil, List.map_nil]
  | case2 tracks place t s h ih =>
    obtain ⟨ht, hs⟩ := first?_spec h
    rw [sample?_advanceAt ht] at ih
    rw [turns_eq_cons h, queue_eq_cons h, List.map_cons, List.map_cons, ih, Turn.sample?, ht,
      Option.bind_some, hs]

theorem length_queue (tracks : List Track) : (queue tracks).length = (turns tracks).length := by
  have := congrArg List.length (map_turns tracks)
  rwa [List.length_map, List.length_map, eq_comm] at this

theorem exists_turn {tracks : List Track} {k : Nat} {s : Sample}
    (h : (queue tracks)[k]? = some s) :
    ∃ turn, (turns tracks)[k]? = some turn ∧ Turn.sample? tracks turn = some s := by
  have hk := congrArg (·[k]?) (map_turns tracks)
  simp only [List.getElem?_map, h, Option.map_some] at hk
  exact Option.map_eq_some_iff.1 hk

end Opened

namespace Demuxer

/-- The places that the source of the open file was asked to go to. -/
def visited (d : Demuxer) : List Nat :=
  (d.opened.map fun o => o.input.source.visited.toList).getD []

theorem visited_of_opened {d : Demuxer} {o : Opened} (h : d.opened = some o) :
    d.visited = o.input.source.visited.toList := by
  rw [visited, h]
  rfl

/-- Where the input is behind samples that were read from a place on. -/
def restingPlace (start : Nat) (samples : List Sample) : Nat :=
  (samples.getLast?.map Sample.stop).getD start

theorem restingPlace_cons (start : Nat) (s : Sample) (samples : List Sample) :
    restingPlace start (s :: samples) = restingPlace s.stop samples := by
  rw [restingPlace, restingPlace, List.getLast?_cons]
  cases samples.getLast? <;> rfl

/-- One reading after the other delivers the next sample and goes to where it starts, unless the sample
before it ends there. -/
theorem after_at {d : Demuxer} {o : Opened} {content : ByteArray} {pos : Nat}
    (hd : d.opened = some o) (h : o.At content pos) :
    (∀ (k : Nat) (s : Sample), (Opened.queue o.tracks)[k]? = some s →
      (d.after (k + 1)).visited = (d.after k).visited ++
        Input.leap (restingPlace pos ((Opened.queue o.tracks).take k)) s.pos) ∧
    ∀ k, (Opened.queue o.tracks).length ≤ k → (d.after (k + 1)).visited = (d.after k).visited := by
  generalize htracks : o.tracks = tracks
  induction tracks using Opened.turns.induct generalizing d o pos with
  | case1 tracks hfirst =>
    subst htracks
    rw [Opened.queue_eq_nil hfirst]
    have hread := read_of_opened hd (Opened.read_end hfirst)
    have hstay : ({ d with opened := some o } : Demuxer) = d := by rw [← hd]
    rw [hstay] at hread
    have hafter (k : Nat) : d.after k = d := by
      induction k with
      | zero => rfl
      | succ k ih => rw [after, hread, ih]
    refine ⟨fun k s hs => ?_, fun k _ => by rw [hafter, hafter]⟩
    cases hs
  | case2 tracks place t s hfirst ih =>
    subst htracks
    rw [Opened.queue_eq_cons hfirst]
    obtain ⟨o', hread, htracks', hat, hleap⟩ := Opened.read_at h hfirst
    have hread := read_of_opened hd hread
    obtain ⟨hgo, hstay⟩ := ih (d := { d with opened := some o' }) rfl hat htracks'
    constructor
    · intro k r hr
      cases k with
      | zero =>
        cases hr
        rw [after, after, hread]
        exact (hleap.trans (congrArg (· ++ _) (visited_of_opened hd).symm))
      | succ k =>
        rw [List.take_succ_cons, restingPlace_cons]
        show (d.read.2.after (k + 1)).visited = (d.read.2.after k).visited ++ _
        rw [hread]
        exact hgo k r hr
    · intro k hk
      cases k with
      | zero => cases hk
      | succ k =>
        show (d.read.2.after (k + 1)).visited = (d.read.2.after k).visited
        rw [hread]
        exact hstay k (Nat.le_of_succ_le_succ hk)

/-- The opening of a file leaves the input behind its last byte. -/
theorem openInput_at {d d' : Demuxer} {input : Input} (ho : input.source.Obliging)
    (hbound : (input.source.content.size : Int) < Source.placeBound)
    (h : (d.openInput input).value = (.ok (), d')) :
    ∃ o, d'.opened = some o ∧ o.At input.source.content input.source.content.size := by
  obtain ⟨o, hopened, hsound, -⟩ := openInput_sound input ho hbound h
  refine ⟨o, hopened, hsound, ?_⟩
  obtain ⟨content, input', o', warnings, hread, hopen, rfl⟩ := openInput_eq_ok_iff.1 h
  obtain ⟨parsed, tracks, -, -, -, rfl, -⟩ := Opened.ofBytes_eq_ok_iff.1 hopen
  cases hopened
  have hend := Input.position_readAll ho
  rwa [hread] at hend

/-- The places gone to by readings are places of samples, in the order of the readings. -/
theorem exists_sublist_visited {d : Demuxer} {o : Opened} {content : ByteArray} {pos : Nat}
    (hd : d.opened = some o) (h : o.At content pos) (n : Nat) :
    ∃ places : List Nat, places.Sublist (((Opened.queue o.tracks).take n).map Sample.pos) ∧
      (d.after n).visited = d.visited ++ places := by
  obtain ⟨hgo, hstay⟩ := after_at hd h
  induction n with
  | zero => exact ⟨[], .refl _, (List.append_nil _).symm⟩
  | succ n ih =>
    obtain ⟨places, hsub, hvisited⟩ := ih
    cases hnext : (Opened.queue o.tracks)[n]? with
    | none =>
      have hlength := List.getElem?_eq_none_iff.1 hnext
      rw [List.take_of_length_le hlength] at hsub
      rw [hstay n hlength, List.take_of_length_le (Nat.le_succ_of_le hlength)]
      exact ⟨places, hsub, hvisited⟩
    | some s =>
      refine ⟨_, ?_, (hgo n s hnext).trans (by rw [hvisited, List.append_assoc])⟩
      rw [List.take_add_one, hnext, Option.toList_some, List.map_append]
      exact hsub.append (Input.leap_sublist _ s.pos)

/-- **A reading goes to where its sample starts exactly if the input is elsewhere**, that is, unless the
sample delivered before it ends there, or the file does if it is the first reading.  So the places gone
to ascend if the samples of every track do.  The source answers every request, with any number of
bytes at a time; the samples are listed in the order in which they are delivered. -/
theorem read_seeks {d d' : Demuxer} {input : Input} (ho : input.source.Obliging)
    (hbound : (input.source.content.size : Int) < Source.placeBound)
    (h : (d.openInput input).value = (.ok (), d')) :
    let content := input.source.content
    let samples := Opened.queue d'.tracks
    (∀ (k : Nat) (s : Sample), samples[k]? = some s →
      (∃ t ∈ d'.tracks, s ∈ t.samples ∧ (d'.after k).read.1 = .ok (t.delivery content s)) ∧
      (d'.after (k + 1)).visited = (d'.after k).visited ++
        if s.pos = restingPlace content.size (samples.take k) then [] else [s.pos]) ∧
    (∀ k, samples.length ≤ k → (d'.after k).read.1 = .error .endOfStream ∧
      (d'.after (k + 1)).visited = (d'.after k).visited) ∧
    ((∀ t ∈ d'.tracks, t.samples.toList.Pairwise (·.pos ≤ ·.pos)) →
      ∀ n, ((d'.after n).visited.drop d'.visited.length).Pairwise (· ≤ ·)) := by
  intro content samples
  obtain ⟨o, hopened, hat⟩ := openInput_at ho hbound h
  have htracks := tracks_of_opened hopened
  have hsamples : samples = Opened.queue o.tracks := congrArg Opened.queue htracks
  obtain ⟨hdelivered, hend⟩ := after_sound hopened hat.toSound
  obtain ⟨hgo, hstay⟩ := after_at hopened hat
  rw [hsamples, htracks]
  refine ⟨fun k s hs => ⟨?_, hgo k s hs⟩, fun k hk => ⟨?_, hstay k hk⟩, fun hasc n => ?_⟩
  · obtain ⟨turn, hturn, hsample⟩ := Opened.exists_turn hs
    obtain ⟨t, s', ht, hs', hread⟩ := hdelivered k turn hturn
    rw [Turn.sample?, ht, Option.bind_some, hs'] at hsample
    cases hsample
    exact ⟨t, List.mem_of_getElem? ht, Array.mem_of_getElem? hs', hread⟩
  · exact hend k (Opened.length_queue o.tracks ▸ hk)
  · obtain ⟨places, hsub, hvisited⟩ := exists_sublist_visited hopened hat n
    have hqueue : ((Opened.queue o.tracks).map Sample.pos).Pairwise (· ≤ ·) :=
      List.pairwise_map.2 ((Opened.interleaves_turns o.tracks).ascending hasc)
    rw [hvisited, List.drop_left]
    exact (hqueue.sublist ((List.take_sublist n _).map Sample.pos)).sublist hsub

/-- The file with two samples, in pieces of a hundred bytes at most. -/
def piecewise : Input where
  source := { content := tinyFile, onRead := fun _ _ asked => .atMost (min asked 100) }

set_option maxRecDepth 100000 in
theorem piecewise_opens :
    let opening := (({} : Demuxer).openInput piecewise).value
    opening.1.isOk = true ∧
      (Opened.queue opening.2.tracks).map (fun s => (s.pos, s.size)) = [(212, 1), (213, 2)] := by
  decide +kernel

/-- The first reading goes to its sample, and the second is there already. -/
theorem piecewise_seeks :
    piecewise.source.Obliging ∧ (tinyFile.size : Int) < Source.placeBound ∧ ∃ d',
      (({} : Demuxer).openInput piecewise).value = (.ok (), d') ∧
      (d'.after 1).visited = d'.visited ++ [212] ∧ (d'.after 2).visited = (d'.after 1).visited ∧
      (d'.after 2).read.1 = .error .endOfStream := by
  have ho : piecewise.source.Obliging :=
    ⟨fun _ _ asked h => ⟨_, Nat.lt_min.2 ⟨h, by decide⟩, rfl⟩, fun _ => rfl, fun _ => rfl⟩
  have hbound : (tinyFile.size : Int) < Source.placeBound := by decide +kernel
  obtain ⟨hok, hqueue⟩ := piecewise_opens
  have hopen := exists_eq_ok_of_isOk hok
  obtain ⟨hgo, hend, -⟩ := read_seeks ho hbound hopen
  obtain ⟨s, r, hsamples⟩ := List.length_eq_two.1 (by simpa using congrArg List.length hqueue)
  rw [hsamples] at hgo hend hqueue
  simp only [List.map_cons, List.map_nil, List.cons.injEq, Prod.mk.injEq, and_true] at hqueue
  have hfirst := (hgo 0 s rfl).2
  have hsecond := (hgo 1 r rfl).2
  have hsize : restingPlace tinyFile.size [] = 215 := by decide +kernel
  rw [if_neg (by rw [hqueue.1.1]; exact fun h => absurd (h.trans hsize) (by decide)),
    hqueue.1.1] at hfirst
  rw [if_pos (by show r.pos = s.pos + s.size; omega), List.append_nil] at hsecond
  exact ⟨ho, hbound, _, hopen, hfirst, hsecond, (hend 2 (Nat.le_refl 2)).1⟩

end Demuxer

end IsoMedia
