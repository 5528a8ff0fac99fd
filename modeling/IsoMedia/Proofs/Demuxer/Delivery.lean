import IsoMedia.Proofs.Demuxer.Opening
import IsoMedia.Proofs.Demuxer.Turns
import IsoMedia.Proofs.Input.Block
import IsoMedia.Proofs.Sample.Placement

/-!
# Delivering every sample

A file that was opened from a source that answers every request delivers all its samples, each with
its own bytes, and then tells that they are at an end.  `Opened.Sound` is what holds between two
readings; `Opened.read_sound` shows what one reading does and that it keeps this, and
`Demuxer.after_sound` follows from it by induction on the turns.

* `Demuxer.read_interleaves` : the readings of an opened file, from the first to any number of them.
-/

namespace IsoMedia

/-- A sample of the track, with its bytes from the content of the file. -/
def Track.delivery (t : Track) (content : ByteArray) (s : Sample) : Delivery :=
  { data := content.extract s.pos (s.pos + s.size)
    presentationTime := s.presentationTime
    decodeTime := s.decodeTime
    mediaType := t.mediaType
    codec := t.codec }

namespace Opened

/-- The input hands over every byte, and every sample lies within them. -/
structure Sound (o : Opened) (content : ByteArray) : Prop where
  fresh : o.input.Fresh
  obliging : o.input.source.Obliging
  content_eq : o.input.source.content = content
  numbered : (content.size : Int) < Source.placeBound
  inside : ∀ t ∈ o.tracks, ∀ s ∈ t.samples, s.pos + s.size ≤ content.size

theorem fetch_of_obliging {input : Input} (hi : input.Fresh) (ho : input.source.Obliging)
    (t : Track) {s : Sample} (hs : s.pos + s.size ≤ input.source.content.size)
    (hbound : (input.source.content.size : Int) < Source.placeBound) :
    ∃ input', fetch input t s =
        (.ok (input.source.content.extract s.pos (s.pos + s.size)), input') ∧
      input'.Fresh ∧ input.source.Same input'.source := by
  cases hseek : input.seekTo s.pos with
  | mk outcome there =>
    obtain ⟨b, rfl, hplace, hfresh, hsame⟩ : ∃ b, outcome = .ok b ∧ there.position = s.pos ∧
        there.Fresh ∧ input.source.Same there.source := by
      rcases Input.seekTo_spec hseek with
        ⟨reason, hrefused, -, -⟩ | ⟨hplace, rfl, rfl⟩ | ⟨-, hsame, hrange, hblock, hok, hplace⟩
      · exact absurd hrefused (ho.onTell_ne _ reason)
      · exact ⟨_, rfl, hplace, hi.later, input.source.same_later⟩
      · have hok := hok ho (by omega)
        exact ⟨_, hok, hplace _ hok, hrange.fresh_of_empty hblock, hsame⟩
    obtain ⟨input', hread, hfresh', hsame'⟩ := Input.readExact_of_obliging s.size hfresh
      (ho.of_same hsame) (by rw [hplace, hsame.content]; exact hs)
    rw [hplace, hsame.content] at hread
    refine ⟨input', ?_, hfresh', hsame.trans hsame'⟩
    unfold fetch
    rw [hseek]
    dsimp only
    rw [hread]

variable {o : Opened} {content : ByteArray}

theorem mem_advanceAt {place : Nat} {t u : Track} (ht : o.tracks[place]? = some t)
    (hu : u ∈ advanceAt o.tracks place t) : ∃ v ∈ o.tracks, u.samples = v.samples := by
  obtain ⟨j, hj⟩ := List.mem_iff_getElem?.1 hu
  rw [getElem?_advanceAt ht, Option.map_eq_some_iff] at hj
  obtain ⟨v, hv, rfl⟩ := hj
  exact ⟨v, List.mem_of_getElem? hv, rfl⟩

theorem read_of_fetch_ok {place : Nat} {t : Track} {s : Sample} {data : ByteArray} {input : Input}
    (hfirst : first? o.tracks = some (place, t, s)) (hfetch : fetch o.input t s = (.ok data, input)) :
    o.read = (.ok (t.handOver s data),
      { o with
        input
        tracks := advanceAt o.tracks place t
        handed := o.handed.push (t.handOver s data) }) := by
  unfold read
  rw [hfirst]
  dsimp only
  rw [hfetch]
  rfl

theorem read_of_fetch_error {place : Nat} {t : Track} {s : Sample} {e : Error} {input : Input}
    (hfirst : first? o.tracks = some (place, t, s)) (hfetch : fetch o.input t s = (.error e, input)) :
    o.read = (.error e, { o with input }) := by
  unfold read
  rw [hfirst]
  dsimp only
  rw [hfetch]

/-- A reading delivers the sample whose turn it is. -/
theorem read_sound (h : o.Sound content) {place : Nat} {t : Track} {s : Sample}
    (hfirst : first? o.tracks = some (place, t, s)) :
    ∃ o', o.read = (.ok (t.delivery content s), o') ∧
      o'.tracks = advanceAt o.tracks place t ∧ o'.Sound content := by
  obtain ⟨ht, hs⟩ := first?_spec hfirst
  have hinside := h.inside t (List.mem_of_getElem? ht) s (Array.mem_of_getElem? hs)
  obtain ⟨hfresh, ho, rfl, hbound, hall⟩ := h
  obtain ⟨input', hfetch, hfresh', hsame⟩ := fetch_of_obliging hfresh ho t hinside hbound
  refine ⟨_, read_of_fetch_ok hfirst hfetch, rfl, ?_⟩
  refine ⟨hfresh', ho.of_same hsame, hsame.content, hbound, fun u hu r hr => ?_⟩
  obtain ⟨v, hv, hsamples⟩ := mem_advanceAt ht hu
  exact hall v hv r (hsamples ▸ hr)

theorem read_end (h : first? o.tracks = none) : o.read = (.error .endOfStream, o) := by
  unfold read
  rw [h]

end Opened

namespace Demuxer

/-- The demuxer after so many readings, whatever came of them. -/
def after (d : Demuxer) : Nat → Demuxer
  | 0 => d
  | k + 1 => d.read.2.after k

theorem tracks_of_opened {d : Demuxer} {o : Opened} (h : d.opened = some o) : d.tracks = o.tracks := by
  rw [tracks, h]
  rfl

theorem read_of_opened {d : Demuxer} {o o' : Opened} {outcome : Except Error Delivery}
    (h : d.opened = some o) (hread : o.read = (outcome, o')) :
    d.read = (outcome, { d with opened := some o' }) := by
  unfold read
  rw [h]
  dsimp only
  rw [hread]

/-- One reading after the other delivers what the turns say, and then nothing any more. -/
theorem after_sound {d : Demuxer} {o : Opened} {content : ByteArray} (hd : d.opened = some o)
    (h : o.Sound content) :
    (∀ (k : Nat) (turn : Turn), (Opened.turns o.tracks)[k]? = some turn → ∃ t s,
      o.tracks[turn.place]? = some t ∧ t.samples[turn.number]? = some s ∧
      (d.after k).read.1 = .ok (t.delivery content s)) ∧
    ∀ k, (Opened.turns o.tracks).length ≤ k → (d.after k).read.1 = .error .endOfStream := by
  generalize htracks : o.tracks = tracks
  induction tracks using Opened.turns.induct generalizing d o with
  | case1 tracks hfirst =>
    subst htracks
    rw [Opened.turns_eq_nil hfirst]
    have hread := read_of_opened hd (Opened.read_end hfirst)
    have hstay : ({ d with opened := some o } : Demuxer) = d := by rw [← hd]
    rw [hstay] at hread
    refine ⟨nofun, fun k _ => ?_⟩
    induction k with
    | zero => rw [after, hread]
    | succ k ih =>
      rw [after, hread]
      exact ih (Nat.zero_le _)
  | case2 tracks place t s hfirst ih =>
    subst htracks
    rw [Opened.turns_eq_cons hfirst]
    obtain ⟨ht, hs⟩ := Opened.first?_spec hfirst
    obtain ⟨o', hread, htracks', hsound'⟩ := Opened.read_sound h hfirst
    have hread := read_of_opened hd hread
    obtain ⟨hok, hend⟩ := ih (d := { d with opened := some o' }) rfl hsound' htracks'
    constructor
    · intro k turn hturn
      cases k with
      | zero =>
        cases hturn
        exact ⟨t, s, ht, hs, by rw [after, hread]⟩
      | succ k =>
        rw [List.getElem?_cons_succ] at hturn
        obtain ⟨u', s', hu', hs', hdelivered⟩ := hok k turn hturn
        rw [Opened.getElem?_advanceAt ht, Option.map_eq_some_iff] at hu'
        obtain ⟨u, hu, rfl⟩ := hu'
        exact ⟨u, s', hu, hs', by rw [after, hread]; exact hdelivered⟩
    · intro k hk
      cases k with
      | zero => simp at hk
      | succ k =>
        rw [after, hread]
        exact hend k (by simpa using hk)

/-- What is open after a file was opened whose source answers every request. -/
theorem openInput_sound {d d' : Demuxer} (input : Input) (ho : input.source.Obliging)
    (hbound : (input.source.content.size : Int) < Source.placeBound)
    (h : (d.openInput input).value = (.ok (), d')) :
    ∃ o, d'.opened = some o ∧ o.Sound input.source.content ∧ ∀ t ∈ o.tracks, t.cursor = 0 := by
  obtain ⟨content, input', o, warnings, hread, hopen, rfl⟩ := openInput_eq_ok_iff.1 h
  obtain ⟨parsed, tracks, -, htracks, -, rfl, -⟩ := Opened.ofBytes_eq_ok_iff.1 hopen
  obtain ⟨hsame, hfresh⟩ := Input.readAll_spec hread
  have hcontent : content = input.source.content := by
    have hall := Input.readAll_of_obliging ho
    rw [hread] at hall
    exact Except.ok.inj hall
  subst hcontent
  refine ⟨_, rfl, ⟨hfresh, ho.of_same hsame, hsame.content, hbound, fun t ht s hs => ?_⟩,
    fun t ht => ?_⟩
  · obtain ⟨draft, hdraft⟩ := Opened.exists_finish_of_mem htracks ht
    obtain ⟨c, samples, hindex, rfl⟩ := TrackDraft.finish_eq_ok_iff.1 hdraft
    exact IndexTables.index_inside hindex hs
  · obtain ⟨draft, hdraft⟩ := Opened.exists_finish_of_mem htracks ht
    obtain ⟨c, samples, -, rfl⟩ := TrackDraft.finish_eq_ok_iff.1 hdraft
    rfl

/-- The readings deliver the samples whose turns these are, and then tell that there are no more. -/
structure Delivers (d : Demuxer) (content : ByteArray) (turns : List Turn) : Prop where
  interleaves : Interleaves d.tracks turns
  unread : ∀ t ∈ d.tracks, t.cursor = 0
  length_eq : turns.length = (d.tracks.map Track.sampleCount).sum
  delivered : ∀ (k : Nat) (turn : Turn), turns[k]? = some turn → ∃ t s,
    d.tracks[turn.place]? = some t ∧ t.samples[turn.number]? = some s ∧
    s.pos + s.size ≤ content.size ∧ (d.after k).read.1 = .ok (t.delivery content s)
  finished : ∀ k, turns.length ≤ k → (d.after k).read.1 = .error .endOfStream

/-- Every track delivers all its samples in order. -/
theorem Delivers.numbers {d : Demuxer} {content : ByteArray} {turns : List Turn}
    (h : d.Delivers content turns) {place : Nat} {t : Track} (ht : d.tracks[place]? = some t) :
    (turns.filter (·.place = place)).map (·.number) = List.range t.sampleCount := by
  rw [h.interleaves.complete place t ht, h.unread t (List.mem_of_getElem? ht), Nat.sub_zero,
    ← List.range_eq_range']
  rfl

/-- The readings of a file that was opened from memory follow its turns. -/
theorem exists_delivers {d d' : Demuxer} {content : ByteArray}
    (hbound : (content.size : Int) < Source.placeBound)
    (h : (d.openInput (Input.ofBytes content)).value = (.ok (), d')) :
    ∃ turns, d'.Delivers content turns := by
  obtain ⟨o, hopened, hsound, hcursor⟩ :=
    openInput_sound (Input.ofBytes content) (Source.obliging_ofBytes content) hbound h
  have htracks := tracks_of_opened hopened
  obtain ⟨hok, hend⟩ := after_sound hopened hsound
  refine ⟨Opened.turns o.tracks, ?_, ?_, ?_, fun k turn hk => ?_, hend⟩
  · rw [htracks]
    exact Opened.interleaves_turns o.tracks
  · rw [htracks]
    exact hcursor
  · rw [htracks, Opened.length_turns, Opened.remaining_of_unread hcursor]
  · obtain ⟨t, s, ht, hs, hread⟩ := hok k turn hk
    have hinside := hsound.inside t (List.mem_of_getElem? ht) s (Array.mem_of_getElem? hs)
    exact ⟨t, s, htracks ▸ ht, hs, hinside, hread⟩

/-- **An opened file delivers every sample, in the order of the file, and then no more.**  The file
is any run of bytes that can be numbered, held in memory; `turns` says which sample comes with which
reading. -/
theorem read_interleaves {d d' : Demuxer} {content : ByteArray}
    (hbound : (content.size : Int) < Source.placeBound)
    (h : (d.openInput (Input.ofBytes content)).value = (.ok (), d')) :
    ∃ turns : List Turn, Interleaves d'.tracks turns ∧ (∀ t ∈ d'.tracks, t.cursor = 0) ∧
      turns.length = (d'.tracks.map Track.sampleCount).sum ∧
      (∀ place t, d'.tracks[place]? = some t →
        (turns.filter (·.place = place)).map (·.number) = List.range t.sampleCount) ∧
      (∀ (k : Nat) (turn : Turn), turns[k]? = some turn → ∃ t s,
        d'.tracks[turn.place]? = some t ∧ t.samples[turn.number]? = some s ∧
        s.pos + s.size ≤ content.size ∧ (d'.after k).read.1 = .ok (t.delivery content s)) ∧
      (∀ k, turns.length ≤ k → (d'.after k).read.1 = .error .endOfStream) ∧
      ((∀ t ∈ d'.tracks, t.samples.toList.Pairwise (·.pos ≤ ·.pos)) →
        (turns.filterMap (Turn.sample? d'.tracks)).Pairwise (·.pos ≤ ·.pos)) := by
  obtain ⟨turns, hturns⟩ := exists_delivers hbound h
  exact ⟨turns, hturns.interleaves, hturns.unread, hturns.length_eq, fun _ _ => hturns.numbers,
    hturns.delivered, hturns.finished, hturns.interleaves.ascending⟩

/-- A file with one track of two samples, of one and of two bytes. -/
def tinyFile : ByteArray := ⟨#[
  -- `moov`, `trak` and `mdia`
  0, 0, 0, 204, 109, 111, 111, 118, 0, 0, 0, 196, 116, 114, 97, 107, 0, 0, 0, 188, 109, 100, 105,
  97,
  -- `mdhd`
  0, 0, 0, 32, 109, 100, 104, 100, 0, 0, 0, 0, 0, 0, 0, 0, 0, 0, 0, 0, 0, 0, 3, 232, 0, 0, 0, 0,
  0, 0, 0, 0,
  -- `minf` and `stbl`
  0, 0, 0, 148, 109, 105, 110, 102, 0, 0, 0, 140, 115, 116, 98, 108,
  -- `stsd`
  0, 0, 0, 32, 115, 116, 115, 100, 0, 0, 0, 0, 0, 0, 0, 1, 0, 0, 0, 16, 103, 112, 109, 100, 0, 0,
  0, 0, 0, 0, 0, 0,
  -- `stts`
  0, 0, 0, 24, 115, 116, 116, 115, 0, 0, 0, 0, 0, 0, 0, 1, 0, 0, 0, 2, 0, 0, 0, 5,
  -- `stsc`
  0, 0, 0, 28, 115, 116, 115, 99, 0, 0, 0, 0, 0, 0, 0, 1, 0, 0, 0, 1, 0, 0, 0, 2, 0, 0, 0, 1,
  -- `stsz`
  0, 0, 0, 28, 115, 116, 115, 122, 0, 0, 0, 0, 0, 0, 0, 0, 0, 0, 0, 2, 0, 0, 0, 1, 0, 0, 0, 2,
  -- `stco`
  0, 0, 0, 20, 115, 116, 99, 111, 0, 0, 0, 0, 0, 0, 0, 1, 0, 0, 0, 212,
  -- `mdat`
  0, 0, 0, 11, 109, 100, 97, 116, 97, 98, 99]⟩

set_option maxRecDepth 100000 in
theorem tinyFile_opens :
    let opening := (({} : Demuxer).openInput (Input.ofBytes tinyFile)).value
    opening.1.isOk = true ∧ opening.2.tracks.map Track.sampleCount = [2] := by
  decide +kernel

theorem exists_eq_ok_of_isOk {outcome : Except Error Unit × Demuxer} (h : outcome.1.isOk = true) :
    outcome = (.ok (), outcome.2) := by
  obtain ⟨e | u, d⟩ := outcome
  · cases h
  · rfl

/-- Two readings of the file deliver its samples, and the third tells that there are no more. -/
theorem tinyFile_interleaves :
    (tinyFile.size : Int) < Source.placeBound ∧ ∃ d',
      (({} : Demuxer).openInput (Input.ofBytes tinyFile)).value = (.ok (), d') ∧
      ∃ turns : List Turn, Interleaves d'.tracks turns ∧ turns.length = 2 ∧
        (d'.after 2).read.1 = .error .endOfStream := by
  have hbound : (tinyFile.size : Int) < Source.placeBound := by decide +kernel
  obtain ⟨hok, hcount⟩ := tinyFile_opens
  have hopen := exists_eq_ok_of_isOk hok
  obtain ⟨turns, hturns, -, hlength, -, -, hend, -⟩ := read_interleaves hbound hopen
  rw [hcount] at hlength
  exact ⟨hbound, _, hopen, turns, hturns, hlength, hend 2 (Nat.le_of_eq hlength)⟩

end Demuxer

end IsoMedia
