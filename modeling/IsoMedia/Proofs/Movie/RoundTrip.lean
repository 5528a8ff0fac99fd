import IsoMedia.Proofs.Demuxer.Delivery
import IsoMedia.Proofs.Movie.Data
import IsoMedia.Proofs.Movie.Tracks

/-!
# A written movie is read as it was planned

The file of a valid plan opens without a warning, whatever is done about unknown boxes.  Every track
of the plan is there with its tables, and the readings deliver the samples that were written.

* `Movie.read_file` : opening the file of a plan, and reading it to its end.
-/

namespace IsoMedia

open IsoMedia.Tree

variable {policy : UnknownBoxPolicy} {levels : Nat}

/-! ### The walk -/

/-- Written tracks are walked one after the other. -/
theorem walked_tracks {plans : List TrackPlan} (h : ∀ p ∈ plans, p.Valid ∧ p.box.Fits)
    (g : Gathered) :
    ∃ drafts : List TrackDraft,
      List.Forall₂ (fun numbered d => numbered.1.Drafted numbered.2 d)
        (plans.zipIdx g.nextNumber) drafts ∧
      Walked policy (levels + 5) (plans.map TrackPlan.box) g
        { g with nextNumber := g.nextNumber + plans.length
                 finished := g.finished ++ drafts.toArray } := by
  induction plans generalizing g with
  | nil => exact ⟨[], .nil, by simpa using walked_nil⟩
  | cons p plans ih =>
    rw [List.forall_mem_cons] at h
    obtain ⟨d, hd, hwalked⟩ := h.1.1.walked h.1.2 g
    obtain ⟨drafts, hdrafts, hrest⟩ :=
      ih h.2 { g with nextNumber := g.nextNumber + 1, finished := g.finished ++ #[d] }
    refine ⟨d :: drafts, .cons hd hdrafts, hwalked ?_⟩
    have hfinished :
        g.finished ++ #[d] ++ drafts.toArray = g.finished ++ (d :: drafts).toArray := by
      apply Array.toList_inj.1
      simp
    have hcount : g.nextNumber + 1 + plans.length = g.nextNumber + (plans.length + 1) := by omega
    rw [hfinished, hcount] at hrest
    exact hrest

namespace Movie

variable {m : Movie}

theorem Valid.box_fits (hm : m.Valid) : m.box.Fits := by
  refine hm.fits m.box ?_
  unfold boxes
  split <;> simp

theorem Valid.plan_fits (hm : m.Valid) {p : TrackPlan} (hp : p ∈ m.plans) : p.box.Fits :=
  Box.fits_of_mem (List.mem_cons_of_mem _ (List.mem_map_of_mem hp)) hm.box_fits

/-- The boxes of a valid plan are walked, and every track leaves its draft. -/
theorem Valid.walked (hm : m.Valid) :
    ∃ drafts : List TrackDraft,
      List.Forall₂ (fun numbered d => numbered.1.Drafted numbered.2 d) m.plans.zipIdx drafts ∧
      Walked policy maxDepth m.boxes {}
        { finished := drafts.toArray, nextNumber := m.plans.length } := by
  have hplans : ∀ p ∈ m.plans, p.Valid ∧ p.box.Fits := fun p hp =>
    ⟨hm.plans p hp, hm.plan_fits hp⟩
  obtain ⟨drafts, hdrafts, htracks⟩ := @walked_tracks policy 26 _ hplans {}
  refine ⟨drafts, hdrafts, ?_⟩
  -- No track is walked outside of the movie, so there is no draft to begin with.
  have hmovie : Walked policy 31 (m.header :: m.plans.map TrackPlan.box) {}
      { finished := drafts.toArray, nextNumber := m.plans.length } := by
    rw [Array.empty_append, Nat.zero_add] at htracks
    exact walked_leaf (m.enters_header none) htracks
  unfold boxes
  split
  · exact walked_leaf (m.enters_fileType none) (walked_leaf (m.enters_data none)
      (walked_container rfl (by decide) rfl (fun _ _ => rfl) hm.box_fits hmovie walked_nil))
  · exact walked_leaf (m.enters_fileType none)
      (walked_container rfl (by decide) rfl (fun _ _ => rfl) hm.box_fits hmovie
        (walked_leaf (m.enters_data none) walked_nil))

end Movie

/-! ### The tracks -/

namespace TrackPlan

variable {p : TrackPlan}

/-- The track is the one that was planned. -/
structure Tracked (p : TrackPlan) (number : Nat) (t : Track) : Prop where
  number : t.number = number
  trackId : t.trackId = p.trackId
  handlerType : t.handlerType = some p.handlerType
  timescale : t.timescale = p.timescale
  codec : SampleFormat.codec? p.format = some t.codec
  mediaType : t.mediaType = t.codec.mediaType
  times : t.times = p.times
  offsets : t.offsets = p.offsets
  runs : t.runs = p.runs
  chunkOffsets : t.chunkOffsets = p.chunkOffsets
  sizes : t.sizes = p.sizes
  sync : t.sync = p.sync.map Table.keyNumbers
  sampleCount : t.sampleCount = p.samples.length
  samples : ∀ (k : Nat) (s : Sample), t.samples[k]? = some s →
    p.extents[k]? = some ⟨s.pos, s.size⟩ ∧ s.decodeTime = p.decodeTime k ∧
    s.presentationTime = p.presentationTime k

/-- The draft of a written track becomes the track that was planned. -/
theorem Valid.finish (hp : p.Valid) {number inputLength : Nat} {d : TrackDraft}
    (hd : p.Drafted number d) (hinside : ∀ c ∈ p.chunks, c.stop ≤ inputLength)
    (hchunks : p.chunks.length < 2 ^ 32) :
    ∃ t, d.finish inputLength = .ok t ∧ p.Tracked number t := by
  obtain ⟨samples, hindex, hcount, hsamples⟩ := hp.exists_index hinside hchunks
  obtain ⟨header, hheader, hid⟩ := hd.header
  obtain ⟨handler, hhandler, htype⟩ := hd.handler
  obtain ⟨mediaHeader, hmediaHeader, htimescale⟩ := hd.mediaHeader
  obtain ⟨description, metaData, hdescription, hmetaData, hcodec, hmedia⟩ := hd.description
  let complete : d.Complete :=
    { description, metaData, times := p.times, runs := p.runs, chunkOffsets := p.chunkOffsets
      sizes := p.sizes, mediaHeader, description_eq := hdescription, metaData_eq := hmetaData
      times_eq := hd.times, runs_eq := hd.runs, chunkOffsets_eq := hd.chunkOffsets
      sizes_eq := hd.sizes, mediaHeader_eq := hmediaHeader }
  have htables : complete.tables inputLength = p.indexTables inputLength := by
    unfold TrackDraft.Complete.tables indexTables
    rw [hd.offsets, hd.sync]
  refine ⟨complete.track samples,
    TrackDraft.finish_eq_ok_iff.2 ⟨complete, samples, htables ▸ hindex, rfl⟩, ?_⟩
  have hid' : (complete.track samples).trackId = p.trackId := by
    show (d.header.map (·.trackId)).getD 0 = _
    rw [hheader]
    exact hid
  have htype' : (complete.track samples).handlerType = some p.handlerType := by
    show d.handler.map (·.handlerType) = _
    rw [hhandler]
    exact congrArg some htype
  exact ⟨hd.number, hid', htype', htimescale, hcodec, hmedia, rfl, hd.offsets, rfl, rfl, rfl,
    hd.sync, hcount, hsamples⟩

/-- A sample of the plan, as it is handed over. -/
def delivery (p : TrackPlan) (codec : Codec) (number : Nat) (bytes : List UInt8) : Delivery :=
  { data := ⟨bytes.toArray⟩
    presentationTime := p.presentationTime number
    decodeTime := p.decodeTime number
    mediaType := codec.mediaType
    codec }

/-- The samples of the track lie where they were planned. -/
theorem Tracked.extents_eq {number : Nat} {t : Track} (h : p.Tracked number t) :
    t.samples.toList.map (fun s => Extent.mk s.pos s.size) = p.extents := by
  apply List.ext_getElem?
  intro k
  rw [List.getElem?_map, Array.getElem?_toList]
  cases hs : t.samples[k]? with
  | some s => exact (h.samples k s hs).1.symm
  | none =>
    have hcount : t.samples.size = p.samples.length := h.sampleCount
    have hk := Array.getElem?_eq_none_iff.1 hs
    rw [List.getElem?_eq_none (by rw [length_extents]; omega)]
    rfl

/-- Where every chunk starts behind the one before it, the samples of the track ascend. -/
theorem Tracked.ascending {number : Nat} {t : Track} (h : p.Tracked number t)
    (hdisjoint : p.chunks.Pairwise Chunk.Disjoint)
    (hasc : (p.chunks.map Chunk.start).Pairwise (· < ·)) :
    t.samples.toList.Pairwise (·.pos ≤ ·.pos) := by
  have hextents := pairwise_extents hdisjoint hasc
  rwa [← h.extents_eq, List.pairwise_map] at hextents

end TrackPlan

/-- The tracks are those that were planned, in the same order. -/
structure Planned (plans : List TrackPlan) (tracks : List Track) : Prop where
  length_eq : tracks.length = plans.length
  tracked : ∀ (place : Nat) (p : TrackPlan) (t : Track), plans[place]? = some p →
    tracks[place]? = some t → p.Tracked place t

namespace Planned

variable {plans : List TrackPlan} {tracks : List Track} {place : Nat}

theorem exists_plan (h : Planned plans tracks) {t : Track} (ht : tracks[place]? = some t) :
    ∃ p, plans[place]? = some p ∧ p.Tracked place t := by
  obtain ⟨hplace, -⟩ := List.getElem?_eq_some_iff.1 ht
  have hp := List.getElem?_eq_getElem (h.length_eq ▸ hplace)
  exact ⟨_, hp, h.tracked place _ t hp ht⟩

theorem exists_track (h : Planned plans tracks) {p : TrackPlan} (hp : plans[place]? = some p) :
    ∃ t, tracks[place]? = some t ∧ p.Tracked place t := by
  obtain ⟨hplace, -⟩ := List.getElem?_eq_some_iff.1 hp
  have ht := List.getElem?_eq_getElem (h.length_eq.symm ▸ hplace)
  exact ⟨_, ht, h.tracked place p _ hp ht⟩

theorem sampleCounts (h : Planned plans tracks) :
    tracks.map Track.sampleCount = plans.map (·.samples.length) := by
  apply List.ext_getElem?
  intro place
  rw [List.getElem?_map, List.getElem?_map]
  cases ht : tracks[place]? with
  | some t =>
    obtain ⟨p, hp, htracked⟩ := h.exists_plan ht
    rw [hp]
    exact congrArg some htracked.sampleCount
  | none =>
    have hplace := List.getElem?_eq_none_iff.1 ht
    rw [List.getElem?_eq_none (h.length_eq ▸ hplace)]
    rfl

end Planned

/-- The drafts of written tracks become the tracks that were planned, in their order.  The first of
the drafts has the given number. -/
theorem exists_tracks {plans : List TrackPlan} {number inputLength : Nat} {drafts : List TrackDraft}
    (hdrafts : List.Forall₂ (fun numbered d => numbered.1.Drafted numbered.2 d)
      (plans.zipIdx number) drafts)
    (h : ∀ p ∈ plans, p.Valid ∧ (∀ c ∈ p.chunks, c.stop ≤ inputLength) ∧
      p.chunks.length < 2 ^ 32) :
    ∃ tracks, List.Forall₂ (fun d t => d.finish inputLength = .ok t) drafts tracks ∧
      tracks.length = plans.length ∧
      ∀ (place : Nat) (p : TrackPlan) (t : Track), plans[place]? = some p →
        tracks[place]? = some t → p.Tracked (number + place) t := by
  induction plans generalizing number drafts with
  | nil =>
    rw [List.zipIdx_nil, List.forall₂_nil_left_iff] at hdrafts
    subst hdrafts
    exact ⟨[], .nil, rfl, by simp⟩
  | cons p plans ih =>
    rw [List.forall_mem_cons] at h
    obtain ⟨⟨hp, hinside, hchunks⟩, hrest⟩ := h
    rw [List.zipIdx_cons] at hdrafts
    cases hdrafts with
    | cons hd hds =>
      obtain ⟨t, hfinish, htracked⟩ := hp.finish hd hinside hchunks
      obtain ⟨tracks, hfinishes, hlength, hall⟩ := ih hds hrest
      refine ⟨t :: tracks, .cons hfinish hfinishes, congrArg (· + 1) hlength, ?_⟩
      intro place q u hq hu
      cases place with
      | zero =>
        cases hq
        cases hu
        exact htracked
      | succ place =>
        rw [← Nat.add_assoc, Nat.add_right_comm]
        exact hall place q u hq hu

/-! ### The whole file -/

namespace Movie

variable {m : Movie}

theorem Valid.mem_chunks {p : TrackPlan} (hp : p ∈ m.plans) {c : Chunk} (hc : c ∈ p.chunks) :
    c ∈ m.chunks := List.mem_flatMap.2 ⟨p, hp, hc⟩

/-- The file is small enough for every place in it to be numbered. -/
theorem Valid.size_lt (hm : m.Valid) : (m.file.size : Int) < Source.placeBound := by
  have hsize : m.file.size = m.fileType.size + m.box.size + m.data.size := by
    show (Box.allBytes m.boxes).length = _
    unfold boxes
    split <;>
    · simp only [Box.allBytes_cons, Box.allBytes_nil, List.length_append, Box.length_bytes,
        List.length_nil]
      omega
  have htype : m.fileType.size < 2 ^ 32 := hm.fits _ (by unfold boxes; split <;> simp)
  have hbox : m.box.size < 2 ^ 32 := hm.box_fits
  have hdata : m.data.size < 2 ^ 32 := hm.fits _ (by unfold boxes; split <;> simp)
  rw [hsize]
  unfold Source.placeBound
  omega

/-- The file of a valid plan opens, with a track for each of its plans. -/
theorem Valid.opens (hm : m.Valid) (d : Demuxer) :
    ∃ d', (d.openInput (Input.ofBytes m.file)).value = (.ok (), d') ∧ d'.warnings = #[] ∧
      Planned m.plans d'.tracks := by
  obtain ⟨drafts, hdrafts, hwalked⟩ := @Valid.walked d.options.unknownBoxes m hm
  obtain ⟨children, hbuild⟩ := build_eq_ok hm.fits hwalked
  have hplans : ∀ p ∈ m.plans, p.Valid ∧
      (∀ c ∈ p.chunks, c.stop ≤ (Box.allBytes m.boxes).length) ∧ p.chunks.length < 2 ^ 32 := by
    intro p hp
    exact ⟨hm.plans p hp, fun c hc => hm.stop_le (Valid.mem_chunks hp hc),
      (hm.plans p hp).length_chunks_lt (hm.plan_fits hp)⟩
  obtain ⟨tracks, hfinish, hlength, htracked⟩ := exists_tracks hdrafts hplans
  have hsome : tracks ≠ [] := by
    rintro rfl
    exact hm.nonempty (List.eq_nil_of_length_eq_zero hlength.symm)
  have hcontent := Input.readAll_of_obliging (i := Input.ofBytes m.file)
    (Source.obliging_ofBytes m.file)
  obtain ⟨outcome, input, hread⟩ : ∃ outcome input,
      (Input.ofBytes m.file).readAll = (outcome, input) := ⟨_, _, rfl⟩
  rw [hread] at hcontent
  cases hcontent
  have hopen : (Opened.ofBytes d.options.unknownBoxes (Box.allBytes m.boxes) input).result = _ :=
    Opened.ofBytes_eq_ok_iff.2 ⟨_, tracks, hbuild, hfinish, hsome, rfl, rfl⟩
  refine ⟨_, Demuxer.openInput_eq_ok_iff.2 ⟨m.file, input, _, _, hread, hopen, rfl⟩, rfl, hlength,
    ?_⟩
  -- Tracks are numbered from zero.
  intro place p t hp ht
  rw [← Nat.zero_add place]
  exact htracked place p t hp ht

/-- The bytes of a sample of a track are those that were planned. -/
theorem Valid.delivery_eq (hm : m.Valid) {p : TrackPlan} (hp : p ∈ m.plans) {number k : Nat}
    {t : Track} (ht : p.Tracked number t) {s : Sample} (hs : t.samples[k]? = some s) :
    ∃ codec bytes, SampleFormat.codec? p.format = some codec ∧ p.samples[k]? = some bytes ∧
      t.delivery m.file s = p.delivery codec k bytes := by
  obtain ⟨hextent, hdecode, hpresentation⟩ := ht.samples k s hs
  obtain ⟨c, hc, bytes, hbytes, hholds⟩ := exists_chunk_holds hextent
  refine ⟨t.codec, bytes, ht.codec, hbytes, ?_⟩
  have hextract := hm.extract_eq (Valid.mem_chunks hp hc) hholds
  unfold Track.delivery TrackPlan.delivery
  rw [hextract, hdecode, hpresentation, ht.mediaType]

/-- **A written movie is read as it was planned.**  Its file opens without a warning, whatever the
options, every track is there with its tables, and the readings deliver every sample of every track
in order, with its own bytes and times, and then tell that there are no more.  Where the chunks of
every track follow one another, the samples come in the order in which they lie in the file. -/
theorem read_file (hm : m.Valid) (d : Demuxer) :
    ∃ d', (d.openInput (Input.ofBytes m.file)).value = (.ok (), d') ∧ d'.warnings = #[] ∧
      Planned m.plans d'.tracks ∧ ∃ turns : List Turn,
        turns.length = (m.plans.map (·.samples.length)).sum ∧
        (∀ (place : Nat) (p : TrackPlan), m.plans[place]? = some p →
          (turns.filter (·.place = place)).map (·.number) = List.range p.samples.length) ∧
        (∀ (k : Nat) (turn : Turn), turns[k]? = some turn → ∃ p codec bytes,
          m.plans[turn.place]? = some p ∧ SampleFormat.codec? p.format = some codec ∧
          p.samples[turn.number]? = some bytes ∧
          (d'.after k).read.1 = .ok (p.delivery codec turn.number bytes)) ∧
        (∀ k, turns.length ≤ k → (d'.after k).read.1 = .error .endOfStream) ∧
        ((∀ p ∈ m.plans, (p.chunks.map Chunk.start).Pairwise (· < ·)) →
          (turns.filterMap (Turn.sample? d'.tracks)).Pairwise (·.pos ≤ ·.pos)) := by
  obtain ⟨d', hopen, hwarnings, hplanned⟩ := hm.opens d
  obtain ⟨turns, hturns⟩ := Demuxer.exists_delivers hm.size_lt hopen
  refine ⟨d', hopen, hwarnings, hplanned, turns, ?_, fun place p hp => ?_, fun k turn hk => ?_,
    hturns.finished, fun hasc => hturns.interleaves.ascending fun t ht => ?_⟩
  · rw [hturns.length_eq, hplanned.sampleCounts]
  · obtain ⟨t, ht, htracked⟩ := hplanned.exists_track hp
    rw [hturns.numbers ht, htracked.sampleCount]
  · obtain ⟨t, s, ht, hs, -, hread⟩ := hturns.delivered k turn hk
    obtain ⟨p, hp, htracked⟩ := hplanned.exists_plan ht
    obtain ⟨codec, bytes, hcodec, hbytes, hdelivery⟩ :=
      hm.delivery_eq (List.mem_of_getElem? hp) htracked hs
    exact ⟨p, codec, bytes, hp, hcodec, hbytes, by rw [← hdelivery]; exact hread⟩
  · obtain ⟨place, hplace⟩ := List.mem_iff_getElem?.1 ht
    obtain ⟨p, hp, htracked⟩ := hplanned.exists_plan hplace
    have hmem := List.mem_of_getElem? hp
    exact htracked.ascending ((List.pairwise_flatMap.1 hm.disjoint).1 p hmem) (hasc p hmem)

/-- A track of timed data with two chunks, around the chunk of a track of text. -/
def twoTracks : Movie where
  brands := ⟨.ofChars 'i' 's' 'o' 'm', 0, []⟩
  timescale := 1000
  plans :=
    [{ trackId := 1, handlerType := .ofChars 'm' 'e' 't' 'a', timescale := 1000
       format := .ofChars 'g' 'p' 'm' 'd', entryFields := zeros 8, entryBoxes := []
       times := [⟨3, 10⟩], offsets := some [⟨1, 5⟩], runs := [⟨1, 2, 1⟩, ⟨2, 1, 1⟩]
       chunks := [⟨24, [[1], [2, 3]]⟩, ⟨29, [[4]]⟩], fixedSize := 0, wide := false
       sync := some [1]
       tables := [.times [⟨3, 10⟩], .sync [1], .offsets [⟨1, 5⟩], .runs [⟨1, 2, 1⟩, ⟨2, 1, 1⟩],
         .sizes ⟨0, 3, #[1, 2, 1]⟩, .narrowOffsets [24, 29]] },
     { trackId := 2, handlerType := .ofChars 't' 'e' 'x' 't', timescale := 90
       format := .ofChars 't' 'x' '3' 'g', entryFields := zeros 30, entryBoxes := []
       times := [⟨1, 90⟩], offsets := none, runs := [⟨1, 1, 1⟩]
       chunks := [⟨27, [[5, 6]]⟩], fixedSize := 2, wide := true, sync := none
       tables := [.times [⟨1, 90⟩], .runs [⟨1, 1, 1⟩], .sizes ⟨2, 1, #[]⟩, .wideOffsets [27]] }]
  filler := zeros 6
  dataFirst := true

theorem twoTracks_plans : ∀ p ∈ twoTracks.plans, p.Valid := by
  refine List.forall_mem_cons.2 ⟨?_, List.forall_mem_singleton.2 ?_⟩
  · refine ⟨⟨.binData, by decide +kernel, by decide, List.forall_mem_nil _⟩, by decide, by decide,
      by decide, by decide, fun k c hc => ?_, by decide, by decide, by decide⟩
    match k with
    | 0 => cases hc; rfl
    | 1 => cases hc; rfl
    | k + 2 => cases hc
  · refine ⟨⟨.movText, by decide +kernel, by decide, List.forall_mem_nil _⟩, by decide, by decide,
      by decide, by decide, fun k c hc => ?_, by decide, by decide, by decide⟩
    match k with
    | 0 => cases hc; rfl
    | k + 1 => cases hc

theorem twoTracks_valid : twoTracks.Valid :=
  ⟨List.cons_ne_nil _ _, twoTracks_plans, by decide +kernel, by decide +kernel, by decide +kernel⟩

/-- Four readings deliver the samples, and the fifth tells that there are no more. -/
theorem twoTracks_read :
    twoTracks.Valid ∧ ∃ d',
      (({} : Demuxer).openInput (Input.ofBytes twoTracks.file)).value = (.ok (), d') ∧
      d'.tracks.length = 2 ∧ (d'.after 4).read.1 = .error .endOfStream := by
  obtain ⟨d', hopen, -, hplanned, turns, hlength, -, -, hend, -⟩ := read_file twoTracks_valid {}
  exact ⟨twoTracks_valid, d', hopen, hplanned.length_eq, hend 4 (Nat.le_of_eq hlength)⟩

end Movie

end IsoMedia
