import IsoMedia.Proofs.Demuxer.Reopening

/-!
# All or nothing

A reading hands over one sample and moves its track on by one, or it hands over nothing and moves no
track on.  The source behind an open file may do as it likes: refuse requests, hand over fewer bytes
than asked for, end early, or be another source altogether from one reading to the next.

An open file keeps the samples that it handed over (`Opened.handed`), and `Opened.Balanced` is how many
these are.  Every event keeps this (`Demuxer.balanced_step`), and so does every history
(`Demuxer.balanced_afterEvents`).

* `Demuxer.read_all_or_nothing` : what a reading does after any history, and how the cursors count
  what was handed over.
-/

namespace IsoMedia

namespace Opened

/-- How many samples the tracks are past. -/
def passed (tracks : List Track) : Nat := (tracks.map Track.cursor).sum

/-- No track is past more samples than it has. -/
def Within (tracks : List Track) : Prop := ∀ t ∈ tracks, t.cursor ≤ t.sampleCount

theorem passed_of_unread {tracks : List Track} (h : ∀ t ∈ tracks, t.cursor = 0) :
    passed tracks = 0 := by
  induction tracks with
  | nil => rfl
  | cons t ts ih =>
    rw [List.forall_mem_cons] at h
    rw [passed, List.map_cons, List.sum_cons, h.1, Nat.zero_add]
    exact ih h.2

theorem passed_advanceAt {tracks : List Track} {place : Nat} {t : Track}
    (h : tracks[place]? = some t) :
    passed (advanceAt tracks place t) = passed tracks + 1 := by
  induction tracks generalizing place with
  | nil => cases h
  | cons u us ih =>
    cases place with
    | zero =>
      cases h
      simp only [passed, advanceAt, List.set_cons_zero, List.map_cons, List.sum_cons,
        Track.advance]
      omega
    | succ n =>
      have := ih (by simpa using h)
      simp only [passed, advanceAt, List.set_cons_succ, List.map_cons, List.sum_cons] at *
      omega

theorem within_advanceAt {tracks : List Track} (hall : Within tracks) {place : Nat} {t : Track}
    {s : Sample} (h : first? tracks = some (place, t, s)) :
    Within (advanceAt tracks place t) := by
  have hs := (first?_spec h).2
  intro u hu
  rcases List.mem_or_eq_of_mem_set hu with hu | rfl
  · exact hall u hu
  · exact (Array.getElem?_eq_some_iff.1 hs).1

/-- What comes of a reading is what comes of fetching the sample whose turn it is. -/
theorem read_of_first {o : Opened} {place : Nat} {t : Track} {s : Sample}
    (h : first? o.tracks = some (place, t, s)) :
    o.read.1 = (fetch o.input t s).1.map (t.handOver s) := by
  cases hfetch : fetch o.input t s with
  | mk outcome input =>
    cases outcome with
    | error e => exact congrArg Prod.fst (read_of_fetch_error h hfetch)
    | ok data => exact congrArg Prod.fst (read_of_fetch_ok h hfetch)

/-- The cursors count the samples that were handed over, and stay within the tracks. -/
structure Balanced (tracks : List Track) (handed : Array Delivery) : Prop where
  total : passed tracks = handed.size
  within : Within tracks

theorem balanced_of_unread {tracks : List Track} (h : ∀ t ∈ tracks, t.cursor = 0) :
    Balanced tracks #[] where
  total := passed_of_unread h
  within t ht := h t ht ▸ Nat.zero_le _

/-- What a reading may do to the tracks and to what was handed over, and what may come of it then. -/
inductive Turned (tracks : List Track) (handed : Array Delivery) :
    Except Error Delivery → List Track → Array Delivery → Prop
  /-- The sample whose turn it is was handed over, and its track alone moves on, by one. -/
  | delivered {place : Nat} {t : Track} {s : Sample} (turn : first? tracks = some (place, t, s))
      (data : ByteArray) :
      Turned tracks handed (.ok (t.handOver s data)) (tracks.set place { t with cursor := t.cursor + 1 })
        (handed.push (t.handOver s data))
  /-- Nothing was handed over, and no track moves on. -/
  | refused (e : Error) : Turned tracks handed (.error e) tracks handed

theorem Turned.balanced {tracks tracks' : List Track} {handed handed' : Array Delivery}
    {outcome : Except Error Delivery} (h : Turned tracks handed outcome tracks' handed')
    (hbalanced : Balanced tracks handed) : Balanced tracks' handed' := by
  obtain ⟨htotal, hwithin⟩ := hbalanced
  cases h with
  | refused e => exact ⟨htotal, hwithin⟩
  | delivered turn data =>
    refine ⟨?_, within_advanceAt hwithin turn⟩
    rw [Array.size_push, ← htotal]
    exact passed_advanceAt (first?_spec turn).1

theorem turned_read (o : Opened) : Turned o.tracks o.handed o.read.1 o.read.2.tracks o.read.2.handed := by
  cases hfirst : first? o.tracks with
  | none =>
    rw [read_end hfirst]
    exact .refused _
  | some next =>
    obtain ⟨place, t, s⟩ := next
    cases hfetch : fetch o.input t s with
    | mk outcome input =>
      cases outcome with
      | error e =>
        rw [read_of_fetch_error hfirst hfetch]
        exact .refused e
      | ok data =>
        rw [read_of_fetch_ok hfirst hfetch]
        exact .delivered hfirst data

/-- The source behind the file becomes another one. -/
def disturb (o : Opened) (become : Source → Source) : Opened :=
  { o with input := { o.input with source := become o.input.source } }

end Opened

namespace Demuxer

/-- The source behind the open file becomes another one. -/
def disturb (d : Demuxer) (become : Source → Source) : Demuxer :=
  { d with opened := d.opened.map (·.disturb become) }

@[simp] theorem tracks_disturb (d : Demuxer) (become : Source → Source) :
    (d.disturb become).tracks = d.tracks := by
  unfold disturb tracks
  cases d.opened <;> rfl

@[simp] theorem handed_disturb (d : Demuxer) (become : Source → Source) :
    (d.disturb become).handed = d.handed := by
  unfold disturb handed
  cases d.opened <;> rfl

theorem turned_read (d : Demuxer) :
    Opened.Turned d.tracks d.handed d.read.1 d.read.2.tracks d.read.2.handed := by
  cases hopened : d.opened with
  | none =>
    have hread : d.read = (.error (.invalidArgument .nothingOpen), d) := by rw [read, hopened]
    rw [hread]
    exact .refused _
  | some o =>
    have hread : d.read = (o.read.1, { d with opened := some o.read.2 }) :=
      read_of_opened hopened rfl
    have hhanded : d.handed = o.handed := by rw [handed, hopened]; rfl
    rw [hread, tracks_of_opened hopened, hhanded]
    exact o.turned_read

/-- Whatever the source has become, a reading does all or nothing. -/
theorem turned_read_disturb (d : Demuxer) (become : Source → Source) :
    Opened.Turned d.tracks d.handed (d.disturb become).read.1 (d.disturb become).read.2.tracks
      (d.disturb become).read.2.handed := by
  have h := (d.disturb become).turned_read
  rwa [tracks_disturb, handed_disturb] at h

/-- Whatever the source has become, a reading goes for the sample whose turn it is. -/
theorem read_disturb {d : Demuxer} {place : Nat} {t : Track} {s : Sample}
    (h : Opened.first? d.tracks = some (place, t, s)) (become : Source → Source) :
    ∃ o, (d.disturb become).opened = some o ∧
      (d.disturb become).read.1 = (Opened.fetch o.input t s).1.map (t.handOver s) := by
  cases hopened : d.opened with
  | none =>
    rw [tracks, hopened] at h
    cases h
  | some o =>
    have hdisturbed : (d.disturb become).opened = some (o.disturb become) := by
      rw [disturb, hopened]
      rfl
    have hread := congrArg Prod.fst (read_of_opened hdisturbed rfl)
    exact ⟨_, hdisturbed, hread.trans (Opened.read_of_first (tracks_of_opened hopened ▸ h))⟩

/-- Nothing of a file that was just opened has been delivered. -/
theorem unread_of_openInput {d d' : Demuxer} {input : Input}
    (h : (d.openInput input).value = (.ok (), d')) :
    d'.handed = #[] ∧ ∀ t ∈ d'.tracks, t.cursor = 0 := by
  obtain ⟨content, input', o, warnings, -, hopen, rfl⟩ := openInput_eq_ok_iff.1 h
  obtain ⟨parsed, tracks, -, htracks, -, rfl, -⟩ := Opened.ofBytes_eq_ok_iff.1 hopen
  refine ⟨rfl, fun t ht => ?_⟩
  obtain ⟨draft, hdraft⟩ := Opened.exists_finish_of_mem htracks ht
  obtain ⟨c, samples, -, htrack⟩ := TrackDraft.finish_eq_ok_iff.1 hdraft
  exact congrArg Track.cursor htrack

/-- Something that happens to a demuxer. -/
inductive Event where
  | openInput (input : Input)
  /-- A reading, before which the source becomes another one. -/
  | read (become : Source → Source)

/-- The demuxer after an event, whatever came of it. -/
def step (d : Demuxer) : Event → Demuxer
  | .openInput input => (d.openInput input).value.2
  | .read become => (d.disturb become).read.2

/-- The demuxer after events. -/
def afterEvents (d : Demuxer) (events : List Event) : Demuxer := events.foldl step d

/-- Every event keeps the cursors in step with what was handed over. -/
theorem balanced_step {d : Demuxer} (h : Opened.Balanced d.tracks d.handed) (e : Event) :
    Opened.Balanced (d.step e).tracks (d.step e).handed := by
  cases e with
  | read become => exact (d.turned_read_disturb become).balanced h
  | openInput input =>
    rw [step]
    cases hopen : (d.openInput input).value with
    | mk outcome d' =>
      cases outcome with
      | error e =>
        obtain ⟨rfl, -⟩ := openInput_fresh_of_error hopen
        exact h
      | ok u =>
        obtain ⟨hhanded, hunread⟩ := unread_of_openInput hopen
        dsimp only
        rw [hhanded]
        exact Opened.balanced_of_unread hunread

theorem balanced_afterEvents {d : Demuxer} (h : Opened.Balanced d.tracks d.handed)
    (events : List Event) :
    Opened.Balanced (d.afterEvents events).tracks (d.afterEvents events).handed := by
  induction events generalizing d with
  | nil => exact h
  | cons e events ih => exact ih (balanced_step h e)

theorem balanced_start (options : DemuxOptions) :
    Opened.Balanced ({ options } : Demuxer).tracks ({ options } : Demuxer).handed :=
  Opened.balanced_of_unread fun _ ht => absurd ht List.not_mem_nil

/-- **A reading does all or nothing.**  After any openings and readings, whatever the source does or
becomes, a reading either hands over the sample whose turn it is, once, and moves that track alone on
by one, or it hands over nothing, moves no track on, and the next reading goes for the same sample.

What was handed over counts from the last opening that succeeded: such an opening starts anew, and one
that fails leaves everything as it was.  So the cursors together count what was handed over since. -/
theorem read_all_or_nothing (options : DemuxOptions) (events : List Event) :
    let d := ({ options } : Demuxer).afterEvents events
    (∀ become, let reading := (d.disturb become).read
      (∃ place t s data, Opened.first? d.tracks = some (place, t, s) ∧
        d.tracks[place]? = some t ∧ t.samples[t.cursor]? = some s ∧
        reading.1 = .ok (t.handOver s data) ∧
        reading.2.handed = d.handed.push (t.handOver s data) ∧
        reading.2.tracks = d.tracks.set place { t with cursor := t.cursor + 1 }) ∨
      (∃ e, reading.1 = .error e ∧ reading.2.handed = d.handed ∧ reading.2.tracks = d.tracks ∧
        ∀ again place t s, Opened.first? d.tracks = some (place, t, s) →
          ∃ o, (reading.2.disturb again).opened = some o ∧
            (reading.2.disturb again).read.1 =
              (Opened.fetch o.input t s).1.map (t.handOver s))) ∧
    (∀ input, let opening := (d.openInput input).value
      (opening.1 = .ok () → opening.2.handed = #[]) ∧ ∀ e, opening.1 = .error e → opening.2 = d) ∧
    (d.tracks.map Track.cursor).sum = d.handed.size ∧
    ∀ t ∈ d.tracks, t.cursor ≤ t.sampleCount := by
  intro d
  have hbalanced : Opened.Balanced d.tracks d.handed :=
    balanced_afterEvents (balanced_start options) events
  refine ⟨fun become => ?_, fun input => ⟨fun hok => ?_, fun e herror => ?_⟩, hbalanced.total,
    hbalanced.within⟩
  · have hturned := d.turned_read_disturb become
    dsimp only
    generalize htracks : (d.disturb become).read.2.tracks = tracks at hturned
    generalize hhanded : (d.disturb become).read.2.handed = handed at hturned
    generalize houtcome : (d.disturb become).read.1 = outcome at hturned
    cases hturned with
    | delivered turn data =>
      obtain ⟨hplace, hsample⟩ := Opened.first?_spec turn
      exact .inl ⟨_, _, _, data, turn, hplace, hsample, rfl, rfl, rfl⟩
    | refused e =>
      refine .inr ⟨e, rfl, rfl, rfl, fun again place t s turn => ?_⟩
      exact read_disturb (htracks ▸ turn) again
  · exact (unread_of_openInput (Prod.ext hok rfl)).1
  · exact (openInput_fresh_of_error (Prod.ext herror rfl)).1

end Demuxer

end IsoMedia
