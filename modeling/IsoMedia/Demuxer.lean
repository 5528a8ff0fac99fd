import IsoMedia.Demuxer.Options
import IsoMedia.Input

/-!
# Reading the samples of a file

A `Demuxer` opens a file as a whole and then delivers the samples of all its tracks, one at a time, in
the order in which they lie in the file.  A failed opening leaves the demuxer as it was; a failed
reading leaves the tracks as they were (`Demuxer.read`).  Every delivered sample moves one track on,
so the samples come to an end (`Demuxer.remaining_read_lt`).
-/

namespace IsoMedia

/-- A sample handed over. -/
structure Delivery where
  data : ByteArray
  presentationTime : Int
  decodeTime : Int
  mediaType : MediaType
  codec : Codec

/-- A sample as it is handed over, with the bytes that were read for it. -/
def Track.handOver (t : Track) (s : Sample) (data : ByteArray) : Delivery :=
  { data
    presentationTime := s.presentationTime
    decodeTime := s.decodeTime
    mediaType := t.mediaType
    codec := t.codec }

/-- A file that was opened. -/
structure Opened where
  root : Node
  tracks : List Track
  input : Input
  format : Format
  /-- The samples that were handed over since, each in a call of its own. -/
  handed : Array Delivery := #[]

namespace Opened

/-- The first box at the top level that tells the brands, if it could be read as such. -/
def fileTypeOf? (root : Node) : Option FileType :=
  match (root.child? (.ofChars 'f' 't' 'y' 'p')).map Node.data with
  | some (.fileType brands) => some brands
  | _ => none

/-- A file is a QuickTime movie if its major brand says so. -/
def formatOf (root : Node) : Format :=
  match fileTypeOf? root with
  | some brands => if brands.majorBrand = .ofChars 'q' 't' ' ' ' ' then .mov else .mp4
  | none => .mp4

/-- The tracks of drafts, up to the first that cannot be built. -/
def buildTracks (inputLength : Nat) : List TrackDraft → Checked (List Track)
  | [] => return []
  | d :: ds => do
    let t ← d.build inputLength
    return t :: (← buildTracks inputLength ds)

/-- Open the file with the given bytes, which were read from `input`, and tell what was put up
with. -/
def ofBytes (policy : UnknownBoxPolicy) (bytes : List UInt8) (input : Input) :
    Checked (Opened × Array ParseWarning) := do
  let parsed ← Tree.build policy bytes
  let tracks ← buildTracks bytes.length parsed.drafts.toList
  if tracks.isEmpty then throw (.invalidData .noTracks)
  let format := formatOf parsed.root
  Checked.say .debug .demuxer
    s!"MP4: 打开完成, 格式 {format.name}, {tracks.length} 个轨道, {parsed.root.descendantCount} 个 box, {parsed.warnings.size} 条警告"
  return ({ root := parsed.root, tracks, input, format }, parsed.warnings)

/-- Of a place among the tracks and the places behind it, the first one whose next sample lies
first in the file. -/
def firstFrom : List Track → Nat → Option (Nat × Track × Sample)
  | [], _ => none
  | t :: ts, place =>
    match t.peek?, firstFrom ts (place + 1) with
    | none, later => later
    | some s, none => some (place, t, s)
    | some s, some later => if later.2.2.pos < s.pos then some later else some (place, t, s)

/-- The track whose next sample lies first in the file, with its place among the tracks.  Of two
samples at one place that of the earlier track is first. -/
def first? (tracks : List Track) : Option (Nat × Track × Sample) := firstFrom tracks 0

theorem firstFrom_mem {tracks : List Track} {start place : Nat} {t : Track} {s : Sample}
    (h : firstFrom tracks start = some (place, t, s)) :
    start ≤ place ∧ tracks[place - start]? = some t ∧ t.peek? = some s := by
  induction tracks generalizing start with
  | nil => simp [firstFrom] at h
  | cons u us ih =>
    have later : ∀ {r}, firstFrom us (start + 1) = some r → r = (place, t, s) →
        start ≤ place ∧ (u :: us)[place - start]? = some t ∧ t.peek? = some s := by
      intro r hr e
      subst e
      obtain ⟨h1, h2, h3⟩ := ih hr
      refine ⟨by omega, ?_, h3⟩
      rw [show place - start = (place - (start + 1)) + 1 by omega, List.getElem?_cons_succ]
      exact h2
    unfold firstFrom at h
    split at h
    · exact later h rfl
    · rename_i hp _
      cases h
      exact ⟨Nat.le_refl _, by simp, hp⟩
    · rename_i hp hl
      split at h
      · exact later hl (by simpa using h)
      · cases h
        exact ⟨Nat.le_refl _, by simp, hp⟩

/-- How many samples are not delivered yet. -/
def remaining (tracks : List Track) : Nat :=
  tracks.foldr (fun t n => t.samples.size - t.cursor + n) 0

/-- The tracks after the next sample of the track at a place was delivered. -/
def advanceAt (tracks : List Track) (place : Nat) (t : Track) : List Track :=
  tracks.set place t.advance

theorem remaining_advanceAt_lt {tracks : List Track} {place : Nat} {t : Track} {s : Sample}
    (h : first? tracks = some (place, t, s)) :
    remaining (advanceAt tracks place t) < remaining tracks := by
  obtain ⟨_, ht, hs⟩ := firstFrom_mem h
  simp only [Nat.sub_zero] at ht
  clear h
  have hlt : t.cursor < t.samples.size := by
    simp only [Track.peek?, Array.getElem?_eq_some_iff] at hs
    exact hs.1
  induction tracks generalizing place with
  | nil => simp at ht
  | cons u us ih =>
    cases place with
    | zero =>
      simp only [List.getElem?_cons_zero, Option.some.injEq] at ht
      subst ht
      simp only [advanceAt, List.set_cons_zero, remaining, List.foldr_cons,
        Track.advance]
      omega
    | succ n =>
      have := @ih n (by omega) (by simpa using ht)
      simp only [advanceAt, List.set_cons_succ, remaining, List.foldr_cons] at *
      omega

/-- Go to a sample and read it.  A file that has become shorter than it was ends inside the
sample. -/
def fetch (input : Input) (t : Track) (s : Sample) : Except Error ByteArray × Input :=
  match input.seekTo s.pos with
  | (.error e, input) => (.error e, input)
  | (.ok _, input) =>
    match input.readExact s.size with
    | (.error .endOfStream, input) =>
      (malformed (.sampleCut t.number t.cursor s.pos s.size), input)
    | r => r

/-- Hand a sample over. -/
def hand (o : Opened) (d : Delivery) : Opened := { o with handed := o.handed.push d }

/-- Deliver the next sample: hand it over, and then move its track on.  Where that fails, nothing is
handed over and no track moves on. -/
def read (o : Opened) : Except Error Delivery × Opened :=
  match first? o.tracks with
  | none => (.error .endOfStream, o)
  | some (place, t, s) =>
    match fetch o.input t s with
    | (.error e, input) => (.error e, { o with input })
    | (.ok data, input) =>
      let d := t.handOver s data
      let o := { o with input }.hand d
      (.ok d, { o with tracks := advanceAt o.tracks place t })

theorem remaining_read_lt {o o' : Opened} {d : Delivery} (h : o.read = (.ok d, o')) :
    remaining o'.tracks < remaining o.tracks := by
  unfold read at h
  split at h
  · simp at h
  · rename_i hf
    split at h
    · simp at h
    · simp only [Prod.mk.injEq] at h
      obtain ⟨_, rfl⟩ := h
      exact remaining_advanceAt_lt hf

/-- Deliver samples until that fails, put behind those already delivered.  At the end of the
samples it always fails. -/
def readFrom (delivered : Array Delivery) (o : Opened) : Array Delivery × Error × Opened :=
  match _step : o.read with
  | (.error e, o) => (delivered, e, o)
  | (.ok d, o') => readFrom (delivered.push d) o'
termination_by remaining o.tracks
decreasing_by exact remaining_read_lt _step

end Opened

/-- A reader of files, with nothing open at first. -/
structure Demuxer where
  options : DemuxOptions := {}
  opened : Option Opened := none
  /-- What was put up with in the last opening that succeeded. -/
  warnings : Array ParseWarning := #[]

namespace Demuxer

/-- Read a whole input and open it.  A failure leaves everything as it was. -/
def openInput (d : Demuxer) (input : Input) : Noted (Except Error Unit × Demuxer) := do
  match input.readAll with
  | (.error e, _) => return (.error e, d)
  | (.ok content, input) =>
    match ← (Opened.ofBytes d.options.unknownBoxes content.data.toList input).attempt with
    | .error e => return (.error e, d)
    | .ok (opened, warnings) => return (.ok (), { d with opened := some opened, warnings })

/-- Deliver the next sample of the open file. -/
def read (d : Demuxer) : Except Error Delivery × Demuxer :=
  match d.opened with
  | none => (.error (.invalidArgument .nothingOpen), d)
  | some o =>
    let (outcome, o) := o.read
    (outcome, { d with opened := some o })

/-- Deliver samples until that fails. -/
def readAll (d : Demuxer) : Array Delivery × Error × Demuxer :=
  match d.opened with
  | none => (#[], .invalidArgument .nothingOpen, d)
  | some o =>
    let (delivered, e, o) := o.readFrom #[]
    (delivered, e, { d with opened := some o })

/-- What the reader calls itself, whichever format it has open. -/
def name : String := "mp4"

def tracks (d : Demuxer) : List Track := (d.opened.map (·.tracks)).getD []

/-- The samples that were handed over since the last opening that succeeded. -/
def handed (d : Demuxer) : Array Delivery := (d.opened.map (·.handed)).getD #[]

/-- The tracks that carry the given type of media. -/
def tracksOf (d : Demuxer) (media : MediaType) : List Track :=
  d.tracks.filter (·.mediaType = media)

def root? (d : Demuxer) : Option Node := d.opened.map (·.root)

/-- The brands of the open file, if it tells them. -/
def fileType? (d : Demuxer) : Option FileType := d.root?.bind Opened.fileTypeOf?

/-- The format of the open file; MP4 until a file is open. -/
def format (d : Demuxer) : Format := (d.opened.map (·.format)).getD .mp4

end Demuxer

end IsoMedia
