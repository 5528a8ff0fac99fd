import IsoMedia.Proofs.Demuxer.Faults
import IsoMedia.Proofs.Input.Reuse

/-!
# Opening one file after another

A demuxer that opens another file keeps nothing of what it had open before, and one that cannot
open it keeps everything.  So all that counts of a history of calls is the last opening that
succeeded and the readings behind it (`Demuxer.run_eq_renewed`).

Samples are read into a buffer that is used again for every sample of every file.  `Buffered` is a
demuxer with such a buffer, whatever it holds from before.

* `Demuxer.openInput_replaces` : an opening replaces everything or nothing.
-/

namespace IsoMedia

/-- The same is open but for the inputs, which hand over the same bytes. -/
structure Opened.Alike (o o' : Opened) (content : ByteArray) : Prop where
  root : o.root = o'.root
  tracks : o.tracks = o'.tracks
  format : o.format = o'.format
  sound : o.Sound content
  sound' : o'.Sound content

theorem Opened.root_read (o : Opened) : o.read.2.root = o.root := by
  unfold read
  split
  · rfl
  · split <;> rfl

theorem Opened.format_read (o : Opened) : o.read.2.format = o.format := by
  unfold read
  split
  · rfl
  · split <;> rfl

/-- The same sample is delivered, and then the same is open again. -/
theorem Opened.read_alike {o o' : Opened} {content : ByteArray} (h : o.Alike o' content) :
    o.read.1 = o'.read.1 ∧ o.read.2.Alike o'.read.2 content := by
  have hroot : o.read.2.root = o'.read.2.root := by rw [root_read, root_read, h.root]
  have hformat : o.read.2.format = o'.read.2.format := by rw [format_read, format_read, h.format]
  cases hfirst : first? o.tracks with
  | none =>
    rw [read_end hfirst, read_end (h.tracks ▸ hfirst)]
    exact ⟨rfl, h⟩
  | some next =>
    obtain ⟨place, t, s⟩ := next
    obtain ⟨p, hread, htracks, hsound⟩ := read_sound h.sound hfirst
    obtain ⟨p', hread', htracks', hsound'⟩ := read_sound h.sound' (h.tracks ▸ hfirst)
    rw [hread, hread'] at hroot hformat ⊢
    exact ⟨rfl, hroot, by rw [htracks, htracks', h.tracks], hformat, hsound, hsound'⟩

namespace Demuxer

/-- A call of a demuxer. -/
inductive Call where
  | openInput (input : Input)
  | read

/-- What comes of a call; that of a reading which succeeds is a sample. -/
abbrev Answer := Except Error (Option Delivery)

/-- The answers to calls one after the other, and the state behind them. -/
def runCalls {σ : Type} (call : σ → Call → Answer × σ) : σ → List Call → List Answer × σ
  | s, [] => ([], s)
  | s, c :: calls =>
    let (answer, s') := call s c
    let (answers, last) := runCalls call s' calls
    (answer :: answers, last)

/-- What relates two states and is kept by every call with equal answers is kept by all of them,
with equal answers. -/
theorem runCalls_congr {σ τ : Type} {call : σ → Call → Answer × σ} {call' : τ → Call → Answer × τ}
    {R : σ → τ → Prop}
    (h : ∀ s t c, R s t → (call s c).1 = (call' t c).1 ∧ R (call s c).2 (call' t c).2)
    {s : σ} {t : τ} (hst : R s t) (calls : List Call) :
    (runCalls call s calls).1 = (runCalls call' t calls).1 ∧
      R (runCalls call s calls).2 (runCalls call' t calls).2 := by
  induction calls generalizing s t with
  | nil => exact ⟨rfl, hst⟩
  | cons c calls ih =>
    obtain ⟨hanswer, hnext⟩ := h s t c hst
    obtain ⟨hanswers, hlast⟩ := ih hnext
    exact ⟨congrArg₂ List.cons hanswer hanswers, hlast⟩

def call (d : Demuxer) : Call → Answer × Demuxer
  | .openInput input =>
    let (outcome, d) := (d.openInput input).value
    (outcome.map fun _ => none, d)
  | .read =>
    let (outcome, d) := d.read
    (outcome.map some, d)

theorem call_openInput (d : Demuxer) (input : Input) :
    d.call (.openInput input) =
      ((d.openInput input).value.1.map fun _ => none, (d.openInput input).value.2) := rfl

theorem call_read (d : Demuxer) : d.call .read = (d.read.1.map some, d.read.2) := rfl

/-- The answers to calls one after the other, and the demuxer behind them. -/
def run (d : Demuxer) (calls : List Call) : List Answer × Demuxer := runCalls call d calls

/-- A demuxer with the same options that has nothing open yet. -/
def fresh (d : Demuxer) : Demuxer := { options := d.options }

@[simp] theorem fresh_fresh (d : Demuxer) : d.fresh.fresh = d.fresh := rfl

variable {d d' : Demuxer} {input other : Input}

/-! ### One opening -/

/-- What a demuxer has open does not bear on what comes of an opening: it is the demuxer itself if
the opening fails, and what a fresh demuxer opens otherwise. -/
theorem value_openInput_fresh (d : Demuxer) (input : Input) :
    (d.openInput input).value =
      match (d.fresh.openInput input).value with
      | (.error e, _) => (.error e, d)
      | (.ok _, d') => (.ok (), d') := by
  cases hread : input.readAll with
  | mk outcome input' =>
    cases outcome with
    | error e =>
      unfold openInput
      rw [hread]
      rfl
    | ok content =>
      have hoptions : d.fresh.options = d.options := rfl
      rw [value_openInput hread, value_openInput hread, hoptions]
      cases (Opened.ofBytes d.options.unknownBoxes content.data.toList input').result with
      | error e => rfl
      | ok opened => rfl

theorem options_openInput (d : Demuxer) (input : Input) :
    (d.openInput input).value.2.options = d.options := by
  cases hread : input.readAll with
  | mk outcome input' =>
    cases outcome with
    | error e =>
      unfold openInput
      rw [hread]
      rfl
    | ok content =>
      rw [value_openInput hread]
      cases (Opened.ofBytes d.options.unknownBoxes content.data.toList input').result with
      | error e => rfl
      | ok opened => rfl

/-- What comes of a source that answers every request is decided by its bytes. -/
theorem value_openInput_of_obliging (d : Demuxer) (input : Input) (ho : input.source.Obliging) :
    ∃ input', (d.openInput input).value =
      match (Opened.ofBytes d.options.unknownBoxes input.source.content.data.toList
        input).result with
      | .error e => (.error e, d)
      | .ok (o, warnings) =>
        (.ok (), { d with opened := some { o with input := input' }, warnings }) := by
  cases hread : input.readAll with
  | mk outcome input' =>
    have hcontent := Input.readAll_of_obliging ho
    rw [hread] at hcontent
    cases hcontent
    refine ⟨input', ?_⟩
    rw [value_openInput hread, Opened.result_ofBytes_input _ _ input input']
    cases (Opened.ofBytes d.options.unknownBoxes input.source.content.data.toList input).result with
    | error e => rfl
    | ok opened => rfl

theorem exists_openInput_eq_ok {d : Demuxer} {input : Input} (ho : input.source.Obliging)
    {o : Opened} {warnings : Array ParseWarning}
    (h : (Opened.ofBytes d.options.unknownBoxes input.source.content.data.toList input).result =
      .ok (o, warnings)) :
    ∃ input', (d.openInput input).value =
      (.ok (), { d with opened := some { o with input := input' }, warnings }) := by
  obtain ⟨input', hvalue⟩ := d.value_openInput_of_obliging input ho
  rw [h] at hvalue
  exact ⟨input', hvalue⟩

theorem isOk_openInput (d : Demuxer) (input : Input) (ho : input.source.Obliging) :
    (d.openInput input).value.1.isOk =
      (Opened.ofBytes d.options.unknownBoxes input.source.content.data.toList
        input).result.isOk := by
  obtain ⟨input', hvalue⟩ := d.value_openInput_of_obliging input ho
  rw [hvalue]
  cases (Opened.ofBytes d.options.unknownBoxes input.source.content.data.toList input).result with
  | error e => rfl
  | ok opened => rfl

theorem openInput_fresh_of_error {e : Error} (h : (d.openInput input).value = (.error e, d')) :
    d' = d ∧ (d.fresh.openInput input).value = (.error e, d.fresh) := by
  rw [value_openInput_fresh] at h
  split at h
  · rename_i e' d'' hfresh
    cases h
    have hstays := value_openInput_fresh d.fresh input
    rw [fresh_fresh, hfresh] at hstays
    exact ⟨rfl, hfresh.trans hstays⟩
  · cases h

theorem openInput_fresh_of_ok (h : (d.openInput input).value = (.ok (), d')) :
    (d.fresh.openInput input).value = (.ok (), d') := by
  rw [value_openInput_fresh] at h
  split at h
  · cases h
  · rename_i hfresh
    cases h
    exact hfresh

/-! ### Histories of calls -/

/-- The last opening that succeeded among calls, if there is one, and how many readings came behind
it; `since` is what is known of the calls before. -/
def recent (options : DemuxOptions) : Option Input × Nat → List Call → Option Input × Nat
  | since, [] => since
  | since, .openInput input :: calls =>
    let opening := (({ options } : Demuxer).openInput input).value
    recent options (if opening.1.isOk then (some input, 0) else since) calls
  | (last, reads), .read :: calls => recent options (last, reads + 1) calls

/-- A demuxer after so many readings behind an opening, or without one. -/
def renewed (d : Demuxer) : Option Input × Nat → Demuxer
  | (none, reads) => d.after reads
  | (some input, reads) => (d.fresh.openInput input).value.2.after reads

theorem options_after (d : Demuxer) (k : Nat) : (d.after k).options = d.options := by
  induction k with
  | zero => rfl
  | succ k ih =>
    rw [after_succ, ← ih]
    unfold read
    split <;> rfl

theorem fresh_after_openInput (h : (d.openInput input).value = (.ok (), d')) (k : Nat) :
    (d'.after k).fresh = d.fresh := by
  have hoptions := options_openInput d input
  rw [h] at hoptions
  rw [fresh, options_after, fresh, ← hoptions]

theorem options_renewed (d : Demuxer) (since : Option Input × Nat) :
    (d.renewed since).options = d.options := by
  obtain ⟨_ | input, reads⟩ := since
  · exact d.options_after reads
  · exact (options_after _ reads).trans (options_openInput d.fresh input)

theorem call_openInput_renewed (d : Demuxer) (since : Option Input × Nat) (input : Input) :
    ((d.renewed since).call (.openInput input)).2 =
      d.renewed (if (d.fresh.openInput input).value.1.isOk then (some input, 0) else since) := by
  have hfresh : (d.renewed since).fresh = d.fresh := by
    rw [fresh, options_renewed]
    rfl
  have hvalue := value_openInput_fresh (d.renewed since) input
  rw [hfresh] at hvalue
  show ((d.renewed since).openInput input).value.2 = _
  rw [hvalue]
  cases hopening : (d.fresh.openInput input).value with
  | mk outcome d' =>
    cases outcome with
    | error e => rfl
    | ok u =>
      show d' = (d.fresh.openInput input).value.2
      rw [hopening]

theorem call_read_renewed (d : Demuxer) (last : Option Input) (reads : Nat) :
    ((d.renewed (last, reads)).call .read).2 = d.renewed (last, reads + 1) := by
  cases last with
  | none => exact (d.after_succ reads).symm
  | some input => exact (after_succ _ reads).symm

/-- **All that counts of a history is the last opening that succeeded and the readings behind
it.** -/
theorem run_eq_renewed (d : Demuxer) (calls : List Call) :
    (d.run calls).2 = d.renewed (recent d.options (none, 0) calls) := by
  -- The induction is on the calls, behind whatever there was of openings and readings before them.
  have hrun (since : Option Input × Nat) :
      (runCalls call (d.renewed since) calls).2 = d.renewed (recent d.options since calls) := by
    induction calls generalizing since with
    | nil => rfl
    | cons c calls ih =>
      cases c with
      | openInput input =>
        show (runCalls call ((d.renewed since).call (.openInput input)).2 calls).2 = _
        rw [call_openInput_renewed]
        exact ih _
      | read =>
        obtain ⟨last, reads⟩ := since
        show (runCalls call ((d.renewed (last, reads)).call .read).2 calls).2 = _
        rw [call_read_renewed]
        exact ih _
  exact hrun (none, 0)

/-! ### The same bytes from another source -/

/-- Two demuxers are the same, or have the same open but for the inputs. -/
def Alike (d d' : Demuxer) : Prop :=
  d = d' ∨ d.options = d'.options ∧ d.warnings = d'.warnings ∧
    ∃ o o' content, d.opened = some o ∧ d'.opened = some o' ∧ o.Alike o' content

/-- No call tells alike demuxers apart. -/
theorem call_alike (h : d.Alike d') (c : Call) :
    (d.call c).1 = (d'.call c).1 ∧ (d.call c).2.Alike (d'.call c).2 := by
  rcases h with rfl | ⟨hoptions, hwarnings, o, o', content, hopened, hopened', halike⟩
  · exact ⟨rfl, .inl rfl⟩
  · cases c with
    | openInput input =>
      have hfresh : d'.fresh = d.fresh := by rw [fresh, fresh, hoptions]
      rw [call_openInput, call_openInput, value_openInput_fresh d, value_openInput_fresh d', hfresh]
      cases (d.fresh.openInput input).value with
      | mk outcome d'' =>
        cases outcome with
        | error e =>
          exact ⟨rfl, .inr ⟨hoptions, hwarnings, o, o', content, hopened, hopened', halike⟩⟩
        | ok u => exact ⟨rfl, .inl rfl⟩
    | read =>
      obtain ⟨hanswer, halike⟩ := Opened.read_alike halike
      have hread : d.read = (o.read.1, { d with opened := some o.read.2 }) :=
        read_of_opened hopened rfl
      have hread' : d'.read = (o'.read.1, { d' with opened := some o'.read.2 }) :=
        read_of_opened hopened' rfl
      rw [call_read, call_read, hread, hread', hanswer]
      exact ⟨rfl, .inr ⟨hoptions, hwarnings, _, _, content, rfl, rfl, halike⟩⟩

theorem run_alike (h : d.Alike d') (calls : List Call) : (d.run calls).1 = (d'.run calls).1 :=
  (runCalls_congr (R := Alike) (fun _ _ c h => call_alike h c) h calls).1

/-- An opening of another input that hands over the same bytes opens the same. -/
theorem exists_openInput_of_readAll (hsame : other.readAll.1 = input.readAll.1)
    (h : (d.openInput input).value = (.ok (), d')) :
    ∃ o other', d'.opened = some o ∧ (d.fresh.openInput other).value =
      (.ok (), { d' with opened := some { o with input := other' } }) := by
  obtain ⟨content, input', o, warnings, hread, hopen, rfl⟩ := openInput_eq_ok_iff.1 h
  refine ⟨o, other.readAll.2, rfl, ?_⟩
  have houtcome : other.readAll.1 = .ok content := hsame.trans (congrArg Prod.fst hread)
  have hother : other.readAll = (.ok content, other.readAll.2) := Prod.ext houtcome rfl
  have hoptions : d.fresh.options = d.options := rfl
  rw [value_openInput hother, hoptions,
    Opened.result_ofBytes_input _ _ input' other.readAll.2, hopen]
  rfl

/-- Sources that refuse no request are not told apart by what they deliver afterwards. -/
theorem alike_of_openInput {o : Opened} {other' : Input} (ho : input.source.Obliging)
    (ho' : other.source.Obliging) (hbound : (input.source.content.size : Int) < Source.placeBound)
    (hsame : other.readAll.1 = input.readAll.1) (h : (d.openInput input).value = (.ok (), d'))
    (hopened : d'.opened = some o)
    (hother : (d.fresh.openInput other).value =
      (.ok (), { d' with opened := some { o with input := other' } })) :
    Alike { d' with opened := some { o with input := other' } } d' := by
  have hcontent : other.source.content = input.source.content := by
    rw [Input.readAll_of_obliging ho, Input.readAll_of_obliging ho'] at hsame
    exact Except.ok.inj hsame
  obtain ⟨p, hp, hsound, -⟩ := openInput_sound input ho hbound h
  obtain rfl : o = p := Option.some.inj (hopened.symm.trans hp)
  obtain ⟨p', hp', hsound', -⟩ := openInput_sound other ho' (hcontent ▸ hbound) hother
  cases hp'
  exact .inr ⟨rfl, rfl, _, o, _, rfl, hopened, rfl, rfl, rfl, hcontent ▸ hsound', hsound⟩

end Demuxer

/-! ### One buffer for all samples -/

namespace Opened

/-- The buffer with zeros behind it, where it is too small. -/
def grown (buffer : ByteArray) (size : Nat) : ByteArray :=
  buffer ++ ⟨Array.replicate (size - buffer.size) 0⟩

/-- Go to a sample and read it over whatever the buffer holds. -/
def fetchInto (buffer : ByteArray) (input : Input) (t : Track) (s : Sample) :
    Except Error ByteArray × ByteArray × Input :=
  match input.seekTo s.pos with
  | (.error e, input) => (.error e, grown buffer s.size, input)
  | (.ok _, input) =>
    match Input.readInto s.size (grown buffer s.size) 0 input with
    | (.error .endOfStream, buffer, input) =>
      (malformed (.sampleCut t.number t.cursor s.pos s.size), buffer, input)
    | (.error e, buffer, input) => (.error e, buffer, input)
    | (.ok _, buffer, input) => (.ok (buffer.extract 0 s.size), buffer, input)

/-- The sample is fetched as it is without a buffer. -/
theorem exists_fetchInto_eq (buffer : ByteArray) (input : Input) (t : Track) (s : Sample) :
    ∃ buffer', fetchInto buffer input t s =
      ((fetch input t s).1, buffer', (fetch input t s).2) := by
  unfold fetchInto fetch
  cases input.seekTo s.pos with
  | mk place there =>
    cases place with
    | error e => exact ⟨_, rfl⟩
    | ok asked =>
      obtain ⟨buffer', hread, hfront⟩ :=
        Input.readInto_eq s.size .empty there (grown buffer s.size)
      rw [ByteArray.empty_append] at hread
      dsimp only
      rw [show Input.readInto s.size (grown buffer s.size) 0 there = _ from hread]
      unfold Input.readExact
      cases hgot : Input.readFrom s.size .empty there with
      | mk outcome input' =>
        rw [hgot] at hfront
        cases outcome with
        | ok data =>
          have hsize := Input.size_of_readFrom hgot
          rw [ByteArray.size_empty, Nat.zero_add] at hsize
          have hdata := hfront data rfl
          rw [hsize] at hdata
          exact ⟨buffer', by dsimp only [Except.map]; rw [hdata]⟩
        | error e =>
          refine ⟨buffer', ?_⟩
          dsimp only [Except.map]
          cases e <;> rfl

end Opened

/-- A demuxer with the buffer that it reads its samples into. -/
structure Buffered where
  demuxer : Demuxer
  buffer : ByteArray

namespace Buffered

/-- Deliver the next sample out of the buffer. -/
def read (b : Buffered) : Except Error Delivery × Buffered :=
  match b.demuxer.opened with
  | none => (.error (.invalidArgument .nothingOpen), b)
  | some o =>
    match Opened.first? o.tracks with
    | none => (.error .endOfStream, b)
    | some (place, t, s) =>
      match Opened.fetchInto b.buffer o.input t s with
      | (.error e, buffer, input) =>
        (.error e, ⟨{ b.demuxer with opened := some { o with input } }, buffer⟩)
      | (.ok data, buffer, input) =>
        let d := t.handOver s data
        let o := { o with input }.hand d
        (.ok d, ⟨{ b.demuxer with opened := some { o with
          tracks := Opened.advanceAt o.tracks place t } }, buffer⟩)

def call (b : Buffered) : Demuxer.Call → Demuxer.Answer × Buffered
  | .openInput input =>
    let (outcome, d) := (b.demuxer.openInput input).value
    (outcome.map fun _ => none, { b with demuxer := d })
  | .read =>
    let (outcome, b) := b.read
    (outcome.map some, b)

/-- The answers to calls one after the other, and what is left behind them. -/
def run (b : Buffered) (calls : List Demuxer.Call) : List Demuxer.Answer × Buffered :=
  Demuxer.runCalls call b calls

/-- A reading delivers the same whatever the buffer holds. -/
theorem read_eq (b : Buffered) :
    b.read.1 = b.demuxer.read.1 ∧ b.read.2.demuxer = b.demuxer.read.2 := by
  cases hopened : b.demuxer.opened with
  | none =>
    unfold read Demuxer.read
    rw [hopened]
    exact ⟨rfl, rfl⟩
  | some o =>
    unfold read Demuxer.read
    rw [hopened]
    dsimp only
    unfold Opened.read
    cases hfirst : Opened.first? o.tracks with
    | none =>
      refine ⟨rfl, ?_⟩
      rw [← hopened]
    | some next =>
      obtain ⟨place, t, s⟩ := next
      obtain ⟨buffer', hfetch⟩ := Opened.exists_fetchInto_eq b.buffer o.input t s
      dsimp only
      rw [hfetch]
      cases Opened.fetch o.input t s with
      | mk outcome input' => cases outcome <;> exact ⟨rfl, rfl⟩

theorem call_eq (b : Buffered) (c : Demuxer.Call) :
    (b.call c).1 = (b.demuxer.call c).1 ∧ (b.call c).2.demuxer = (b.demuxer.call c).2 := by
  cases c with
  | openInput input => exact ⟨rfl, rfl⟩
  | read =>
    obtain ⟨houtcome, hdemuxer⟩ := b.read_eq
    exact ⟨congrArg (Except.map some) houtcome, hdemuxer⟩

/-- No call tells what the buffer holds, and none leaves another demuxer for it. -/
theorem run_same (d : Demuxer) (buffer : ByteArray) (calls : List Demuxer.Call) :
    (run ⟨d, buffer⟩ calls).1 = (d.run calls).1 ∧
      (run ⟨d, buffer⟩ calls).2.demuxer = (d.run calls).2 := by
  refine Demuxer.runCalls_congr (R := fun (b : Buffered) d => b.demuxer = d) ?_ rfl calls
  rintro b _ c rfl
  exact b.call_eq c

theorem run_eq (d : Demuxer) (buffer : ByteArray) (calls : List Demuxer.Call) :
    (run ⟨d, buffer⟩ calls).1 = (d.run calls).1 := (run_same d buffer calls).1

end Buffered

namespace Demuxer

/-- **An opening replaces everything or nothing.**  An opening that fails leaves the demuxer as it
was, and fails the same way whatever was open.  One that succeeds leaves a demuxer that is the same,
to the last detail, as one that opened the input first of all.  Another input that hands over the
same bytes will do as well: what is open then is the same, and so are the answers to all further
calls, if neither source refuses a request.

The answers do not depend either on what the buffer for samples holds from earlier files. -/
theorem openInput_replaces (d : Demuxer) (input : Input) :
    (∀ e d', (d.openInput input).value = (.error e, d') →
      d' = d ∧ (d.fresh.openInput input).value = (.error e, d.fresh)) ∧
    (∀ d', (d.openInput input).value = (.ok (), d') →
      (d.fresh.openInput input).value = (.ok (), d') ∧
      ∀ other : Input, other.readAll.1 = input.readAll.1 →
        ∃ d'', (d.fresh.openInput other).value = (.ok (), d'') ∧ d''.tracks = d'.tracks ∧
          d''.root? = d'.root? ∧ d''.format = d'.format ∧ d''.warnings = d'.warnings ∧
          (input.source.Obliging → other.source.Obliging →
            (input.source.content.size : Int) < Source.placeBound →
            ∀ calls, (d''.run calls).1 = (d'.run calls).1)) ∧
    ∀ buffer calls, (Buffered.run ⟨d, buffer⟩ calls).1 = (d.run calls).1 := by
  refine ⟨fun e d' h => openInput_fresh_of_error h,
    fun d' h => ⟨openInput_fresh_of_ok h, fun other hsame => ?_⟩, Buffered.run_eq d⟩
  obtain ⟨o, other', hopened, hother⟩ := exists_openInput_of_readAll hsame h
  refine ⟨_, hother, ?_, ?_, ?_, rfl, fun ho ho' hbound calls =>
    run_alike (alike_of_openInput ho ho' hbound hsame h hopened hother) calls⟩
  · rw [tracks, tracks, hopened]
    rfl
  · rw [root?, root?, hopened]
    rfl
  · rw [format, format, hopened]
    rfl

/-- The tiny file from a source that hands over seven bytes at a time. -/
def tinyPieces : Input where
  source :=
    { content := tinyFile
      onRead := fun _ _ asked => .atMost (min asked 7) }

theorem obliging_tinyPieces : tinyPieces.source.Obliging :=
  ⟨fun _ _ asked h => ⟨min asked 7, by omega, rfl⟩, fun _ => rfl, fun _ => rfl⟩

/-- After one reading of the tiny file no bytes at all can be opened, which leaves everything as it
was; the tiny file can be opened again, from either source. -/
theorem tinyFile_reopened :
    ∃ d', (({} : Demuxer).openInput (Input.ofBytes tinyFile)).value = (.ok (), d') ∧
      ((d'.after 1).openInput (Input.ofBytes .empty)).value.2 = d'.after 1 ∧
      ((d'.after 1).openInput (Input.ofBytes tinyFile)).value = (.ok (), d') ∧
      ∃ d'', (({} : Demuxer).openInput tinyPieces).value = (.ok (), d'') ∧
        d''.tracks = d'.tracks ∧ ∀ calls, (d''.run calls).1 = (d'.run calls).1 := by
  have hfirst := exists_eq_ok_of_isOk tinyFile_opens.1
  have hempty : (({} : Demuxer).openInput (Input.ofBytes .empty)).value.1.isOk = false :=
    (isOk_openInput {} _ (Source.obliging_ofBytes .empty)).trans (by decide +kernel)
  generalize (({} : Demuxer).openInput (Input.ofBytes tinyFile)).value.2 = d' at hfirst
  have hfresh : (d'.after 1).fresh = {} := fresh_after_openInput hfirst 1
  refine ⟨d', hfirst, ?_, ?_, ?_⟩
  · obtain ⟨hfail, hok, -⟩ := openInput_replaces (d'.after 1) (Input.ofBytes .empty)
    cases hagain : ((d'.after 1).openInput (Input.ofBytes .empty)).value with
    | mk outcome d'' =>
      cases outcome with
      | error e => exact (hfail e d'' hagain).1
      | ok u =>
        rw [← hfresh, (hok d'' hagain).1] at hempty
        cases hempty
  · obtain ⟨hfail, hok, -⟩ := openInput_replaces (d'.after 1) (Input.ofBytes tinyFile)
    cases hagain : ((d'.after 1).openInput (Input.ofBytes tinyFile)).value with
    | mk outcome d'' =>
      cases outcome with
      | error e =>
        have hrefused := (hfail e d'' hagain).2
        rw [hfresh, hfirst] at hrefused
        cases hrefused
      | ok u =>
        have hopened := (hok d'' hagain).1
        rw [hfresh, hfirst] at hopened
        cases hopened
        rfl
  · obtain ⟨-, hok, -⟩ := openInput_replaces {} (Input.ofBytes tinyFile)
    have hobliging : (Input.ofBytes tinyFile).source.Obliging := Source.obliging_ofBytes tinyFile
    obtain ⟨d'', hopen, htracks, -, -, -, hcalls⟩ := (hok d' hfirst).2 tinyPieces
      ((Input.readAll_of_obliging obliging_tinyPieces).trans
        (Input.readAll_of_obliging hobliging).symm)
    exact ⟨d'', hopen, htracks, hcalls hobliging obliging_tinyPieces (by decide +kernel)⟩

end Demuxer

end IsoMedia
