import IsoMedia.Proofs.Machine.Reading
import IsoMedia.Proofs.Machine.Tracks
import IsoMedia.Proofs.Machine.Walk
import IsoMedia.Proofs.Tree.Numbers

/-!
# Opening and reading on a machine

A file is opened by walking it, building its tracks and counting the boxes for a note; a reading goes
to a sample, fills the buffer and moves the cursor of a track on.  Between two calls the input is
`Measured` and so are the tracks, whatever was opened and however the sources answered.

* `calls_without_fault` : no file and no source makes the machine halt.
-/

namespace IsoMedia

/-! ### Counting boxes and samples -/

/-- There are no more boxes in a tree than bytes around them. -/
theorem Tree.Course.Placed.countAll_le {c : Tree.Course} {lo hi : Nat} (h : c.Placed lo hi) :
    lo + Node.countAll c.nodes ≤ hi := by
  induction c generalizing lo hi with
  | stop fault => exact h
  | unknown f rest ih | unread _ f _ rest ih =>
    obtain ⟨hstart, -, hrest⟩ := h
    have hrest := ih hrest
    exact show lo + Node.countAll rest.nodes ≤ hi by omega
  | read kind f data inner rest ihInner ihRest =>
    obtain ⟨hstart, hinner, hrest⟩ := h
    have hinner := ihInner hinner
    have hrest := ihRest hrest
    rw [nodes]
    -- The box itself is counted on its first byte, behind which those inside it lie.
    split
    · rw [Node.countAll, Node.descendantCount]
      omega
    · omega

theorem Tree.descendantCount_le {policy : UnknownBoxPolicy} {bytes : List UInt8} {parsed : Parsed}
    (h : (build policy bytes).result = .ok parsed) :
    parsed.root.descendantCount ≤ bytes.length := by
  obtain ⟨-, hroot, -, -⟩ := build_eq_ok_iff.1 h
  have hplaced := (Course.placed_ofFile policy bytes).countAll_le
  rw [Nat.zero_add, Nat.zero_add] at hplaced
  rw [hroot, Node.root, Node.descendantCount]
  exact hplaced

theorem IndexTables.size_of_index {t : IndexTables} {samples : Array Sample}
    (h : t.index = .ok samples) : samples.size = t.sizes.sampleCount.toNat := by
  obtain ⟨extents, hlayout, hsize, -⟩ := index_eq_ok h
  rw [hsize]
  unfold layout at hlayout
  split at hlayout
  · cases hlayout
  · dsimp only at hlayout
    split at hlayout
    · rename_i hcount
      cases hlayout
      exact hcount
    · cases hlayout

/-- The samples of a track and the bytes of each are counted in words. -/
structure Track.Measured (t : Track) : Prop where
  count_lt : t.samples.size < 2 ^ 64
  size_lt : ∀ s ∈ t.samples, s.size < 2 ^ 64

theorem TrackDraft.measured_of_finish {d : TrackDraft} {inputLength : Nat} {t : Track}
    (hlength : inputLength < 2 ^ 64) (h : d.finish inputLength = .ok t) : t.Measured := by
  obtain ⟨c, samples, hindex, rfl⟩ := finish_eq_ok_iff.1 h
  refine ⟨?_, fun s hs => ?_⟩
  · have hcount : samples.size = c.sizes.sampleCount.toNat := IndexTables.size_of_index hindex
    have := c.sizes.sampleCount.toNat_lt
    show samples.size < 2 ^ 64
    omega
  · have hinside : s.pos + s.size ≤ inputLength := IndexTables.index_inside hindex hs
    omega

/-- Everything that is needed for the next reading is counted in words. -/
structure Opened.Measured (o : Opened) : Prop where
  input : o.input.Measured
  tracks : ∀ t ∈ o.tracks, t.Measured

def Demuxer.Measured (d : Demuxer) : Prop := ∀ o, d.opened = some o → o.Measured

theorem Demuxer.measured_fresh (options : DemuxOptions) : Measured { options } := nofun

namespace Machine

mutual

/-- The number of nodes below a node. -/
def countBelow : Node → Machine Nat
  | .mk _ _ _ _ children => countFrom 0 children

/-- A sum, with the number of nodes in a list and below them added to it. -/
def countFrom : Nat → List Node → Machine Nat
  | sum, [] => return sum
  | sum, n :: ns => do
    let count ← add 64 1 (← countBelow n)
    countFrom (← add 64 sum count) ns

end

mutual

theorem countBelow_eq (n : Node) (h : n.descendantCount < 2 ^ 64) :
    countBelow n = pure n.descendantCount := by
  obtain ⟨type, offset, size, data, children⟩ := n
  rw [Node.descendantCount] at h ⊢
  rw [countBelow, countFrom_eq 0 children (by omega), Nat.zero_add]

theorem countFrom_eq (sum : Nat) (ns : List Node) (h : sum + Node.countAll ns < 2 ^ 64) :
    countFrom sum ns = pure (sum + Node.countAll ns) := by
  cases ns with
  | nil => rfl
  | cons n ns =>
    rw [Node.countAll] at h ⊢
    rw [countFrom, countBelow_eq n (by omega), pure_bind, add_eq (by omega), pure_bind,
      add_eq (by omega), pure_bind, countFrom_eq _ ns (by omega), Nat.add_assoc]

end

/-! ### Opening -/

def buildTracks (inputLength : Nat) : List TrackDraft → Machine (List Track)
  | [] => return []
  | d :: ds => do
    let t ← buildTrack d inputLength
    return t :: (← buildTracks inputLength ds)

/-- Open the file with the given bytes, with room on the stack for a walk on each level. -/
def openBytes (policy : UnknownBoxPolicy) (bytes : List UInt8) (input : Input) :
    Machine (Opened × Array ParseWarning) := do
  let parsed ← buildTree (Tree.maxDepth + 1) policy bytes
  let tracks ← buildTracks bytes.length parsed.drafts.toList
  if tracks.isEmpty then throw (.invalidData .noTracks)
  let _counted ← countBelow parsed.root
  return (⟨parsed.root, tracks, input, Opened.formatOf parsed.root, #[]⟩, parsed.warnings)

/-- Read a whole input and open it. -/
def openInput (d : Demuxer) (input : Input) : Machine (Except Error Unit × Demuxer) := do
  match ← readAll input with
  | (.error e, _) => return (.error e, d)
  | (.ok content, input) =>
    match ← attempt (openBytes d.options.unknownBoxes content.data.toList input) with
    | .error e => return (.error e, d)
    | .ok (opened, warnings) => return (.ok (), { d with opened := some opened, warnings })

theorem computes_buildTracks {inputLength : Nat} (hlength : inputLength < 2 ^ 64)
    {drafts : List TrackDraft} (h : ∀ d ∈ drafts, d.Countable) :
    Computes (buildTracks inputLength drafts) (Opened.buildTracks inputLength drafts) := by
  induction drafts with
  | nil => exact .pure []
  | cons d ds ih =>
    rw [List.forall_mem_cons] at h
    have hbuild : Computes (buildTrack d inputLength) (d.build inputLength) := by
      unfold Computes
      rw [Opened.result_build]
      exact buildTrack_eq h.1 hlength
    exact hbuild.bind fun t => (ih h.2).bind fun ts => .pure (t :: ts)

/-- **A file is opened without a fault.** -/
theorem computes_openBytes (policy : UnknownBoxPolicy) {bytes : List UInt8}
    (hbytes : Addressable bytes) (input : Input) :
    Computes (openBytes policy bytes input) (Opened.ofBytes policy bytes input) := by
  have hlength := hbytes.length_lt
  refine (computes_buildTree policy (Nat.lt_succ_self _) hbytes).bind_of fun parsed hparsed => ?_
  have hdrafts : ∀ d ∈ parsed.drafts.toList, d.Countable :=
    fun d => Tree.countable_of_build hparsed
  have hcount := Tree.descendantCount_le hparsed
  refine (computes_buildTracks hlength hdrafts).bind fun tracks => ?_
  refine .ite (fun _ => .throw _) fun _ => ?_
  refine .step (countBelow_eq _ (by omega)) ?_
  dsimp only
  refine .say ?_ _ _ _
  exact .pure _

/-- What is read of a source is addressable as the whole source is. -/
theorem addressable_of_readAll {input input' : Input} {content : ByteArray}
    (h : Addressable input.source.content.data.toList)
    (hread : input.readAll = (.ok content, input')) : Addressable content.data.toList := by
  refine h.of_length_le ?_
  rw [Array.length_toList, Array.length_toList]
  exact Input.size_of_readAll hread

theorem size_lt_of_addressable {content : ByteArray} (h : Addressable content.data.toList) :
    content.size < 2 ^ 64 := by
  have hlength := h.length_lt
  rwa [Array.length_toList] at hlength

/-- **An input is opened without a fault**, whatever was open. -/
theorem openInput_eq (d : Demuxer) {input : Input}
    (h : Addressable input.source.content.data.toList) :
    openInput d input = pure (d.openInput input).value := by
  unfold openInput
  rw [readAll_eq (size_lt_of_addressable h), pure_bind]
  rcases hread : input.readAll with ⟨e | content, input'⟩
  · unfold Demuxer.openInput
    rw [hread]
    rfl
  · rw [Demuxer.value_openInput hread]
    have hopen : openBytes d.options.unknownBoxes content.data.toList input' = _ :=
      computes_openBytes _ (addressable_of_readAll h hread) input'
    dsimp only
    rw [hopen, attempt_of, pure_bind]
    cases (Opened.ofBytes d.options.unknownBoxes content.data.toList input').result <;> rfl

/-- What is open is counted in words. -/
theorem measured_openInput {d : Demuxer} (hd : d.Measured) {input : Input}
    (h : Addressable input.source.content.data.toList) : (d.openInput input).value.2.Measured := by
  rcases hopen : (d.openInput input).value with ⟨e | u, d'⟩
  · rw [(Demuxer.openInput_fresh_of_error hopen).1]
    exact hd
  · obtain ⟨content, input', o, warnings, hread, hfile, rfl⟩ := Demuxer.openInput_eq_ok_iff.1 hopen
    obtain ⟨parsed, tracks, -, htracks, -, rfl, -⟩ := Opened.ofBytes_eq_ok_iff.1 hfile
    have hcontent := size_lt_of_addressable (addressable_of_readAll h hread)
    rintro o ⟨⟩
    refine ⟨Input.measured_of_readAll (size_lt_of_addressable h) hread, fun t ht => ?_⟩
    obtain ⟨d, hfinish⟩ := Opened.exists_finish_of_mem htracks ht
    refine TrackDraft.measured_of_finish ?_ hfinish
    rw [Array.length_toList]
    exact hcontent

/-! ### Readings -/

/-- Deliver the next sample out of the buffer. -/
def read (b : Buffered) : Machine (Except Error Delivery × Buffered) :=
  match b.demuxer.opened with
  | none => return (.error (.invalidArgument .nothingOpen), b)
  | some o =>
    match Opened.first? o.tracks with
    | none => return (.error .endOfStream, b)
    | some (place, t, s) => do
      match ← fetchInto b.buffer o.input t s with
      | (.error e, buffer, input) =>
        return (.error e, ⟨{ b.demuxer with opened := some { o with input } }, buffer⟩)
      | (.ok data, buffer, input) =>
        let d := t.handOver s data
        let o := { o with input }.hand d
        let cursor ← add 64 t.cursor 1
        return (.ok d, ⟨{ b.demuxer with opened := some { o with
          tracks := o.tracks.set place { t with cursor } } }, buffer⟩)

def call (b : Buffered) : Demuxer.Call → Machine (Demuxer.Answer × Buffered)
  | .openInput input => do
    let (outcome, d) ← openInput b.demuxer input
    return (outcome.map fun _ => none, { b with demuxer := d })
  | .read => do
    let (outcome, b) ← read b
    return (outcome.map some, b)

/-- The answers to calls one after the other, and what is left behind them. -/
def run (b : Buffered) : List Demuxer.Call → Machine (List Demuxer.Answer × Buffered)
  | [] => return ([], b)
  | c :: calls => do
    let (answer, b) ← call b c
    let (answers, b) ← run b calls
    return (answer :: answers, b)

theorem Opened.first?_mem {tracks : List Track} {place : Nat} {t : Track} {s : Sample}
    (h : Opened.first? tracks = some (place, t, s)) :
    t ∈ tracks ∧ s ∈ t.samples ∧ t.cursor < t.samples.size := by
  obtain ⟨-, ht, hs⟩ := Opened.firstFrom_mem h
  obtain ⟨hcursor, -⟩ := Array.getElem?_eq_some_iff.1 hs
  exact ⟨List.mem_of_getElem? ht, Array.mem_of_getElem? hs, hcursor⟩

/-- **A reading does not halt**, and what is open stays counted in words. -/
theorem read_eq {b : Buffered} (hb : b.demuxer.Measured) :
    read b = pure b.read ∧ b.read.2.demuxer.Measured := by
  unfold read Buffered.read
  cases hopened : b.demuxer.opened with
  | none => exact ⟨rfl, hb⟩
  | some o =>
    obtain ⟨hinput, htracks⟩ := hb o hopened
    dsimp only
    cases hfirst : Opened.first? o.tracks with
    | none => exact ⟨rfl, hb⟩
    | some next =>
      obtain ⟨place, t, s⟩ := next
      obtain ⟨ht, hs, hcursor⟩ := Opened.first?_mem hfirst
      obtain ⟨hcount, hsizes⟩ := htracks t ht
      have hleft := measured_fetchInto hinput b.buffer t s
      dsimp only
      rw [fetchInto_eq hinput b.buffer t (hsizes s hs), pure_bind]
      generalize Opened.fetchInto b.buffer o.input t s = fetched at hleft ⊢
      rcases fetched with ⟨e | data, buffer, input⟩
      · refine ⟨rfl, ?_⟩
        rintro o' ⟨⟩
        exact ⟨hleft, htracks⟩
      · dsimp only
        rw [add_eq (by omega), pure_bind]
        refine ⟨rfl, ?_⟩
        rintro o' ⟨⟩
        refine ⟨hleft, fun t' ht' => ?_⟩
        -- Only a cursor has moved.
        rcases List.mem_or_eq_of_mem_set ht' with ht' | rfl
        · exact htracks t' ht'
        · exact ⟨hcount, hsizes⟩

/-! ### Calls one after the other -/

/-- What a call opens is addressable. -/
def Addresses (c : Demuxer.Call) : Prop :=
  ∀ input, c = .openInput input → Addressable input.source.content.data.toList

theorem call_eq {b : Buffered} (hb : b.demuxer.Measured) {c : Demuxer.Call} (hc : Addresses c) :
    call b c = pure (b.call c) ∧ (b.call c).2.demuxer.Measured := by
  cases c with
  | openInput input =>
    rw [call, openInput_eq b.demuxer (hc input rfl), pure_bind]
    exact ⟨rfl, measured_openInput hb (hc input rfl)⟩
  | read =>
    obtain ⟨hread, hleft⟩ := read_eq hb
    rw [call, hread, pure_bind]
    exact ⟨rfl, hleft⟩

theorem run_eq {b : Buffered} (hb : b.demuxer.Measured) {calls : List Demuxer.Call}
    (hcalls : ∀ c ∈ calls, Addresses c) : run b calls = pure (b.run calls) := by
  induction calls generalizing b with
  | nil => rfl
  | cons c calls ih =>
    rw [List.forall_mem_cons] at hcalls
    obtain ⟨hcall, hleft⟩ := call_eq hb hcalls.1
    rw [run, hcall, pure_bind]
    dsimp only
    rw [ih hleft hcalls.2, pure_bind]
    rfl

/-- **No file and no source makes the machine halt.**  Whatever the bytes of a file are, if only they
can be held in memory, its boxes are walked with room on the stack for 33 walks, that of the root and
32 below it, and every draft of a file whose walk succeeds becomes a track or is refused.  However
often files are opened and samples read, from sources that answer as they like, every call has the
answer of the demuxer, and leaves what the demuxer leaves.

In none of this is there a sum or a difference that is no word, an index or a slice outside its run, a
shift by too many bits or a division by zero. -/
theorem calls_without_fault :
    (∀ policy bytes, Addressable bytes →
      buildTree 33 policy bytes = of (Tree.build policy bytes).result ∧
      ∀ parsed, (Tree.build policy bytes).result = .ok parsed → ∀ d ∈ parsed.drafts,
        buildTrack d bytes.length = of (d.build bytes.length).result) ∧
    ∀ options buffer calls, (∀ c ∈ calls, Addresses c) →
      ∃ b : Buffered, b.demuxer = (({ options } : Demuxer).run calls).2 ∧
        run ⟨{ options }, buffer⟩ calls = pure ((({ options } : Demuxer).run calls).1, b) := by
  refine ⟨fun policy bytes hbytes => ⟨computes_buildTree policy (by decide) hbytes,
    fun parsed hparsed d hd => ?_⟩, fun options buffer calls hcalls => ?_⟩
  · have hcountable := Tree.countable_of_build hparsed (Array.mem_toList_iff.2 hd)
    rw [Opened.result_build]
    exact buildTrack_eq hcountable hbytes.length_lt
  · have hrun : run ⟨{ options }, buffer⟩ calls = _ := run_eq (Demuxer.measured_fresh options) hcalls
    obtain ⟨hanswers, hleft⟩ := Buffered.run_same { options } buffer calls
    exact ⟨_, hleft, hanswers ▸ hrun⟩

set_option maxRecDepth 100000 in
/-- The tiny file is opened without a fault, and the readings behind it do not halt although the source
refuses the first request for a sample. -/
theorem tinyFile_without_fault :
    Addressable Demuxer.tinyFile.data.toList ∧
    (∃ parsed, (Tree.build .skip Demuxer.tinyFile.data.toList).result = .ok parsed ∧
      buildTree 33 .skip Demuxer.tinyFile.data.toList = pure parsed ∧
      ∀ d ∈ parsed.drafts, buildTrack d Demuxer.tinyFile.data.toList.length =
        of (d.build Demuxer.tinyFile.data.toList.length).result) ∧
    ∃ answers b, answers.head?.map Except.isOk = some true ∧
      run ⟨{}, .empty⟩ [.openInput Demuxer.tinyInput, .read, .read, .read] =
        pure (answers, b) := by
  have haddressable : Addressable Demuxer.tinyFile.data.toList := by
    unfold Addressable
    decide +kernel
  have hcalls : ∀ c ∈ [.openInput Demuxer.tinyInput, .read, .read, .read], Addresses c := by
    rintro c hc input rfl
    rcases List.mem_cons.1 hc with hfirst | hc
    · cases hfirst
      exact haddressable
    · simp at hc
  obtain ⟨hbuild, hrun⟩ := calls_without_fault
  refine ⟨haddressable, ?_, ?_⟩
  · obtain ⟨hwalk, htracks⟩ := hbuild .skip _ haddressable
    have hok : (Tree.build .skip Demuxer.tinyFile.data.toList).result.isOk = true := by
      decide +kernel
    cases hparsed : (Tree.build .skip Demuxer.tinyFile.data.toList).result with
    | error e =>
      rw [hparsed] at hok
      cases hok
    | ok parsed =>
      rw [hparsed] at hwalk
      exact ⟨parsed, rfl, hwalk, htracks parsed hparsed⟩
  · obtain ⟨b, -, hanswers⟩ := hrun {} .empty _ hcalls
    exact ⟨_, b, by decide +kernel, hanswers⟩

end Machine

end IsoMedia
