import IsoMedia.Registry
import IsoMedia.Proofs.Input.Plain

/-!
# Recognising the format of an input

A format is recognised by the first bytes of a file and by its name.  What they say is the `verdict`
of the registry.  The input is asked for as many bytes as its source tells to have, but no more than a
head, and for a whole head if the source does not tell.

* `Registry.recognise_eq_verdict_iff` : the outcome is that verdict if and only if the source has a
  head of bytes or tells that it has less.
* `Registry.atStart_recognise_iff` : where the input is left and what is read from it next.  It is
  back at its start if and only if it was recognised, or has no bytes.
-/

namespace IsoMedia

/-- The source has fewer bytes than a head, and does not tell so. -/
def Source.EndsUntold (s : Source) : Prop :=
  s.tellsSize = false ∧ s.content.size < Registry.headLength

instance (s : Source) : Decidable s.EndsUntold := inferInstanceAs (Decidable (_ ∧ _))

namespace Input

/-- The next bytes to be read are the first ones. -/
structure AtStart (i : Input) : Prop where
  position : i.position = 0
  reads : ∀ wanted ≤ i.source.content.size,
    (i.readExact wanted).1 = .ok (i.source.content.extract 0 wanted)

/-- Whatever is left of the block, it is given up on the way to the start. -/
theorem plays_seek_start {i : Input} (ho : i.source.Obliging) :
    ∃ i', i.seek (.start 0) = (.ok 0, i') ∧ i'.Plays ⟨i.source.content, 0⟩ := by
  obtain ⟨source, hseek, hpos⟩ :=
    ho.seek_eq_ok (.start 0) (Int.le_refl 0) (show (0 : Int) < _ by decide)
  have hsame : i.source.Same source := by
    have h := i.source.seek_same (.start 0)
    rwa [hseek] at h
  have hplays : Plays ⟨source, .empty, 0⟩ ⟨source.content, source.pos⟩ :=
    plays_start (ho.of_same hsame)
  rw [hsame.content, show source.pos = 0 from hpos] at hplays
  exact ⟨_, by rw [Input.seek, hseek]; rfl, hplays⟩

theorem Plays.readExact_eq {i : Input} {r : PlainReader} (h : i.Plays r) (wanted : Nat) :
    (i.readExact wanted).1 =
      if wanted ≤ r.content.size - r.pos then .ok (r.content.extract r.pos (r.pos + wanted))
      else .error .endOfStream := by
  have hanswer := (plays_readExact h wanted).1
  by_cases hroom : wanted ≤ r.content.size - r.pos
  · rw [PlainReader.call, if_pos hroom] at hanswer
    rw [if_pos hroom]
    exact Answer.bytes.inj hanswer
  · rw [PlainReader.call, if_neg hroom] at hanswer
    rw [if_neg hroom]
    exact Answer.bytes.inj hanswer

theorem Plays.atStart_iff {i : Input} {r : PlainReader} (h : i.Plays r) :
    i.AtStart ↔ r.pos = 0 := by
  constructor
  · intro hstart
    rw [← h.position, hstart.position]
  · intro hpos
    refine ⟨h.position.trans hpos, fun wanted hwanted => ?_⟩
    rw [h.content] at hwanted ⊢
    rw [h.readExact_eq, hpos, Nat.sub_zero, if_pos hwanted, Nat.zero_add]

end Input

namespace Registry

/-- The bytes of a file that are looked at. -/
def head (content : ByteArray) : ByteArray := content.extract 0 (min headLength content.size)

/-- What the first bytes of a file and its name say about its format. -/
def verdict (r : Registry) (content : ByteArray) (filename : Option String) :
    Except Error Match :=
  match r.best? (head content).data.toList filename with
  | some m => .ok m
  | none => .error (.formatNotFound .unrecognised)

/-- How many bytes an input is asked for. -/
def wanted (input : Input) : Nat := min ((input.size?).getD headLength) headLength

theorem wanted_of_endsUntold {input : Input} (h : input.source.EndsUntold) :
    wanted input = headLength := by
  have hsize : input.size? = none := by simp [Input.size?, Source.size?, h.1]
  rw [wanted, hsize, Option.getD_none, Nat.min_self]

theorem wanted_of_not_endsUntold {input : Input} (h : ¬ input.source.EndsUntold) :
    wanted input = min headLength input.source.content.size := by
  unfold wanted Input.size? Source.size?
  by_cases htells : input.source.tellsSize = true
  · rw [if_pos htells, Option.getD_some, Nat.min_comm]
  · have hlong : headLength ≤ input.source.content.size :=
      Nat.le_of_not_lt fun hlt => h ⟨Bool.eq_false_iff.2 htells, hlt⟩
    rw [if_neg htells, Option.getD_none, Nat.min_self, Nat.min_eq_left hlong]

/-- The head is read from the start, unless the source ends untold and has no such head.  Either way
the input is left behind the bytes that were looked at. -/
theorem read_wanted {input : Input} (ho : input.source.Obliging) :
    let content := input.source.content
    ∃ i i', input.seek (.start 0) = (.ok 0, i) ∧
      i.readExact (wanted input) =
        (if input.source.EndsUntold then .error .endOfStream else .ok (head content), i') ∧
      i'.Plays ⟨content, min headLength content.size⟩ := by
  intro content
  obtain ⟨i, hseek, hplays⟩ := Input.plays_seek_start ho
  have hread := hplays.readExact_eq (wanted input)
  have hleft := (Input.plays_readExact hplays (wanted input)).2
  refine ⟨i, (i.readExact (wanted input)).2, hseek, ?_⟩
  by_cases h : input.source.EndsUntold
  · have hshort : ¬ wanted input ≤ content.size - 0 := by
      rw [wanted_of_endsUntold h]
      exact Nat.not_le.2 h.2
    rw [PlainReader.call, if_neg hshort, Nat.zero_max] at hleft
    rw [if_neg hshort] at hread
    rw [if_pos h, Nat.min_eq_right (Nat.le_of_lt h.2)]
    exact ⟨Prod.ext hread rfl, hleft⟩
  · have hwanted := wanted_of_not_endsUntold h
    have hroom : wanted input ≤ content.size - 0 := hwanted ▸ Nat.min_le_right _ _
    rw [PlainReader.call, if_pos hroom, Nat.zero_add] at hleft
    rw [if_pos hroom, Nat.zero_add] at hread
    rw [if_neg h, head, ← hwanted]
    exact ⟨Prod.ext hread rfl, hleft⟩

theorem value_recognise_of_error (r : Registry) {input i i' : Input} (filename : Option String)
    {e : Error} (hseek : input.seek (.start 0) = (.ok 0, i))
    (hread : i.readExact (wanted input) = (.error e, i')) :
    (r.recognise input filename).value = (.error e, i') := by
  unfold wanted at hread
  unfold recognise
  rw [hseek]
  dsimp only
  rw [hread]
  rfl

/-- The input goes back to its start if a format was found, and only then. -/
theorem value_recognise_of_ok (r : Registry) {input i i' : Input} (filename : Option String)
    {bytes : ByteArray} (hseek : input.seek (.start 0) = (.ok 0, i))
    (hread : i.readExact (wanted input) = (.ok bytes, i')) :
    (r.recognise input filename).value =
      match r.best? bytes.data.toList filename with
      | none => (.error (.formatNotFound .unrecognised), i')
      | some m => ((i'.seek (.start 0)).1.map fun _ => m, (i'.seek (.start 0)).2) := by
  unfold wanted at hread
  unfold recognise
  rw [hseek]
  dsimp only
  rw [hread]
  dsimp only
  cases r.best? bytes.data.toList filename <;> rfl

/-- The outcome of recognising an input, and where the input is left. -/
theorem plays_recognise (r : Registry) {input : Input} (ho : input.source.Obliging)
    (filename : Option String) :
    let content := input.source.content
    let outcome :=
      if input.source.EndsUntold then .error .endOfStream else r.verdict content filename
    (r.recognise input filename).value.1 = outcome ∧
      (r.recognise input filename).value.2.Plays
        ⟨content, if outcome.isOk then 0 else min headLength content.size⟩ := by
  intro content outcome
  obtain ⟨i, i', hseek, hread, hleft⟩ := read_wanted ho
  by_cases h : input.source.EndsUntold
  · have houtcome : outcome = .error .endOfStream := if_pos h
    rw [if_pos h] at hread
    rw [houtcome, value_recognise_of_error r filename hseek hread]
    exact ⟨rfl, hleft⟩
  · have houtcome : outcome = r.verdict content filename := if_neg h
    rw [if_neg h] at hread
    rw [houtcome, verdict, value_recognise_of_ok r filename hseek hread]
    cases r.best? (head content).data.toList filename with
    | none => exact ⟨rfl, hleft⟩
    | some m =>
      obtain ⟨after, hback, hstart⟩ := Input.plays_seek_start hleft.obliging
      rw [hleft.content] at hstart
      dsimp only
      rw [hback]
      exact ⟨rfl, hstart⟩

/-- **An input is recognised by what its first bytes and its name say**, whatever the source hands
over at a time and wherever the input was, if and only if the source does not end untold.  If it does,
its end is reported instead. -/
theorem recognise_eq_verdict_iff (r : Registry) {input : Input} (ho : input.source.Obliging)
    (filename : Option String) :
    let outcome := (r.recognise input filename).value.1
    (outcome = r.verdict input.source.content filename ↔ ¬ input.source.EndsUntold) ∧
      (input.source.EndsUntold → outcome = .error .endOfStream) := by
  intro outcome
  have houtcome := (plays_recognise r ho filename).1
  refine ⟨⟨fun hverdict h => ?_, fun h => houtcome.trans (if_neg h)⟩,
    fun h => houtcome.trans (if_pos h)⟩
  -- No verdict reports the end.
  have hend := hverdict.symm.trans (houtcome.trans (if_pos h))
  unfold verdict at hend
  split at hend <;> cases hend

/-- A file type box and nothing else, handed over three bytes at a time. -/
def fileTypeAlone (tellsSize : Bool) : Source where
  content := ⟨#[0, 0, 0, 16, 102, 116, 121, 112, 105, 115, 111, 109, 0, 0, 0, 0]⟩
  tellsSize
  onRead _ _ _ := .atMost 3

theorem obliging_fileTypeAlone (tellsSize : Bool) : (fileTypeAlone tellsSize).Obliging :=
  ⟨fun _ _ _ _ => ⟨3, by decide, rfl⟩, fun _ => rfl, fun _ => rfl⟩

/-- It is recognised if the source tells how many bytes these are, and not if it does not. -/
theorem fileTypeAlone_recognised :
    (∀ tellsSize, (fileTypeAlone tellsSize).Obliging) ∧
      full.verdict (fileTypeAlone false).content none = .ok ⟨.mp4, 100⟩ ∧
      (full.recognise ⟨fileTypeAlone true, .empty, 0⟩ none).value.1 = .ok ⟨.mp4, 100⟩ ∧
      (full.recognise ⟨fileTypeAlone false, .empty, 0⟩ none).value.1 = .error .endOfStream := by
  have hverdict : full.verdict (fileTypeAlone false).content none = .ok ⟨.mp4, 100⟩ := by
    have hbest : full.best? (head (fileTypeAlone false).content).data.toList none =
        some ⟨.mp4, 100⟩ := by decide +kernel
    rw [verdict, hbest]
  obtain ⟨htold, -⟩ := @recognise_eq_verdict_iff full
    ⟨fileTypeAlone true, .empty, 0⟩ (obliging_fileTypeAlone true) none
  obtain ⟨-, huntold⟩ := @recognise_eq_verdict_iff full
    ⟨fileTypeAlone false, .empty, 0⟩ (obliging_fileTypeAlone false) none
  exact ⟨obliging_fileTypeAlone, hverdict, (htold.2 (by decide)).trans hverdict,
    huntold (by decide)⟩

/-- **Where an input is left that was looked at.**  One that was recognised is back at its start; one
that was not is behind the bytes that were looked at, and the next ones are read from there. -/
theorem atStart_recognise_iff (r : Registry) {input : Input} (ho : input.source.Obliging)
    (filename : Option String) :
    let content := input.source.content
    let outcome := (r.recognise input filename).value.1
    let after := (r.recognise input filename).value.2
    let place := if outcome.isOk then 0 else min headLength content.size
    after.position = place ∧
      (∀ wanted, (after.readExact wanted).1 =
        if wanted ≤ content.size - place then .ok (content.extract place (place + wanted))
        else .error .endOfStream) ∧
      (after.AtStart ↔ outcome.isOk ∨ content.size = 0) := by
  intro content outcome after place
  obtain ⟨houtcome, hplays⟩ := plays_recognise r ho filename
  rw [← houtcome] at hplays
  refine ⟨hplays.position, hplays.readExact_eq, hplays.atStart_iff.trans ?_⟩
  have hhead : headLength ≠ 0 := by decide
  show (if outcome.isOk then 0 else min headLength content.size) = 0 ↔ _
  by_cases hok : outcome.isOk = true
  · rw [if_pos hok]
    exact iff_of_true rfl (.inl hok)
  · rw [if_neg hok, Nat.min_eq_zero_iff]
    simp [hok, hhead]

/-- Twelve bytes that are no box that a file starts with. -/
def waveHeader : ByteArray := ⟨#[82, 73, 70, 70, 0, 0, 0, 0, 87, 65, 86, 69]⟩

/-- An input that was not recognised is left behind its only bytes, and none are read from it. -/
theorem waveHeader_left :
    let after := (full.recognise (Input.ofBytes waveHeader) none).value.2
    (Input.ofBytes waveHeader).source.Obliging ∧
      (full.recognise (Input.ofBytes waveHeader) none).value.1 =
        .error (.formatNotFound .unrecognised) ∧
      after.position = 12 ∧ (after.readExact 12).1 = .error .endOfStream ∧ ¬ after.AtStart := by
  intro after
  have ho : (Input.ofBytes waveHeader).source.Obliging := Source.obliging_ofBytes waveHeader
  have houtcome : (full.recognise (Input.ofBytes waveHeader) none).value.1 =
      .error (.formatNotFound .unrecognised) := by
    have hbest : full.best? (head waveHeader).data.toList none = none := by decide +kernel
    have hverdict : full.verdict waveHeader none = .error (.formatNotFound .unrecognised) := by
      rw [verdict, hbest]
    rw [(plays_recognise full ho none).1, if_neg (by decide)]
    exact hverdict
  obtain ⟨hplace, hreads, hstart⟩ := atStart_recognise_iff full ho none
  rw [houtcome] at hplace hreads hstart
  exact ⟨ho, houtcome, hplace, hreads 12, fun h => absurd (hstart.1 h) (by decide)⟩

end Registry

end IsoMedia
