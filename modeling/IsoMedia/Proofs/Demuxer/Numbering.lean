import IsoMedia.Proofs.Demuxer.Reopening
import IsoMedia.Proofs.Tree.Numbers

/-!
# Track numbers and turns

The tracks of an open file stand in the order in which their boxes end, and of two samples at one
place that of the earlier track comes first.  Their numbers follow the places where their boxes
start.

* `Demuxer.number_eq_place_iff` : when the two orders are the same.
-/

namespace IsoMedia

/-- Things are numbered by their places if their numbers are. -/
theorem eq_place_iff {α : Type} (number : α → Nat) (ts : List α) :
    (∀ (i : Nat) (t : α), ts[i]? = some t → number t = i) ↔
      ∀ i n : Nat, (ts.map number)[i]? = some n → n = i := by
  simp only [List.getElem?_map, Option.map_eq_some_iff]
  constructor
  · rintro h i _ ⟨t, ht, rfl⟩
    exact h i t ht
  · exact fun h i t ht => h i _ ⟨t, ht, rfl⟩

/-- The tracks have the numbers of the drafts that they are made from. -/
theorem map_number_of_finish {inputLength : Nat} {drafts : List TrackDraft} {tracks : List Track}
    (h : List.Forall₂ (fun d t => d.finish inputLength = .ok t) drafts tracks) :
    tracks.map (·.number) = drafts.map (·.number) := by
  induction h with
  | nil => rfl
  | cons hfinish _ ih =>
    obtain ⟨c, samples, -, rfl⟩ := TrackDraft.finish_eq_ok_iff.1 hfinish
    rw [List.map_cons, List.map_cons, ih]
    rfl

namespace Opened

/-- A reading leaves the numbers of the tracks as they are. -/
theorem map_number_read (o : Opened) :
    o.read.2.tracks.map (·.number) = o.tracks.map (·.number) := by
  unfold read
  split
  · rfl
  · rename_i place t s hfirst
    split
    · rfl
    · obtain ⟨ht, -⟩ := first?_spec hfirst
      dsimp only [hand]
      refine List.ext_getElem? fun j => ?_
      rw [List.getElem?_map, List.getElem?_map, getElem?_advanceAt ht, Option.map_map]
      rfl

end Opened

namespace Demuxer

theorem map_number_after (d : Demuxer) (k : Nat) :
    (d.after k).tracks.map (·.number) = d.tracks.map (·.number) := by
  induction k with
  | zero => rfl
  | succ k ih =>
    rw [after_succ, ← ih]
    unfold read tracks
    split
    · rename_i hnone
      rw [hnone]
    · rename_i o hopened
      rw [hopened]
      exact o.map_number_read

/-- A reading that delivers moves the track on whose next sample lies first in the file. -/
theorem first?_of_read {d : Demuxer} {delivery : Delivery} (h : d.read.1 = .ok delivery) :
    ∃ place t s, Opened.first? d.tracks = some (place, t, s) ∧
      d.read.2.tracks = Opened.advanceAt d.tracks place t := by
  unfold read at h ⊢
  split at h
  · cases h
  · rename_i o hopened
    rw [tracks_of_opened hopened]
    dsimp only at h ⊢
    unfold Opened.read at h ⊢
    split at h
    · cases h
    · rename_i place t s hfirst
      refine ⟨place, t, s, hfirst, ?_⟩
      split at h
      · cases h
      · rfl

/-- The tracks of an open file have the numbers with which their boxes were walked. -/
theorem map_number_openInput {d d' : Demuxer} {input : Input}
    (h : (d.openInput input).value = (.ok (), d')) :
    ∃ content input', input.readAll = (.ok content, input') ∧ d'.tracks.map (·.number) =
      (Tree.walkedTracks d.options.unknownBoxes content.data.toList).map (·.number) := by
  obtain ⟨content, input', o, warnings, hread, hopen, rfl⟩ := openInput_eq_ok_iff.1 h
  obtain ⟨parsed, ts, hparsed, htracks, -, rfl, -⟩ := Opened.ofBytes_eq_ok_iff.1 hopen
  obtain ⟨-, -, hdrafts, -⟩ := Tree.build_eq_ok_iff.1 hparsed
  refine ⟨content, input', hread, (map_number_of_finish htracks).trans ?_⟩
  rw [hdrafts, ← Tree.Course.map_draft_tracks _ true 0 0, List.map_map]
  refine List.map_congr_left fun t _ => ?_
  exact Tree.Course.number_fill _ _

/-- **Numbers are places exactly if no track started before an earlier one had ended.**  The tracks
of an open file have different numbers, which follow the places where their boxes start.  A track is
numbered by its place in the list if every track that had started before it had been walked to its
end by then.

Every reading that delivers takes the earliest in the list of the tracks whose next sample lies
first in the file.  That is the track with the lowest number if numbers are places. -/
theorem number_eq_place_iff {d d' : Demuxer} {input : Input}
    (h : (d.openInput input).value = (.ok (), d')) :
    ∃ content input', input.readAll = (.ok content, input') ∧
      let boxes := Tree.walkedTracks d.options.unknownBoxes content.data.toList
      d'.tracks.map (·.number) = boxes.map (·.number) ∧
      (d'.tracks.map (·.number)).Nodup ∧
      (∀ t ∈ boxes, ∀ u ∈ boxes, t.number < u.number ↔ t.node.offset < u.node.offset) ∧
      ((∀ (i : Nat) (t : Track), d'.tracks[i]? = some t → t.number = i) ↔
        ∀ box ∈ boxes, box.number = box.ended) ∧
      ∀ k delivery, (d'.after k).read.1 = .ok delivery → ∃ place t s,
        (d'.after k).tracks[place]? = some t ∧ t.peek? = some s ∧
        (d'.after (k + 1)).tracks = Opened.advanceAt (d'.after k).tracks place t ∧
        ∀ place' u r, (d'.after k).tracks[place']? = some u → u.peek? = some r →
          s.pos < r.pos ∨ s.pos = r.pos ∧ place ≤ place' ∧
            ((∀ box ∈ boxes, box.number = box.ended) → t.number ≤ u.number) := by
  obtain ⟨content, input', hread, hnumbers⟩ := map_number_openInput h
  refine ⟨content, input', hread, ?_⟩
  dsimp only
  have hiff : (∀ (i : Nat) (t : Track), d'.tracks[i]? = some t → t.number = i) ↔
      ∀ box ∈ Tree.walkedTracks d.options.unknownBoxes content.data.toList,
        box.number = box.ended := by
    rw [eq_place_iff, hnumbers, ← eq_place_iff]
    exact Tree.number_walkedTracks_iff _ _
  refine ⟨hnumbers, ?_, fun t ht u hu => Tree.number_lt_number_iff _ _ ht hu, hiff,
    fun k delivery hdelivery => ?_⟩
  · rw [hnumbers]
    exact Tree.nodup_number_walkedTracks _ _
  · obtain ⟨place, t, s, hfirst, htracks⟩ := first?_of_read hdelivery
    obtain ⟨ht, hs⟩ := Opened.first?_spec hfirst
    refine ⟨place, t, s, ht, hs, by rw [after_succ]; exact htracks, fun place' u r hu hr => ?_⟩
    refine (Opened.firstFrom_least hfirst hu hr).imp_right fun ⟨hpos, hplace⟩ =>
      ⟨hpos, by omega, fun hended => ?_⟩
    have hplaces := hiff.2 hended
    rw [eq_place_iff, ← map_number_after d' k, ← eq_place_iff] at hplaces
    rw [hplaces place t ht, hplaces place' u hu]
    omega

/-- What the only track of the tiny file holds. -/
def tinyMedia : List UInt8 := (tinyFile.data.toList.drop 16).take 188

/-- A file with one track inside another. -/
def nestedFile : ByteArray := ⟨(
  -- `moov` and the outer `trak`
  [0, 0, 1, 144, 109, 111, 111, 118, 0, 0, 1, 136, 116, 114, 97, 107] ++ tinyMedia ++
  -- the inner `trak`
  [0, 0, 0, 196, 116, 114, 97, 107] ++ tinyMedia).toArray⟩

/-- The inner track comes first although it has the higher number, and its sample will be delivered
before that of the outer track at the same place. -/
theorem nestedFile_misnumbered :
    ∃ d', (({} : Demuxer).openInput (Input.ofBytes nestedFile)).value = (.ok (), d') ∧
      d'.tracks.map (fun t => (t.number, t.peek?.map (·.pos))) = [(1, some 212), (0, some 212)] ∧
      ¬ ∀ (i : Nat) (t : Track), d'.tracks[i]? = some t → t.number = i := by
  have hseen : (Opened.ofBytes .skip nestedFile.data.toList
      (Input.ofBytes nestedFile)).result.toOption.map (fun r => r.1.tracks.map fun t =>
        (t.number, t.peek?.map (·.pos))) = some [(1, some 212), (0, some 212)] := by decide +kernel
  have hboxes : (Tree.walkedTracks .skip nestedFile.data.toList).map
      (fun box => (box.number, box.ended)) = [(1, 0), (0, 0)] := by decide +kernel
  cases hresult :
      (Opened.ofBytes .skip nestedFile.data.toList (Input.ofBytes nestedFile)).result with
  | error e =>
    rw [hresult] at hseen
    cases hseen
  | ok r =>
    rw [hresult] at hseen
    have hobliging : (Input.ofBytes nestedFile).source.Obliging :=
      Source.obliging_ofBytes nestedFile
    obtain ⟨_, hopen⟩ : ∃ input', (({} : Demuxer).openInput (Input.ofBytes nestedFile)).value =
        (.ok (), { opened := some { r.1 with input := input' }, warnings := r.2 }) :=
      exists_openInput_eq_ok hobliging hresult
    refine ⟨_, hopen, Option.some.inj hseen, fun hplaces => ?_⟩
    obtain ⟨content, _, hread, -, -, -, hiff, -⟩ := number_eq_place_iff hopen
    have hcontent := Input.readAll_of_obliging hobliging
    rw [hread] at hcontent
    cases hcontent
    obtain ⟨box, hbox, hnumbers⟩ := List.mem_map.1 (hboxes ▸ List.mem_cons_self : (1, 0) ∈
      (Tree.walkedTracks .skip nestedFile.data.toList).map fun box => (box.number, box.ended))
    obtain ⟨hnumber, hended⟩ := Prod.mk.inj hnumbers
    have hsame := hiff.1 hplaces box hbox
    rw [hnumber, hended] at hsame
    cases hsame

end Demuxer

end IsoMedia
