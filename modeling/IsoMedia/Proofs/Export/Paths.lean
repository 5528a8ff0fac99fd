import IsoMedia.Files.Directory
import IsoMedia.Proofs.Export
import IsoMedia.Session

/-!
# The paths of exported files

The name of a file tells the media type of its track and an ending, which all codecs but a few share
(`ExportFile.ending_eq_iff`).  So two files have one path exactly if they were opened for tracks of one
media type, neither of whose codecs has an ending of its own (`Exporter.path_fileOf_eq_iff`).

* `Exporter.nodup_path_iff` : when the paths of all files are distinct.
-/

namespace IsoMedia

/-- No name of a media type starts another one, so a text that starts with one is taken apart in one
way. -/
theorem MediaType.name_append_eq_iff {m m' : MediaType} {s s' : String} :
    m.name ++ s = m'.name ++ s' ↔ m = m' ∧ s = s' := by
  constructor
  · intro h
    obtain rfl : m = m' := by
      have hhead := congrArg (·.toList.head?) h
      simp only [String.toList_append] at hhead
      revert hhead
      cases m <;> cases m' <;> simp [name]
    exact ⟨rfl, (String.append_right_inj _).1 h⟩
  · rintro ⟨rfl, rfl⟩
    rfl

/-- In one directory and behind one first character, names are told apart by their paths. -/
theorem Files.pathIn_eq_iff {directory name name' : String}
    (h : name.toList.head? = name'.toList.head?) :
    pathIn directory name = pathIn directory name' ↔ name = name' := by
  unfold pathIn
  rw [h]
  split
  · rfl
  · split <;> exact String.append_right_inj _

namespace ExportFile

/-- The codecs with an ending of their own. -/
def named : List Codec := [.h264, .hevc, .aac, .mp3, .ac3, .eac3]

theorem ending_eq_bin_iff (codec : Codec) : ending codec = "bin" ↔ codec ∉ named := by
  cases codec <;> simp [ending, named]

theorem nodup_ending_named : (named.map ending).Nodup := by
  simp [named, ending]

/-- Codecs share an ending if neither has one of its own. -/
theorem ending_eq_iff {codec codec' : Codec} :
    ending codec = ending codec' ↔ codec = codec' ∨ (codec ∉ named ∧ codec' ∉ named) := by
  constructor
  · intro h
    by_cases hnamed : codec ∈ named
    · have hnamed' : codec' ∈ named := by
        by_contra hnot
        rw [← ending_eq_bin_iff, ← h, ending_eq_bin_iff] at hnot
        exact hnot hnamed
      exact .inl (List.inj_on_of_nodup_map nodup_ending_named hnamed hnamed' h)
    · have hnot := (ending_eq_bin_iff codec).2 hnamed
      exact .inr ⟨hnamed, (ending_eq_bin_iff codec').1 (h ▸ hnot)⟩
  · rintro (rfl | ⟨h, h'⟩)
    · rfl
    · rw [(ending_eq_bin_iff codec).2 h, (ending_eq_bin_iff codec').2 h']

theorem nameFor_eq (stem : String) (t : Track) :
    nameFor stem t = stem ++ ("." ++ (t.mediaType.name ++ ("." ++ ending t.codec))) := by
  simp only [nameFor, String.append_assoc]
  rfl

theorem head?_nameFor (stem : String) (t : Track) :
    (nameFor stem t).toList.head? = (stem ++ ".").toList.head? := by
  rw [nameFor_eq, ← String.append_assoc, String.toList_append, List.head?_append_of_ne_nil]
  simp

theorem nameFor_eq_iff {stem : String} {t u : Track} :
    nameFor stem t = nameFor stem u ↔
      t.mediaType = u.mediaType ∧ ending t.codec = ending u.codec := by
  rw [nameFor_eq, nameFor_eq, String.append_right_inj, String.append_right_inj,
    MediaType.name_append_eq_iff, String.append_right_inj]

end ExportFile

/-! ### Outputs of one path -/

namespace ExportFile

variable {files : List ExportFile} {content under : List UInt8} {path : String}

theorem length_overlay (content under : List UInt8) :
    (overlay content under).length = max content.length under.length := by
  rw [overlay, List.length_append, List.length_drop]
  omega

theorem getElem?_overlay (content under : List UInt8) (k : Nat) :
    (overlay content under)[k]? = if k < content.length then content[k]? else under[k]? := by
  unfold overlay
  split
  · exact List.getElem?_append_left ‹_›
  · rw [List.getElem?_append_right (Nat.le_of_not_lt ‹_›), List.getElem?_drop]
    congr 1
    omega

/-- The outputs cover what was there before, and each other. -/
theorem length_foldl_overlay (files : List ExportFile) (under : List UInt8) :
    under.length ≤ (files.foldl (fun under f => overlay f.content under) under).length ∧
      ∀ g ∈ files, g.content.length ≤
        (files.foldl (fun under f => overlay f.content under) under).length := by
  induction files generalizing under with
  | nil => exact ⟨Nat.le_refl _, nofun⟩
  | cons f files ih =>
    obtain ⟨hunder, hfiles⟩ := ih (overlay f.content under)
    rw [length_overlay] at hunder
    rw [List.foldl_cons, List.forall_mem_cons]
    exact ⟨by omega, by omega, hfiles⟩

/-- Each byte is that of an output, or was there before. -/
theorem getElem?_foldl_overlay {k : Nat} {b : UInt8}
    (h : (files.foldl (fun under f => overlay f.content under) under)[k]? = some b) :
    (∃ g ∈ files, g.content[k]? = some b) ∨ under[k]? = some b := by
  induction files generalizing under with
  | nil => exact .inr h
  | cons f files ih =>
    rcases ih h with ⟨g, hg, hb⟩ | hb
    · exact .inl ⟨g, List.mem_cons_of_mem f hg, hb⟩
    · rw [getElem?_overlay] at hb
      split at hb
      · exact .inl ⟨f, List.mem_cons_self, hb⟩
      · exact .inr hb

theorem length_le_length_laid {g : ExportFile} (hg : g ∈ files) (hpath : g.path = path) :
    g.content.length ≤ (laid files path).length :=
  (length_foldl_overlay _ _).2 g (List.mem_filter.2 ⟨hg, decide_eq_true hpath⟩)

theorem exists_of_getElem?_laid {k : Nat} {b : UInt8} (h : (laid files path)[k]? = some b) :
    ∃ g ∈ files, g.path = path ∧ g.content[k]? = some b := by
  obtain ⟨g, hg, hb⟩ := (getElem?_foldl_overlay h).resolve_right nofun
  obtain ⟨hmem, hpath⟩ := List.mem_filter.1 hg
  exact ⟨g, hmem, of_decide_eq_true hpath, hb⟩

/-- With distinct paths every file holds what was put into it. -/
theorem laid_of_nodup (h : (files.map (·.path)).Nodup) {f : ExportFile} (hf : f ∈ files) :
    laid files f.path = f.content := by
  have honly : files.filter (·.path = f.path) = [f] := by
    induction files with
    | nil => cases hf
    | cons g files ih =>
      obtain ⟨hfresh, hnodup⟩ := List.nodup_cons.1 h
      rcases List.mem_cons.1 hf with rfl | hf
      · rw [List.filter_cons_of_pos (by simp), List.filter_eq_nil_iff.2]
        intro g hg hpath
        exact hfresh (List.mem_map.2 ⟨g, hg, of_decide_eq_true hpath⟩)
      · rw [List.filter_cons_of_neg, ih hnodup hf]
        intro hpath
        exact hfresh (List.mem_map.2 ⟨f, hf, (of_decide_eq_true hpath).symm⟩)
  rw [laid, honly, List.foldl_cons, List.foldl_nil, overlay, List.drop_nil, List.append_nil]

end ExportFile

/-- A codec that needs no conversion is always exported. -/
theorem Conversion.ofMetaData_of_not_named {metaData : MetaData}
    (h : metaData.codec ∉ ExportFile.named) : ofMetaData metaData = .ok .plain := by
  simp only [ExportFile.named, List.mem_cons, not_or] at h
  obtain ⟨havc, hhevc, haac, -⟩ := h
  cases metaData with
  | video v => exact (if_neg havc).trans (if_neg hhevc)
  | audio a => exact if_neg haac
  | subtitle codec extraData => rfl
  | data codec extraData => rfl

namespace Exporter

open ExportFile (named)

variable {directory stem : String} {tracks : List Track} {e : Exporter} {t u : Track}
  {place : Nat} {conversion conversion' : Conversion}

/-! ### Two files -/

/-- Files for tracks of two codecs have one name. -/
structure SameName (t u : Track) : Prop where
  codec : t.codec ≠ u.codec
  mediaType : t.mediaType = u.mediaType
  left : t.codec ∉ named
  right : u.codec ∉ named

/-- Two files have one path if their tracks have one media type, and one codec or two without an
ending of their own. -/
theorem path_fileOf_eq_iff :
    (fileOf directory stem t conversion).path = (fileOf directory stem u conversion').path ↔
      t.mediaType = u.mediaType ∧ (t.codec = u.codec ∨ (t.codec ∉ named ∧ u.codec ∉ named)) := by
  have hhead : (ExportFile.nameFor stem t).toList.head? =
      (ExportFile.nameFor stem u).toList.head? := by
    rw [ExportFile.head?_nameFor, ExportFile.head?_nameFor]
  rw [← ExportFile.ending_eq_iff, ← ExportFile.nameFor_eq_iff]
  exact Files.pathIn_eq_iff hhead

/-- The track at the place is the first of its codec. -/
structure FirstOf (tracks : List Track) (place : Nat) (t : Track) : Prop where
  here : tracks[place]? = some t
  first : ∀ j u, j < place → tracks[j]? = some u → u.codec ≠ t.codec

theorem opensFor_iff_firstOf (h : t.codec ∉ named) :
    OpensFor tracks place t conversion ↔ FirstOf tracks place t ∧ conversion = .plain := by
  have hplain (u : Track) (hcodec : u.codec = t.codec) :
      Conversion.ofMetaData u.metaData = .ok .plain :=
    Conversion.ofMetaData_of_not_named (hcodec ▸ h : u.codec ∉ named)
  constructor
  · rintro ⟨hhere, hconverts, hfirst⟩
    refine ⟨⟨hhere, fun j u hj hu hcodec => ?_⟩, ?_⟩
    · obtain ⟨fault, hfault⟩ := hfirst j u hj hu hcodec
      rw [hplain u hcodec] at hfault
      cases hfault
    · rw [hplain t rfl] at hconverts
      exact (Except.ok.inj hconverts).symm
  · rintro ⟨⟨hhere, hfirst⟩, rfl⟩
    exact ⟨hhere, hplain t rfl, fun j u hj hu hcodec => absurd hcodec (hfirst j u hj hu)⟩

/-- There is one first track of a codec that can be converted. -/
theorem OpensFor.unique {place' : Nat} (h : OpensFor tracks place t conversion)
    (h' : OpensFor tracks place' u conversion') (hcodec : t.codec = u.codec) :
    t = u ∧ conversion = conversion' := by
  have hplaces : place = place' := by
    rcases Nat.lt_trichotomy place place' with hlt | heq | hgt
    · obtain ⟨fault, hfault⟩ := h'.first place t hlt h.here hcodec
      rw [h.converts] at hfault
      cases hfault
    · exact heq
    · obtain ⟨fault, hfault⟩ := h.first place' u hgt h'.here hcodec.symm
      rw [h'.converts] at hfault
      cases hfault
  subst hplaces
  obtain rfl : t = u := Option.some.inj (h.here.symm.trans h'.here)
  exact ⟨rfl, Except.ok.inj (h.converts.symm.trans h'.converts)⟩

/-- For each first track of its codec that can be converted there is a file. -/
theorem Started.mem_of_opensFor (h : Started directory stem tracks e)
    (hopens : OpensFor tracks place t conversion) :
    fileOf directory stem t conversion ∈ e.files := by
  cases hfile : e.fileFor? t.codec with
  | none =>
    obtain ⟨fault, hfault⟩ := h.others t (List.mem_of_getElem? hopens.here) hfile
    rw [hopens.converts] at hfault
    cases hfault
  | some f =>
    have hmem := List.mem_of_find?_eq_some hfile
    have hcodec : f.codec = t.codec := by simpa using List.find?_some hfile
    obtain ⟨place', u, conversion', hopens', rfl⟩ := h.opened f hmem
    obtain ⟨rfl, rfl⟩ := hopens.unique hopens' hcodec.symm
    exact hmem

/-! ### All files -/

/-- The first tracks of two codecs have files of one name. -/
def Clash (tracks : List Track) : Prop :=
  ∃ place t place' u, FirstOf tracks place t ∧ FirstOf tracks place' u ∧ SameName t u

/-- **The paths of the files are distinct exactly if no two names clash.** -/
theorem Started.nodup_path_iff (h : Started directory stem tracks e) :
    (e.files.map (·.path)).Nodup ↔ ¬ Clash tracks := by
  have hfiles : e.files.Nodup := h.nodup.of_map
  rw [List.nodup_map_iff_inj_on hfiles]
  constructor
  · rintro hinj ⟨place, t, place', u, hfirst, hfirst', hcodec, hmedia, hleft, hright⟩
    have hf := h.mem_of_opensFor ((opensFor_iff_firstOf hleft).2 ⟨hfirst, rfl⟩)
    have hg := h.mem_of_opensFor ((opensFor_iff_firstOf hright).2 ⟨hfirst', rfl⟩)
    exact hcodec (congrArg ExportFile.codec
      (hinj _ hf _ hg (path_fileOf_eq_iff.2 ⟨hmedia, .inr ⟨hleft, hright⟩⟩)))
  · intro hclash f hf g hg hpath
    refine List.inj_on_of_nodup_map h.nodup hf hg ?_
    obtain ⟨place, t, conversion, hopens, rfl⟩ := h.opened f hf
    obtain ⟨place', u, conversion', hopens', rfl⟩ := h.opened g hg
    obtain ⟨hmedia, hcodec | ⟨hleft, hright⟩⟩ := path_fileOf_eq_iff.1 hpath
    · exact hcodec
    · by_contra hne
      exact hclash ⟨place, t, place', u, ((opensFor_iff_firstOf hleft).1 hopens).1,
        ((opensFor_iff_firstOf hright).1 hopens').1, hne, hmedia, hleft, hright⟩

/-! ### What is written -/

theorem path_update (files : List ExportFile) (codec : Codec) (piece : List UInt8) :
    (update files codec piece).map (·.path) = files.map (·.path) := by
  induction files with
  | nil => rfl
  | cons f files ih =>
    unfold update
    split
    · rfl
    · simp [ih]

theorem path_write {e' : Exporter} {codec : Codec} {sample : List UInt8}
    (h : e.write codec sample = .ok e') : e'.files.map (·.path) = e.files.map (·.path) := by
  unfold write at h
  split at h
  · cases h
    rfl
  · rename_i f hfile
    cases hpiece : f.conversion.apply f.extraData sample with
    | error fault =>
      rw [hpiece] at h
      cases h
    | ok piece =>
      rw [hpiece] at h
      cases h
      exact path_update e.files codec piece

/-- Samples change no path, also if one of them cannot be converted. -/
theorem path_writeAll (e : Exporter) (ds : List Delivery) :
    (e.writeAll ds).1.files.map (·.path) = e.files.map (·.path) := by
  induction ds generalizing e with
  | nil => rfl
  | cons d ds ih =>
    unfold writeAll
    split
    · rfl
    · rename_i e' hwrite
      rw [ih, path_write hwrite]

/-- What is told at the end names the path of each file. -/
theorem perm_written (e : Exporter) : (e.written.map Prod.fst).Perm (e.files.map (·.path)) := by
  have h := (List.mergeSort_perm (e.files.map fun f => (f.path, f.pieces.size)) fun a b =>
    decide (a.1 < b.1) || (a.1 = b.1 && decide (a.2 ≤ b.2))).map Prod.fst
  rwa [List.map_map] at h

/-- A directory once files were filled, one after the other, with what all outputs come to. -/
def filled (all files : List ExportFile) (d : Directory) : Directory :=
  files.foldl (fun d f => d.put f.path ⟨(ExportFile.laid all f.path).toArray⟩) d

theorem run_fillExports (e : Exporter) (d : Directory) :
    (Session.fillExports e : Run (StateM Directory) Unit).outcome.run d =
      ((.ok (), []), filled e.files e.files d) := by
  have hrun (all files : List ExportFile) (stop : ExportFile → FileFault → Stop) (d : Directory) :
      Run.outcome (m := StateM Directory) (files.forM fun f =>
        Run.work (stop f) (Files.write f.path ⟨(ExportFile.laid all f.path).toArray⟩)) d =
      ((.ok (), []), filled all files d) := by
    induction files generalizing d with
    | nil => rfl
    | cons f files ih => exact ih (d.put f.path ⟨(ExportFile.laid all f.path).toArray⟩)
  exact hrun e.files e.files _ d

theorem file?_filled_of_not_mem {all files : List ExportFile} {path : String}
    (h : path ∉ files.map (·.path)) (d : Directory) :
    (filled all files d).file? path = d.file? path := by
  induction files generalizing d with
  | nil => rfl
  | cons f files ih =>
    rw [List.map_cons, List.mem_cons, not_or] at h
    refine (ih h.2 _).trans ?_
    rw [Directory.file?_put, if_neg h.1]

theorem file?_filled {all files : List ExportFile} {path : String}
    (h : path ∈ files.map (·.path)) (d : Directory) :
    (filled all files d).file? path = some ⟨(ExportFile.laid all path).toArray⟩ := by
  induction files generalizing d with
  | nil => cases h
  | cons g files ih =>
    -- The last output of the path decides, and all of them write the same.
    by_cases hlater : path ∈ files.map (·.path)
    · exact ih hlater _
    · obtain rfl : path = g.path := (List.mem_cons.1 h).resolve_right hlater
      refine (file?_filled_of_not_mem hlater _).trans ?_
      rw [Directory.file?_put, if_pos rfl]

/-- **Exported files have distinct paths, and at the end each path is told once, exactly if no two
codecs of one media type that lack an ending of their own are exported.  Then no file takes the place
of another: once they were filled, each holds what was put into it.**  Otherwise a file is as long as
the longest of its outputs, and each of its bytes belongs to one of them. -/
theorem distinct_paths_iff (directory stem : String) (tracks : List Track) :
    (((start directory stem tracks).value.files.map (·.path)).Nodup ↔ ¬ Clash tracks) ∧
    ∀ ds e, ((start directory stem tracks).value.writeAll ds).1 = e →
      ((e.written.map Prod.fst).Nodup ↔ ¬ Clash tracks) ∧
      (¬ Clash tracks → ∀ d : Directory, ∃ d',
        (Session.fillExports e : Run (StateM Directory) Unit).outcome.run d = ((.ok (), []), d') ∧
        ∀ f ∈ e.files, d'.file? f.path = some ⟨f.content.toArray⟩) ∧
      ∀ d : Directory, ∃ d',
        (Session.fillExports e : Run (StateM Directory) Unit).outcome.run d = ((.ok (), []), d') ∧
        ∀ f ∈ e.files, ∃ bytes : List UInt8, d'.file? f.path = some ⟨bytes.toArray⟩ ∧
          (∀ g ∈ e.files, g.path = f.path → g.content.length ≤ bytes.length) ∧
          ∀ (k : Nat) (b : UInt8), bytes[k]? = some b →
            ∃ g ∈ e.files, g.path = f.path ∧ g.content[k]? = some b := by
  have hstart := (started_start directory stem tracks).nodup_path_iff
  refine ⟨hstart, ?_⟩
  rintro ds e rfl
  rw [← path_writeAll _ ds] at hstart
  refine ⟨(perm_written _).nodup_iff.trans hstart, fun hclash d => ?_, fun d => ?_⟩
  · refine ⟨_, run_fillExports _ d, fun f hf => ?_⟩
    rw [file?_filled (List.mem_map_of_mem hf), ExportFile.laid_of_nodup (hstart.2 hclash) hf]
  · refine ⟨_, run_fillExports _ d, fun f hf => ⟨_, file?_filled (List.mem_map_of_mem hf) d, ?_, ?_⟩⟩
    · exact fun g hg hpath => ExportFile.length_le_length_laid hg hpath
    · exact fun k b hb => ExportFile.exists_of_getElem?_laid hb

/-- A track of subtitles. -/
def subtitleTrack (codec : Codec) : Track :=
  { dataTrack 0 with metaData := .subtitle codec [] }

theorem clash_subtitleTracks : Clash [subtitleTrack .movText, subtitleTrack .eia608] := by
  refine ⟨0, subtitleTrack .movText, 1, subtitleTrack .eia608,
    ⟨rfl, fun j _ hj => absurd hj (Nat.not_lt_zero j)⟩, ⟨rfl, ?_⟩, ?_⟩
  · intro j u hj hu
    obtain rfl : j = 0 := by omega
    cases hu
    decide
  · exact ⟨by decide, rfl, by decide, by decide⟩

theorem not_clash_subtitleTrack : ¬ Clash [subtitleTrack .movText] := by
  rintro ⟨place, t, place', u, ht, hu, hname⟩
  have ht := List.mem_singleton.1 (List.mem_of_getElem? ht.here)
  have hu := List.mem_singleton.1 (List.mem_of_getElem? hu.here)
  exact hname.codec (by rw [ht, hu])

/-- The file of a track of subtitles, with one sample in it. -/
def subtitleFile : ExportFile :=
  { fileOf "out" "clip" (subtitleTrack .movText) .plain with pieces := #[[7]] }

theorem writeAll_subtitleTrack :
    (start "out" "clip" [subtitleTrack .movText]).value.writeAll
      [{ byteSample 7 with codec := .movText }] = (⟨[subtitleFile]⟩, none) := rfl

/-- Two tracks of subtitles of two codecs have files of one path; the sample of one track alone stands in
its file at the end. -/
theorem subtitleTracks_samePath :
    (∃ f g, (start "out" "clip" [subtitleTrack .movText, subtitleTrack .eia608]).value.files =
        [f, g] ∧ f.codec ≠ g.codec) ∧
    ¬ ((start "out" "clip" [subtitleTrack .movText, subtitleTrack .eia608]).value.files.map
        (·.path)).Nodup ∧
    ∀ d : Directory, ∃ d',
      (Session.fillExports ⟨[subtitleFile]⟩ : Run (StateM Directory) Unit).outcome.run d =
        ((.ok (), []), d') ∧
      d'.file? subtitleFile.path = some ⟨#[7]⟩ := by
  refine ⟨⟨_, _, rfl, by decide⟩, fun hnodup => ?_, fun d => ?_⟩
  · exact (distinct_paths_iff "out" "clip" _).1.1 hnodup clash_subtitleTracks
  · obtain ⟨d', hrun, hfiles⟩ := ((distinct_paths_iff "out" "clip" [subtitleTrack .movText]).2
      _ _ (congrArg Prod.fst writeAll_subtitleTrack)).2.1 not_clash_subtitleTrack d
    exact ⟨d', hrun, hfiles subtitleFile (List.mem_singleton_self _)⟩

end Exporter

end IsoMedia
