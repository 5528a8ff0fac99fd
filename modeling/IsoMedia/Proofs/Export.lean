import IsoMedia.Export
import IsoMedia.Proofs.Demuxer.Ledger
import Mathlib.Data.List.Nodup

/-!
# What the exported files hold

A file is opened for the first track of each codec that can be converted, and takes every sample of
its codec that is handed over, from whichever track it comes.  So it holds the samples of the track
for which it was opened, and of no other, exactly if no other track of its codec hands any over.

`Exporter.Started` is what holds of the files opened for some tracks, and of those opened for one
more (`Exporter.started_concat`).  `Exporter.Grown` says what samples add to a file: one sample by
`Exporter.grown_write`, and from it any number by `Exporter.grown_writeAll`.

* `Exporter.holds_codec` : what a file holds when all samples were written.
-/

namespace IsoMedia

namespace Conversion

variable {c : Conversion} {extraData : List UInt8} {ds ds' : List Delivery}
  {pieces pieces' : List (List UInt8)}

/-- Samples as they are written, one after the other. -/
def applyAll (c : Conversion) (extraData : List UInt8) (ds : List Delivery) :
    Except Error (List (List UInt8)) :=
  ds.mapM fun d => c.apply extraData d.data.data.toList

theorem applyAll_append (h : c.applyAll extraData ds = .ok pieces)
    (h' : c.applyAll extraData ds' = .ok pieces') :
    c.applyAll extraData (ds ++ ds') = .ok (pieces ++ pieces') := by
  unfold applyAll at h h' ⊢
  rw [List.mapM_append, h, h']
  rfl

theorem length_of_applyAll (h : c.applyAll extraData ds = .ok pieces) :
    pieces.length = ds.length := by
  induction ds generalizing pieces with
  | nil =>
    cases h
    rfl
  | cons d ds ih =>
    unfold applyAll at h
    rw [List.mapM_cons, bind_eq_ok_iff] at h
    obtain ⟨piece, -, h⟩ := h
    obtain ⟨pieces, hrest, h⟩ := bind_eq_ok_iff.1 h
    cases h
    exact congrArg (· + 1) (ih hrest)

end Conversion

namespace Exporter

variable {directory stem : String} {tracks : List Track} {e e' : Exporter}

/-! ### Which files are opened -/

/-- The file that is opened for a track. -/
def fileOf (directory stem : String) (t : Track) (conversion : Conversion) : ExportFile where
  codec := t.codec
  path := Files.pathIn directory (ExportFile.nameFor stem t)
  conversion := conversion
  extraData := t.metaData.extraData

/-- The track at the place is the first of its codec that can be converted. -/
structure OpensFor (tracks : List Track) (place : Nat) (t : Track) (conversion : Conversion) : Prop
    where
  here : tracks[place]? = some t
  converts : Conversion.ofMetaData t.metaData = .ok conversion
  first : ∀ j u, j < place → tracks[j]? = some u → u.codec = t.codec →
    ∃ fault, Conversion.ofMetaData u.metaData = .error fault

/-- Files are open, one for each codec, for the first tracks that can be converted. -/
structure Started (directory stem : String) (tracks : List Track) (e : Exporter) : Prop where
  nodup : (e.files.map (·.codec)).Nodup
  opened : ∀ f ∈ e.files, ∃ place t conversion, OpensFor tracks place t conversion ∧
    f = fileOf directory stem t conversion
  /-- A track of a codec without a file cannot be converted. -/
  others : ∀ t ∈ tracks, e.fileFor? t.codec = none →
    ∃ fault, Conversion.ofMetaData t.metaData = .error fault

theorem OpensFor.concat {place : Nat} {t : Track} {conversion : Conversion}
    (h : OpensFor tracks place t conversion) (u : Track) :
    OpensFor (tracks ++ [u]) place t conversion := by
  obtain ⟨hhere, hconverts, hfirst⟩ := h
  have hplace := (List.getElem?_eq_some_iff.1 hhere).1
  refine ⟨by rw [List.getElem?_append_left hplace, hhere], hconverts, fun j v hj hv => ?_⟩
  rw [List.getElem?_append_left (Nat.lt_trans hj hplace)] at hv
  exact hfirst j v hj hv

theorem fileFor?_eq_none {codec : Codec} :
    e.fileFor? codec = none ↔ ∀ f ∈ e.files, f.codec ≠ codec := by
  simp [fileFor?]

theorem value_openFor (t : Track) : (openFor directory stem e t).value =
    if (e.fileFor? t.codec).isSome then e
    else match Conversion.ofMetaData t.metaData with
      | .error _ => e
      | .ok conversion => ⟨e.files ++ [fileOf directory stem t conversion]⟩ := by
  unfold openFor
  dsimp only
  split
  · rfl
  · cases Conversion.ofMetaData t.metaData <;> rfl

/-- One track more: its codec has a file already, or it cannot be converted, or a file is opened. -/
theorem started_concat (h : Started directory stem tracks e) (t : Track) :
    Started directory stem (tracks ++ [t]) (openFor directory stem e t).value := by
  obtain ⟨hnodup, hopened, hothers⟩ := h
  have hstays : ∀ f ∈ e.files, ∃ place u conversion,
      OpensFor (tracks ++ [t]) place u conversion ∧ f = fileOf directory stem u conversion := by
    intro f hf
    obtain ⟨place, u, conversion, hopens, hfile⟩ := hopened f hf
    exact ⟨place, u, conversion, hopens.concat t, hfile⟩
  rw [value_openFor]
  cases hfile : e.fileFor? t.codec with
  | some f =>
    rw [Option.isSome_some, if_pos rfl]
    refine ⟨hnodup, hstays, fun u hu hnone => ?_⟩
    rcases List.mem_append.1 hu with hu | hu
    · exact hothers u hu hnone
    · rw [List.mem_singleton.1 hu, hfile] at hnone
      cases hnone
  | none =>
    rw [Option.isSome_none, if_neg Bool.false_ne_true]
    have hfresh := fileFor?_eq_none.1 hfile
    cases hconverts : Conversion.ofMetaData t.metaData with
    | error fault =>
      refine ⟨hnodup, hstays, fun u hu hnone => ?_⟩
      rcases List.mem_append.1 hu with hu | hu
      · exact hothers u hu hnone
      · rw [List.mem_singleton.1 hu]
        exact ⟨fault, hconverts⟩
    | ok conversion =>
      refine ⟨?_, fun f hf => ?_, fun u hu hnone => ?_⟩
      · simp only [List.map_append, List.map_singleton]
        refine List.nodup_append.2 ⟨hnodup, List.nodup_singleton _, fun codec hcodec codec' hlast => ?_⟩
        obtain ⟨f, hf, rfl⟩ := List.mem_map.1 hcodec
        rw [List.mem_singleton.1 hlast]
        exact hfresh f hf
      · rcases List.mem_append.1 hf with hf | hf
        · exact hstays f hf
        · -- No track before it has the codec and can be converted, or there would be a file.
          refine ⟨tracks.length, t, conversion, ⟨by simp, hconverts, fun j u hj hu hcodec => ?_⟩,
            List.mem_singleton.1 hf⟩
          rw [List.getElem?_append_left hj] at hu
          exact hothers u (List.mem_of_getElem? hu) (by rw [hcodec, hfile])
      · have hnone := fileFor?_eq_none.1 hnone
        rcases List.mem_append.1 hu with hu | hu
        · exact hothers u hu (fileFor?_eq_none.2 fun f hf => hnone f (List.mem_append_left _ hf))
        · rw [List.mem_singleton.1 hu] at hnone
          exact absurd rfl (hnone (fileOf directory stem t conversion)
            (List.mem_append_right _ (List.mem_singleton_self _)))

theorem started_start (directory stem : String) (tracks : List Track) :
    Started directory stem tracks (start directory stem tracks).value := by
  have hrun (rest : List Track) : ∀ (done : List Track) (e : Exporter),
      Started directory stem done e →
      Started directory stem (done ++ rest) (rest.foldlM (openFor directory stem) e).value := by
    induction rest with
    | nil =>
      intro done e h
      rw [List.append_nil, List.foldlM_nil, Noted.value_pure]
      exact h
    | cons t rest ih =>
      intro done e h
      rw [List.foldlM_cons, Noted.value_bind, ← List.singleton_append, ← List.append_assoc]
      exact ih _ _ (started_concat h t)
  have hnone : Started directory stem [] {} :=
    ⟨List.nodup_nil, fun _ hf => absurd hf List.not_mem_nil, fun _ ht => absurd ht List.not_mem_nil⟩
  have hall := hrun tracks [] {} hnone
  rw [List.nil_append] at hall
  unfold start
  exact hall

/-! ### What is written to them -/

/-- The file took the samples of its codec. -/
structure Grown (ds : List Delivery) (f f' : ExportFile) : Prop where
  codec : f'.codec = f.codec
  path : f'.path = f.path
  conversion : f'.conversion = f.conversion
  extraData : f'.extraData = f.extraData
  pieces : ∃ added, f.conversion.applyAll f.extraData (ds.filter (·.codec = f.codec)) = .ok added ∧
    f'.pieces.toList = f.pieces.toList ++ added

theorem Grown.append {ds ds' : List Delivery} {f f' f'' : ExportFile} (h : Grown ds f f')
    (h' : Grown ds' f' f'') : Grown (ds ++ ds') f f'' := by
  obtain ⟨hcodec, hpath, hconversion, hextra, added, hadded, hpieces⟩ := h
  obtain ⟨hcodec', hpath', hconversion', hextra', added', hadded', hpieces'⟩ := h'
  rw [hconversion, hextra, hcodec] at hadded'
  refine ⟨hcodec'.trans hcodec, hpath'.trans hpath, hconversion'.trans hconversion,
    hextra'.trans hextra, added ++ added', ?_, ?_⟩
  · rw [List.filter_append]
    exact Conversion.applyAll_append hadded hadded'
  · rw [hpieces', hpieces, List.append_assoc]

/-- Every file took the samples of its codec. -/
structure GrownAll (ds : List Delivery) (e e' : Exporter) : Prop where
  codecs : e'.files.map (·.codec) = e.files.map (·.codec)
  files : ∀ f' ∈ e'.files, ∃ f ∈ e.files, Grown ds f f'

theorem codec_update (files : List ExportFile) (codec : Codec) (piece : List UInt8) :
    (update files codec piece).map (·.codec) = files.map (·.codec) := by
  induction files with
  | nil => rfl
  | cons f files ih =>
    unfold update
    split
    · rfl
    · simp [ih]

/-- Only the file of the codec is changed. -/
theorem mem_update {files : List ExportFile} (hnodup : (files.map (·.codec)).Nodup) {codec : Codec}
    {piece : List UInt8} {f' : ExportFile} (h : f' ∈ update files codec piece) :
    ∃ f ∈ files, (f.codec = codec ∧ f' = { f with pieces := f.pieces.push piece }) ∨
      (f.codec ≠ codec ∧ f' = f) := by
  induction files with
  | nil => cases h
  | cons f files ih =>
    obtain ⟨hfresh, hnodup⟩ := List.nodup_cons.1 hnodup
    unfold update at h
    split at h
    · rename_i hcodec
      rcases List.mem_cons.1 h with rfl | h
      · exact ⟨f, List.mem_cons_self, .inl ⟨hcodec, rfl⟩⟩
      · refine ⟨f', List.mem_cons_of_mem f h, .inr ⟨?_, rfl⟩⟩
        rintro rfl
        exact hfresh (List.mem_map.2 ⟨f', h, hcodec.symm⟩)
    · rename_i hcodec
      rcases List.mem_cons.1 h with rfl | h
      · exact ⟨f', List.mem_cons_self, .inr ⟨hcodec, rfl⟩⟩
      · obtain ⟨g, hg, hchange⟩ := ih hnodup h
        exact ⟨g, List.mem_cons_of_mem f hg, hchange⟩

/-- A file without a sample of its codec is as it was. -/
theorem grown_of_ne {d : Delivery} {f : ExportFile} (h : f.codec ≠ d.codec) : Grown [d] f f := by
  have hnone : [d].filter (·.codec = f.codec) = [] := by simp [Ne.symm h]
  exact ⟨rfl, rfl, rfl, rfl, [], by rw [hnone]; rfl, (List.append_nil _).symm⟩

/-- One sample is written to the file of its codec. -/
theorem grown_write (hnodup : (e.files.map (·.codec)).Nodup) {d : Delivery}
    (h : e.write d.codec d.data.data.toList = .ok e') : GrownAll [d] e e' := by
  unfold write at h
  cases hfile : e.fileFor? d.codec with
  | none =>
    rw [hfile] at h
    cases h
    exact ⟨rfl, fun f hf => ⟨f, hf, grown_of_ne (fileFor?_eq_none.1 hfile f hf)⟩⟩
  | some f₀ =>
    rw [hfile] at h
    dsimp only at h
    cases hpiece : f₀.conversion.apply f₀.extraData d.data.data.toList with
    | error fault =>
      rw [hpiece] at h
      cases h
    | ok piece =>
      rw [hpiece] at h
      cases h
      have hcodec₀ : f₀.codec = d.codec := by simpa using List.find?_some hfile
      refine ⟨codec_update _ _ _, fun f' hf' => ?_⟩
      obtain ⟨f, hf, hchange⟩ := mem_update hnodup hf'
      refine ⟨f, hf, ?_⟩
      rcases hchange with ⟨hcodec, rfl⟩ | ⟨hne, rfl⟩
      · -- The file that was found first is the only one of its codec.
        obtain rfl : f = f₀ := List.inj_on_of_nodup_map hnodup hf (List.mem_of_find?_eq_some hfile)
          (hcodec.trans hcodec₀.symm)
        have hone : [d].filter (·.codec = f.codec) = [d] := by simp [hcodec]
        refine ⟨rfl, rfl, rfl, rfl, [piece], ?_, Array.toList_push⟩
        rw [hone, Conversion.applyAll, List.mapM_cons, hpiece]
        rfl
      · exact grown_of_ne hne

/-- **Samples are written one after the other to the files of their codecs.** -/
theorem grown_writeAll {ds : List Delivery} (hnodup : (e.files.map (·.codec)).Nodup)
    (h : e.writeAll ds = (e', none)) : GrownAll ds e e' := by
  induction ds generalizing e with
  | nil =>
    cases h
    exact ⟨rfl, fun f hf => ⟨f, hf, rfl, rfl, rfl, rfl, [], rfl, (List.append_nil _).symm⟩⟩
  | cons d ds ih =>
    unfold writeAll at h
    split at h
    · cases h
    · rename_i e₁ hwrite
      have hstep := grown_write hnodup hwrite
      have hrest := ih (by rw [hstep.codecs]; exact hnodup) h
      refine ⟨hrest.codecs.trans hstep.codecs, fun f'' hf'' => ?_⟩
      obtain ⟨f', hf', hgrown'⟩ := hrest.files f'' hf''
      obtain ⟨f, hf, hgrown⟩ := hstep.files f' hf'
      exact ⟨f, hf, hgrown.append hgrown'⟩

/-! ### Samples of tracks -/

/-- The samples come from tracks: each, given with the place of its track, has the codec of that
track. -/
def FromTracks (tracks : List Track) (handed : List (Nat × Delivery)) : Prop :=
  ∀ h ∈ handed, (tracks.map Track.codec)[h.1]? = some h.2.codec

theorem fromTracks_nil (tracks : List Track) : FromTracks tracks [] :=
  fun _ h => absurd h List.not_mem_nil

/-- Reading on does not change the codec of a track. -/
theorem map_codec_set {place : Nat} {t : Track} (h : tracks[place]? = some t) (cursor : Nat) :
    (tracks.set place { t with cursor }).map Track.codec = tracks.map Track.codec := by
  obtain ⟨hplace, rfl⟩ := List.getElem?_eq_some_iff.1 h
  have hplace' : place < (tracks.map Track.codec).length := by simpa using hplace
  have hself := List.set_getElem_self hplace'
  rw [List.getElem_map] at hself
  rw [List.map_set]
  exact hself

/-- What an open file delivers comes from its tracks. -/
theorem fromTracks_readFrom (delivered : Array Delivery) (o : Opened) :
    ∃ handed, FromTracks o.tracks handed ∧
      (o.readFrom delivered).1.toList = delivered.toList ++ handed.map Prod.snd := by
  fun_induction Opened.readFrom delivered o with
  | case1 delivered o e o' hread =>
    exact ⟨[], fromTracks_nil o.tracks, (List.append_nil _).symm⟩
  | case2 delivered o d o' hread ih =>
    obtain ⟨handed, hfrom, hrest⟩ := ih
    have hturned := o.turned_read
    rw [hread] at hturned
    dsimp only at hturned
    generalize o'.tracks = tracks' at hturned hfrom
    generalize o'.handed = handed' at hturned
    cases hturned with
    | @delivered place t s turn data =>
      have ht := (Opened.first?_spec turn).1
      unfold FromTracks at hfrom
      rw [map_codec_set ht] at hfrom
      refine ⟨(place, t.handOver s data) :: handed, fun h hh => ?_, ?_⟩
      · rcases List.mem_cons.1 hh with rfl | hh
        · rw [List.getElem?_map, ht]
          rfl
        · exact hfrom h hh
      · rw [hrest, Array.toList_push, List.append_assoc]
        rfl

theorem fromTracks_readAll (d : Demuxer) : ∃ handed, FromTracks d.tracks handed ∧
    handed.map Prod.snd = d.readAll.1.toList := by
  cases hd : d.opened with
  | none =>
    refine ⟨[], fromTracks_nil d.tracks, ?_⟩
    rw [Demuxer.readAll, hd]
    rfl
  | some o =>
    obtain ⟨handed, hfrom, hhanded⟩ := fromTracks_readFrom #[] o
    refine ⟨handed, by rw [Demuxer.tracks, hd]; exact hfrom, ?_⟩
    rw [Demuxer.readAll, hd]
    exact hhanded.symm

/-- The samples of the track at a place. -/
def ofTrack (place : Nat) (handed : List (Nat × Delivery)) : List Delivery :=
  (handed.filter (·.1 = place)).map Prod.snd

/-- The samples of a codec. -/
def ofCodec (codec : Codec) (handed : List (Nat × Delivery)) : List Delivery :=
  (handed.filter (·.2.codec = codec)).map Prod.snd

theorem ofCodec_eq_filter (codec : Codec) (handed : List (Nat × Delivery)) :
    ofCodec codec handed = (handed.map Prod.snd).filter (·.codec = codec) := by
  rw [List.filter_map]
  rfl

/-- The samples of a track are among those of its codec. -/
theorem filter_place {handed : List (Nat × Delivery)} (hfrom : FromTracks tracks handed)
    {place : Nat} {t : Track} (ht : tracks[place]? = some t) :
    handed.filter (·.1 = place) =
      (handed.filter (·.2.codec = t.codec)).filter (·.1 = place) := by
  rw [List.filter_filter]
  refine List.filter_congr fun h hh => ?_
  have hcodec : h.1 = place → h.2.codec = t.codec := by
    intro hplace
    have hh := hfrom h hh
    rw [hplace, List.getElem?_map, ht] at hh
    exact (Option.some.inj hh).symm
  rw [Bool.eq_iff_iff]
  simpa using hcodec

theorem ofTrack_sublist {handed : List (Nat × Delivery)} (hfrom : FromTracks tracks handed)
    {place : Nat} {t : Track} (ht : tracks[place]? = some t) :
    (ofTrack place handed).Sublist (ofCodec t.codec handed) := by
  unfold ofTrack ofCodec
  rw [filter_place hfrom ht]
  exact List.filter_sublist.map Prod.snd

/-- They are all of them exactly if no other track of the codec hands any over. -/
theorem ofTrack_eq_iff {handed : List (Nat × Delivery)} (hfrom : FromTracks tracks handed)
    {place : Nat} {t : Track} (ht : tracks[place]? = some t) :
    ofTrack place handed = ofCodec t.codec handed ↔
      ∀ h ∈ handed, h.2.codec = t.codec → h.1 = place := by
  unfold ofTrack ofCodec
  rw [filter_place hfrom ht]
  constructor
  · intro heq
    have hlength := congrArg List.length heq
    rw [List.length_map, List.length_map, List.length_filter_eq_length_iff] at hlength
    simpa using hlength
  · intro hall
    rw [List.filter_eq_self.2]
    simpa using hall

/-- **What an exported file holds.**  What is delivered of an opened file comes from its tracks.  And
if samples that come from tracks, in whatever order, were all written to the files that were opened for
these tracks, then there is at most one file for each codec, and it was opened for the first track of
its codec that can be converted.  It holds, one after the other and as that track needs them to be
converted, all the samples of the codec, from whichever tracks they came; these are the samples of its
own track, and no others, exactly if no other track of the codec handed any over. -/
theorem holds_codec (directory stem : String) (tracks : List Track) :
    (∀ d : Demuxer, d.tracks = tracks → ∃ handed, FromTracks tracks handed ∧
      handed.map Prod.snd = d.readAll.1.toList) ∧
    ∀ handed e, FromTracks tracks handed →
      (start directory stem tracks).value.writeAll (handed.map Prod.snd) = (e, none) →
      (e.files.map (·.codec)).Nodup ∧
      ∀ f ∈ e.files, ∃ place t, OpensFor tracks place t f.conversion ∧ f.codec = t.codec ∧
        f.path = Files.pathIn directory (ExportFile.nameFor stem t) ∧
        f.conversion.applyAll t.metaData.extraData (ofCodec f.codec handed) =
          .ok f.pieces.toList ∧
        (f.conversion.applyAll t.metaData.extraData (ofTrack place handed) =
            .ok f.pieces.toList ↔
          ∀ h ∈ handed, h.2.codec = f.codec → h.1 = place) := by
  constructor
  · rintro d rfl
    exact fromTracks_readAll d
  · intro handed e hfrom hwritten
    obtain ⟨hnodup, hopened, -⟩ := started_start directory stem tracks
    obtain ⟨hcodecs, hfiles⟩ := grown_writeAll hnodup hwritten
    refine ⟨by rw [hcodecs]; exact hnodup, fun f hf => ?_⟩
    obtain ⟨f₀, hf₀, hgrown⟩ := hfiles f hf
    obtain ⟨place, t, conversion, hopens, rfl⟩ := hopened f₀ hf₀
    obtain ⟨hcodec, hpath, hconversion, -, added, hadded, hpieces⟩ := hgrown
    obtain rfl : f.conversion = conversion := hconversion
    have hcodec : f.codec = t.codec := hcodec
    have hall : f.conversion.applyAll t.metaData.extraData (ofCodec t.codec handed) =
        .ok f.pieces.toList := by
      rw [hpieces, ofCodec_eq_filter]
      exact hadded
    rw [hcodec]
    refine ⟨place, t, hopens, rfl, hpath, hall, ?_⟩
    rw [← ofTrack_eq_iff hfrom hopens.here]
    constructor
    · -- As many pieces were written as there are samples of the codec.
      intro hown
      refine (ofTrack_sublist hfrom hopens.here).eq_of_length ?_
      rw [← Conversion.length_of_applyAll hown, Conversion.length_of_applyAll hall]
    · intro heq
      rw [heq]
      exact hall

/-- A track of plain data. -/
def dataTrack (number : Nat) : Track where
  number := number
  header := none
  handlerType := none
  metaData := .data .binData []
  description := ⟨⟨0, 0⟩, []⟩
  mediaHeader := ⟨⟨0, 0⟩, 0, 0, 1000, 0, ""⟩
  editList := none
  times := []
  offsets := none
  runs := []
  chunkOffsets := []
  sizes := ⟨0, 0, #[]⟩
  sync := none
  samples := #[]
  cursor := 0

/-- A sample of plain data that consists of one byte. -/
def byteSample (byte : UInt8) : Delivery where
  data := ⟨#[byte]⟩
  presentationTime := 0
  decodeTime := 0
  mediaType := .data
  codec := .binData

/-- Of two tracks of plain data the second one has no file, and its sample stands in that of the
first. -/
theorem dataTracks_mixed : ∃ e,
    (start "out" "clip" [dataTrack 0, dataTrack 1]).value.writeAll
      [byteSample 1, byteSample 2] = (e, none) ∧
    e.files.map (·.pieces.toList) = [[[1], [2]]] ∧
    ∀ f ∈ e.files, ∃ place t, OpensFor [dataTrack 0, dataTrack 1] place t f.conversion ∧
      f.conversion.applyAll t.metaData.extraData
        (ofTrack place [(0, byteSample 1), (1, byteSample 2)]) ≠ .ok f.pieces.toList := by
  obtain ⟨-, hall⟩ := holds_codec "out" "clip" [dataTrack 0, dataTrack 1]
  have hfrom : FromTracks [dataTrack 0, dataTrack 1] [(0, byteSample 1), (1, byteSample 2)] := by
    simp [FromTracks, dataTrack, byteSample, Track.codec, MetaData.codec]
  refine ⟨_, rfl, rfl, fun f hf => ?_⟩
  obtain ⟨-, hfiles⟩ := hall _ _ hfrom rfl
  obtain ⟨place, t, hopens, -, -, -, hiff⟩ := hfiles f hf
  refine ⟨place, t, hopens, fun hown => ?_⟩
  obtain rfl := List.mem_singleton.1 hf
  have hplaces := hiff.1 hown
  have hfirst := hplaces (0, byteSample 1) (by simp) rfl
  have hsecond := hplaces (1, byteSample 2) (by simp) rfl
  omega

end Exporter

end IsoMedia
