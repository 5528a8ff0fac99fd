import IsoMedia.Proofs.Movie.Samples

/-!
# The media data of a written movie

Chunks are put into the media data one after the other.  Where they are disjoint, no later chunk
touches an earlier one, and the file has the bytes of every sample where the sample lies
(`Movie.Valid.extract_eq`).
-/

namespace IsoMedia

namespace Movie

/-- The data, which starts at the given place of a file, has the bytes of the chunk in their
place. -/
def Has (dataStart : Nat) (data : List UInt8) (c : Chunk) : Prop :=
  ∀ k, k < c.bytes.length → data[c.start - dataStart + k]? = c.bytes[k]?

/-- The chunk lies within data of the given length. -/
def Within (dataStart length : Nat) (c : Chunk) : Prop :=
  dataStart ≤ c.start ∧ c.stop ≤ dataStart + length

variable {dataStart : Nat} {data : List UInt8} {c d : Chunk}

theorem length_putChunk (h : Within dataStart data.length c) :
    (putChunk dataStart data c).length = data.length := by
  obtain ⟨hstart, hstop⟩ := h
  have hc : c.stop = c.start + c.bytes.length := rfl
  simp only [putChunk, List.length_append, List.length_take, List.length_drop]
  omega

theorem has_putChunk (h : Within dataStart data.length c) :
    Has dataStart (putChunk dataStart data c) c := by
  intro k hk
  obtain ⟨hstart, hstop⟩ := h
  have hc : c.stop = c.start + c.bytes.length := rfl
  have hlength : (data.take (c.start - dataStart)).length = c.start - dataStart :=
    List.length_take_of_le (by omega)
  rw [putChunk, List.append_assoc, List.getElem?_append_right (by omega), hlength,
    Nat.add_sub_cancel_left, List.getElem?_append_left hk]

/-- A chunk that is put in elsewhere leaves the bytes alone. -/
theorem Has.putChunk (hd : Has dataStart data d) (hc : Within dataStart data.length c)
    (hdWithin : Within dataStart data.length d) (hdisjoint : d.Disjoint c) :
    Has dataStart (putChunk dataStart data c) d := by
  intro k hk
  obtain ⟨hstart, hstop⟩ := hc
  obtain ⟨hdstart, hdstop⟩ := hdWithin
  have hcstop : c.stop = c.start + c.bytes.length := rfl
  have hdstop' : d.stop = d.start + d.bytes.length := rfl
  have hlength : (data.take (c.start - dataStart)).length = c.start - dataStart :=
    List.length_take_of_le (by omega)
  rw [← hd k hk, Movie.putChunk]
  rcases hdisjoint with hbefore | hbehind
  · rw [List.append_assoc, List.getElem?_append_left (by omega),
      List.getElem?_take_of_lt (by omega)]
  · rw [List.getElem?_append_right (by rw [List.length_append]; omega), List.length_append, hlength,
      List.getElem?_drop]
    congr 1
    omega

theorem length_foldl_putChunk {chunks : List Chunk}
    (h : ∀ c ∈ chunks, Within dataStart data.length c) :
    (chunks.foldl (putChunk dataStart) data).length = data.length := by
  induction chunks generalizing data with
  | nil => rfl
  | cons c chunks ih =>
    rw [List.forall_mem_cons] at h
    have hlength := length_putChunk h.1
    rw [List.foldl_cons, ih (hlength.symm ▸ h.2), hlength]

/-- Disjoint chunks are all there in the end.  What is there already stays. -/
theorem has_foldl_putChunk {chunks : List Chunk}
    (h : ∀ c ∈ chunks, Within dataStart data.length c)
    (hdisjoint : chunks.Pairwise Chunk.Disjoint) :
    (∀ c ∈ chunks, Has dataStart (chunks.foldl (putChunk dataStart) data) c) ∧
    ∀ d, Has dataStart data d → Within dataStart data.length d → (∀ c ∈ chunks, d.Disjoint c) →
      Has dataStart (chunks.foldl (putChunk dataStart) data) d := by
  induction chunks generalizing data with
  | nil => exact ⟨List.forall_mem_nil _, fun d hd _ _ => hd⟩
  | cons c chunks ih =>
    rw [List.forall_mem_cons] at h
    rw [List.pairwise_cons] at hdisjoint
    have hlength := length_putChunk h.1
    obtain ⟨hthere, hstay⟩ := @ih (putChunk dataStart data c) (hlength.symm ▸ h.2) hdisjoint.2
    rw [hlength] at hstay
    rw [List.foldl_cons]
    refine ⟨List.forall_mem_cons.2 ⟨hstay c (has_putChunk h.1) h.1 hdisjoint.1, hthere⟩,
      fun d hd hwithin hapart => ?_⟩
    rw [List.forall_mem_cons] at hapart
    exact hstay d (hd.putChunk h.1 hwithin hapart.1) hwithin hapart.2

variable {m : Movie}

/-- Where the media data lies in the file. -/
theorem exists_file_eq (m : Movie) :
    ∃ before after, Box.allBytes m.boxes = before ++ (m.data.payload ++ after) ∧
      before.length = m.dataStart := by
  have hbytes : m.data.bytes =
      (numberBytes 4 m.data.size ++ m.data.type.bytes) ++ m.data.payload :=
    (List.append_assoc _ _ _).symm
  unfold boxes dataStart
  split
  · refine ⟨m.fileType.bytes ++ (numberBytes 4 m.data.size ++ m.data.type.bytes), m.box.bytes,
      ?_, ?_⟩
    · simp only [Box.allBytes_cons, Box.allBytes_nil, hbytes, List.append_assoc, List.append_nil]
    · simp only [List.length_append, Box.length_bytes, length_numberBytes, FourCc.length_bytes]
  · refine ⟨m.fileType.bytes ++ m.box.bytes ++ (numberBytes 4 m.data.size ++ m.data.type.bytes), [],
      ?_, ?_⟩
    · simp only [Box.allBytes_cons, Box.allBytes_nil, hbytes, List.append_assoc, List.append_nil]
    · simp only [List.length_append, Box.length_bytes, length_numberBytes, FourCc.length_bytes]

/-- The chunks of a valid plan lie in the media data. -/
theorem Valid.within (hm : m.Valid) {c : Chunk} (hc : c ∈ m.chunks) :
    Within m.dataStart m.filler.length c := hm.inside c hc

theorem Valid.length_data (hm : m.Valid) : m.data.payload.length = m.filler.length :=
  length_foldl_putChunk fun _ hc => hm.within hc

/-- Every chunk ends within the file. -/
theorem Valid.stop_le (hm : m.Valid) {c : Chunk} (hc : c ∈ m.chunks) :
    c.stop ≤ (Box.allBytes m.boxes).length := by
  obtain ⟨before, after, hfile, hbefore⟩ := m.exists_file_eq
  have hstop := (hm.within hc).2
  have hlength := hm.length_data
  rw [hfile, List.length_append, List.length_append]
  omega

/-- The file has the bytes of every chunk in their place. -/
theorem Valid.getElem?_file (hm : m.Valid) {c : Chunk} (hc : c ∈ m.chunks) {k : Nat}
    (hk : k < c.bytes.length) : (Box.allBytes m.boxes)[c.start + k]? = c.bytes[k]? := by
  obtain ⟨before, after, hfile, hbefore⟩ := m.exists_file_eq
  have hhas := (has_foldl_putChunk (fun _ hc => hm.within hc) hm.disjoint).1 c hc k hk
  have hlength := hm.length_data
  obtain ⟨hstart, hstop⟩ := hm.within hc
  have hcstop : c.stop = c.start + c.bytes.length := rfl
  rw [hfile, List.getElem?_append_right (by omega), List.getElem?_append_left (by omega), ← hhas]
  show m.data.payload[_]? = m.data.payload[_]?
  congr 1
  omega

/-- The bytes of a sample are where it lies. -/
theorem Valid.extract_eq (hm : m.Valid) {c : Chunk} (hc : c ∈ m.chunks) {e : Extent}
    {s : List UInt8} (h : c.Holds e s) : m.file.extract e.pos (e.pos + e.size) = ⟨s.toArray⟩ := by
  obtain ⟨before, after, hbytes, rfl⟩ := h
  have hlist : ((Box.allBytes m.boxes).drop (c.start + before.length)).take s.length = s := by
    apply List.ext_getElem?
    intro k
    by_cases hk : k < s.length
    · have hin : before.length + k < c.bytes.length := by
        rw [hbytes]
        simp only [List.length_append]
        omega
      rw [List.getElem?_take_of_lt hk, List.getElem?_drop, Nat.add_assoc, hm.getElem?_file hc hin,
        hbytes, List.append_assoc, List.getElem?_append_right (Nat.le_add_right _ _),
        Nat.add_sub_cancel_left, List.getElem?_append_left hk]
    · rw [List.getElem?_eq_none (by simp; omega), List.getElem?_eq_none (by omega)]
  apply ByteArray.ext
  apply Array.toList_inj.1
  rw [ByteArray.data_extract, Array.toList_extract, List.extract_eq_take_drop,
    Nat.add_sub_cancel_left]
  exact hlist

end Movie

end IsoMedia
