import IsoMedia.Box.Frame

/-!
# Where boxes lie

The boxes that are cut out of a run of bytes lie in it one behind the other, and each holds its
payload behind its header (`Frame.placed_all`).
-/

namespace IsoMedia.Frame

/-- The payload fills the box behind its header. -/
structure Filled (f : Frame) : Prop where
  offset_lt : f.offset < f.payloadOffset
  payload_end : f.payloadOffset + f.payload.length = f.offset + f.size

theorem Filled.size_pos {f : Frame} (h : f.Filled) : 0 < f.size := by
  obtain ⟨hstart, hend⟩ := h
  omega

/-- Boxes lie one behind the other between two places of the file. -/
def Placed : Nat → Nat → List Frame → Prop
  | lo, hi, [] => lo ≤ hi
  | lo, hi, f :: frames =>
    lo ≤ f.offset ∧ f.Filled ∧ Placed (f.offset + f.size) hi frames

theorem Placed.le {lo hi : Nat} {frames : List Frame} (h : Placed lo hi frames) :
    lo ≤ hi := by
  induction frames generalizing lo with
  | nil => exact h
  | cons f frames ih =>
    obtain ⟨hstart, -, hrest⟩ := h
    have := ih hrest
    omega

/-- Every one of the boxes starts between the two places. -/
theorem Placed.offset_of_mem {lo hi : Nat} {frames : List Frame} (h : Placed lo hi frames)
    {f : Frame} (hf : f ∈ frames) : lo ≤ f.offset ∧ f.offset < hi := by
  induction frames generalizing lo with
  | nil => cases hf
  | cons g frames ih =>
    obtain ⟨hstart, hfilled, hrest⟩ := h
    have hsize := hfilled.size_pos
    have hle := hrest.le
    rcases List.mem_cons.1 hf with rfl | hf
    · omega
    · have := ih hrest hf
      omega

variable {scope : Scope} {type : FourCc} {offset size headerLength : Nat} {f : Frame}
  {bs body rest : List UInt8}

theorem cut_spec (h : cut type offset size headerLength body = .ok (some (f, rest)))
    (hheader : 0 < headerLength) :
    f.offset = offset ∧ f.Filled ∧ f.size + rest.length = headerLength + body.length := by
  unfold cut at h
  split at h
  · cases h
  · simp only at h
    split at h
    · cases h
    · rename_i hsize hlong
      rw [List.length_take] at hlong
      cases h
      refine ⟨rfl, ⟨Nat.lt_add_of_pos_right hheader, ?_⟩, ?_⟩
      · simp only [payloadOffset, List.length_take]
        omega
      · simp only [List.length_drop]
        omega

/-- A box that is cut off starts where the bytes lo, and the rest follows it. -/
theorem next?_spec (h : next? scope offset bs = .ok (some (f, rest))) :
    f.offset = offset ∧ f.Filled ∧ f.size + rest.length = bs.length := by
  unfold next? at h
  split at h
  · cases h
  · simp only at h
    split at h
    · split at h
      · cases h
      · obtain ⟨hoffset, hfilled, hlength⟩ := cut_spec h (by decide)
        refine ⟨hoffset, hfilled, ?_⟩
        simp only [List.length_cons]
        omega
    · split at h
      · cases h
      · rename_i hwide
        obtain ⟨hoffset, hfilled, hlength⟩ := cut_spec h (by decide)
        refine ⟨hoffset, hfilled, ?_⟩
        simp only [List.length_take, List.length_drop] at hwide hlength
        simp only [List.length_cons]
        omega
    · obtain ⟨hoffset, hfilled, hlength⟩ := cut_spec h (by decide)
      refine ⟨hoffset, hfilled, ?_⟩
      simp only [List.length_cons]
      omega
  · split at h <;> cases h

/-- **Boxes lie one behind the other** in the bytes that they were cut out of. -/
theorem placed_all (scope : Scope) (offset : Nat) (bs : List UInt8) :
    Placed offset (offset + bs.length) (all scope offset bs).1 := by
  fun_induction all scope offset bs with
  | case1 offset bs e h => exact Nat.le_add_right _ _
  | case2 offset bs h => exact Nat.le_add_right _ _
  | case3 offset bs f rest h r ih =>
    obtain ⟨hoffset, hfilled, hlength⟩ := next?_spec h
    refine ⟨Nat.le_of_eq hoffset.symm, hfilled, ?_⟩
    rw [hoffset, ← hlength, ← Nat.add_assoc]
    exact ih

end IsoMedia.Frame
