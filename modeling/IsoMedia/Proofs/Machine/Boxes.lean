import IsoMedia.Proofs.Box.Grammar
import IsoMedia.Proofs.Box.Places
import IsoMedia.Proofs.Machine.Reader

/-!
# Cutting boxes on a machine

`nextBox` keeps all the bytes around the boxes and the place of the next one in them.  The bytes of a
header are indexed once eight or sixteen of them are there, and a declared size, which may be any
word, is added to a place only once it is known to fit the bytes that are left (`nextBox_eq`).
-/

namespace IsoMedia.Machine

variable {α β : Type}

/-- The box of a declared size at a place with so many bytes behind it, and the place behind the
box. -/
def cutBox (type : FourCc) (base : Nat) (data : List UInt8) (pos remaining size headerLength : Nat) :
    Machine (Option (Frame × Nat)) := do
  if size < headerLength then
    throw (.invalidData (.sizeBelowHeader type size headerLength))
  else if remaining < size then throw .needMoreData
  else
    let stop ← add 64 pos size
    let offset ← add 64 base pos
    let start ← add 64 pos headerLength
    let payload ← slice data start stop
    return some (⟨type, offset, size, headerLength, payload⟩, stop)

/-- The next box behind a place and the place behind it. -/
def nextBox (scope : Scope) (base : Nat) (data : List UInt8) (pos : Nat) :
    Machine (Option (Frame × Nat)) := do
  let remaining ← sub data.length pos
  if remaining = 0 then return none
  else
    let bs ← slice data pos data.length
    if remaining < 8 then
      if scope = .nested ∧ bs.all (· = 0) then return none else throw .needMoreData
    else
      let type : FourCc := ⟨← item bs 4, ← item bs 5, ← item bs 6, ← item bs 7⟩
      match bigEndian (← slice bs 0 4) with
      | 0 =>
        match scope with
        | .nested => throw (.invalidData (.openEndedInside type))
        | .topLevel => cutBox type base data pos remaining remaining 8
      | 1 =>
        if remaining < 16 then throw .needMoreData
        else cutBox type base data pos remaining (bigEndian (← slice bs 8 16)) 16
      | size => cutBox type base data pos remaining size 8

/-! ### The box that is cut off -/

/-- A box that was cut off and the place behind it, which stood at `pos`. -/
def behind (pos : Nat) (x : Option (Frame × List UInt8)) : Option (Frame × Nat) :=
  x.map fun (f, _) => (f, pos + f.size)

variable {scope : Scope} {base pos : Nat} {data : List UInt8}

/-- A size that fits the bytes left leads to places among them. -/
theorem cutBox_eq (type : FourCc) (size : Nat) {headerLength : Nat}
    (hheader : pos + headerLength ≤ data.length) (hbase : base + data.length < 2 ^ 64) :
    cutBox type base data pos (data.length - pos) size headerLength =
      of ((Frame.cut type (base + pos) size headerLength
        (data.drop (pos + headerLength))).map (behind pos)) := by
  rw [cutBox, Frame.cut_eq]
  split
  · rfl
  · rename_i hsize
    have hlong : (data.drop (pos + headerLength)).length < size - headerLength ↔
        data.length - pos < size := by
      rw [List.length_drop]
      omega
    by_cases hfits : data.length - pos < size
    · rw [if_pos hfits, if_pos (hlong.2 hfits)]
      rfl
    · have hslice : slice data (pos + headerLength) (pos + size) =
          pure ((data.drop (pos + headerLength)).take (size - headerLength)) := by
        rw [slice_eq (by omega) (by omega), List.drop_take,
          show pos + size - (pos + headerLength) = size - headerLength by omega]
      rw [if_neg hfits, if_neg fun h => hfits (hlong.1 h), add_eq (by omega), pure_bind,
        add_eq (by omega), pure_bind, add_eq (by omega), pure_bind, hslice]
      rfl

/-- The bytes that are indexed in a header, of a size, a type code and perhaps a second size. -/
theorem header_places {size : List UInt8} (hsize : size.length = 4) (type : FourCc)
    (body : List UInt8) :
    item (size ++ (type.bytes ++ body)) 4 = pure type.b0 ∧
      item (size ++ (type.bytes ++ body)) 5 = pure type.b1 ∧
      item (size ++ (type.bytes ++ body)) 6 = pure type.b2 ∧
      item (size ++ (type.bytes ++ body)) 7 = pure type.b3 ∧
      slice (size ++ (type.bytes ++ body)) 0 4 = pure size ∧
      (8 ≤ body.length → slice (size ++ (type.bytes ++ body)) 8 16 = pure (body.take 8)) := by
  match size, hsize with
  | [s0, s1, s2, s3], _ =>
    refine ⟨rfl, rfl, rfl, rfl, slice_from_start (by simp), fun h => slice_eq (by decide) ?_⟩
    simp
    omega

/-- Where no header can be left, none is looked at. -/
theorem nextBox_few (hpos : pos ≤ data.length) (hfew : data.length - pos < 8) :
    nextBox scope base data pos =
      of ((Frame.next? scope (base + pos) (data.drop pos)).map (behind pos)) := by
  have hlength : (data.drop pos).length = data.length - pos := List.length_drop
  rw [nextBox, sub_eq hpos, pure_bind, slice_to_end hpos, pure_bind,
    Frame.next?_few scope _ (by omega), if_pos hfew]
  by_cases hzero : data.length - pos = 0
  · rw [if_pos hzero, if_pos (.inl (List.eq_nil_of_length_eq_zero (hlength.trans hzero)))]
    rfl
  · have hne : data.drop pos ≠ [] := by
      rw [← List.length_pos_iff]
      omega
    rw [if_neg hzero]
    by_cases hend : scope = .nested ∧ (data.drop pos).all (· = 0)
    · rw [if_pos hend, if_pos (.inr hend)]
      rfl
    · rw [if_neg hend, if_neg (not_or.2 ⟨hne, hend⟩)]
      rfl

/-- **A box is cut off without a fault**, whatever size it declares. -/
theorem nextBox_eq (hpos : pos ≤ data.length) (hbase : base + data.length < 2 ^ 64) :
    nextBox scope base data pos =
      of ((Frame.next? scope (base + pos) (data.drop pos)).map (behind pos)) := by
  have hlength : (data.drop pos).length = data.length - pos := List.length_drop
  by_cases hfew : data.length - pos < 8
  · exact nextBox_few hpos hfew
  · rw [nextBox, sub_eq hpos, pure_bind, slice_to_end hpos, pure_bind]
    have henough : 8 ≤ (data.drop pos).length := by omega
    obtain ⟨size, type, body, hsize, hbs⟩ := Frame.exists_header henough
    obtain ⟨h4, h5, h6, h7, hfirst, hwide⟩ := header_places hsize type body
    rw [if_neg (by omega), if_neg hfew, hbs, Frame.next?_header hsize, h4, pure_bind, h5, pure_bind,
      h6, pure_bind, h7, pure_bind, hfirst, pure_bind]
    have hcount : data.length - pos = 8 + body.length := by
      rw [← hlength, hbs]
      simp [hsize]
      omega
    have hbody : data.drop (pos + 8) = body := by
      rw [← List.drop_drop, hbs, ← List.append_assoc, List.drop_left' (by simp [hsize])]
    have hnarrow (n : Nat) : cutBox type base data pos (data.length - pos) n 8 =
        of ((Frame.cut type (base + pos) n 8 body).map (behind pos)) := by
      rw [← hbody]
      exact cutBox_eq type n (by omega) hbase
    -- The first four bytes tell which of the three forms of a size follows.
    generalize bigEndian size = n
    match n with
    | 0 =>
      cases scope with
      | nested => rfl
      | topLevel =>
        rw [hcount] at hnarrow ⊢
        exact hnarrow (8 + body.length)
    | 1 =>
      show (if _ then _ else _) = of (Except.map _ (if _ then _ else _))
      split
      · rw [if_pos (by rw [List.length_take]; omega)]
        rfl
      · rw [hwide (by omega), pure_bind, if_neg (by rw [List.length_take]; omega),
          cutBox_eq type _ (by omega) hbase, ← hbody, List.drop_drop]
    | n + 2 => exact hnarrow (n + 2)

/-! ### All boxes -/

theorem cutBox_forward {type : FourCc} {remaining size headerLength stop : Nat} {f : Frame}
    (h : cutBox type base data pos remaining size headerLength = pure (some (f, stop)))
    (hheader : 0 < headerLength) : pos < stop ∧ stop ≤ data.length := by
  unfold cutBox at h
  split at h
  · cases h
  · split at h
    · cases h
    · obtain ⟨stop', hstop, h⟩ := bind_eq_pure_iff.1 h
      obtain ⟨offset, -, h⟩ := bind_eq_pure_iff.1 h
      obtain ⟨start, -, h⟩ := bind_eq_pure_iff.1 h
      obtain ⟨payload, hslice, h⟩ := bind_eq_pure_iff.1 h
      cases h
      obtain ⟨-, rfl⟩ := add_eq_pure_iff.1 hstop
      obtain ⟨-, hle⟩ := slice_eq_pure hslice
      omega

/-- A box that was cut off leaves the place behind it further on, within the bytes. -/
theorem nextBox_forward {f : Frame} {stop : Nat}
    (h : nextBox scope base data pos = pure (some (f, stop))) :
    pos < stop ∧ stop ≤ data.length := by
  obtain ⟨remaining, -, h⟩ := bind_eq_pure_iff.1 h
  split at h
  · cases h
  · obtain ⟨bs, -, h⟩ := bind_eq_pure_iff.1 h
    split at h
    · split at h <;> cases h
    · obtain ⟨b0, -, h⟩ := bind_eq_pure_iff.1 h
      obtain ⟨b1, -, h⟩ := bind_eq_pure_iff.1 h
      obtain ⟨b2, -, h⟩ := bind_eq_pure_iff.1 h
      obtain ⟨b3, -, h⟩ := bind_eq_pure_iff.1 h
      obtain ⟨first, -, h⟩ := bind_eq_pure_iff.1 h
      split at h
      · split at h
        · cases h
        · exact cutBox_forward h (by decide)
      · split at h
        · cases h
        · obtain ⟨wide, -, h⟩ := bind_eq_pure_iff.1 h
          exact cutBox_forward h (by decide)
      · exact cutBox_forward h (by decide)

/-- The boxes from a place on, and the fault that ended them, if it was not the end of the bytes. -/
def boxesFrom (scope : Scope) (base : Nat) (data : List UInt8) (pos : Nat) :
    Machine (List Frame × Option Error) :=
  match _step : nextBox scope base data pos with
  | .error fault => halt fault
  | .ok (.error e) => return ([], some e)
  | .ok (.ok none) => return ([], none)
  | .ok (.ok (some (f, stop))) => do
    let (frames, fault) ← boxesFrom scope base data stop
    return (f :: frames, fault)
termination_by data.length - pos
decreasing_by
  have := nextBox_forward _step
  omega

/-- The boxes of a run of bytes. -/
def boxes (scope : Scope) (base : Nat) (data : List UInt8) : Machine (List Frame × Option Error) :=
  boxesFrom scope base data 0

theorem next?_rest {offset : Nat} {bs rest : List UInt8} {f : Frame}
    (h : Frame.next? scope offset bs = .ok (some (f, rest))) : rest = bs.drop f.size := by
  obtain ⟨b, rfl, -, -, rfl⟩ := Frame.next?_eq_some_iff.1 h
  exact (List.drop_left' b.length_bytes).symm

theorem all_eq (scope : Scope) (offset : Nat) (bs : List UInt8) :
    Frame.all scope offset bs =
      match Frame.next? scope offset bs with
      | .error e => ([], some e)
      | .ok none => ([], none)
      | .ok (some (f, rest)) =>
        (f :: (Frame.all scope (offset + f.size) rest).1,
          (Frame.all scope (offset + f.size) rest).2) := by
  rw [Frame.all]
  split <;> rename_i hnext <;> rw [hnext]

/-- **All boxes are cut off without a fault.** -/
theorem boxesFrom_eq (hpos : pos ≤ data.length) (hbase : base + data.length < 2 ^ 64) :
    boxesFrom scope base data pos = pure (Frame.all scope (base + pos) (data.drop pos)) := by
  fun_induction boxesFrom scope base data pos with
  | case1 pos fault hstep =>
    rw [nextBox_eq hpos hbase] at hstep
    cases hstep
  | case2 pos e hstep =>
    rw [nextBox_eq hpos hbase] at hstep
    cases hnext : Frame.next? scope (base + pos) (data.drop pos) with
    | error e' =>
      rw [hnext] at hstep
      cases hstep
      rw [all_eq, hnext]
    | ok x =>
      rw [hnext] at hstep
      cases hstep
  | case3 pos hstep =>
    rw [nextBox_eq hpos hbase] at hstep
    rcases hnext : Frame.next? scope (base + pos) (data.drop pos) with e | _ | x
    · rw [hnext] at hstep
      cases hstep
    · rw [all_eq, hnext]
    · rw [hnext] at hstep
      cases hstep
  | case4 pos f stop hstep ih =>
    obtain ⟨-, hstop⟩ := nextBox_forward hstep
    rw [nextBox_eq hpos hbase] at hstep
    rcases hnext : Frame.next? scope (base + pos) (data.drop pos) with e | _ | ⟨f', rest⟩
    · rw [hnext] at hstep
      cases hstep
    · rw [hnext] at hstep
      cases hstep
    · rw [hnext] at hstep
      cases hstep
      rw [ih hstop, all_eq scope (base + pos), hnext, next?_rest hnext, List.drop_drop,
        ← Nat.add_assoc]
      rfl

theorem boxes_eq (hbase : base + data.length < 2 ^ 64) :
    boxes scope base data = pure (Frame.all scope base data) :=
  boxesFrom_eq (Nat.zero_le _) hbase

theorem placed_of_mem {lo hi : Nat} {frames : List Frame} (h : Frame.Placed lo hi frames)
    {f : Frame} (hf : f ∈ frames) : lo ≤ f.offset ∧ f.Filled ∧ f.offset + f.size ≤ hi := by
  induction frames generalizing lo with
  | nil => cases hf
  | cons g frames ih =>
    obtain ⟨hstart, hfilled, hrest⟩ := h
    rcases List.mem_cons.1 hf with rfl | hf
    · exact ⟨hstart, hfilled, hrest.le⟩
    · obtain ⟨hlo, hf⟩ := ih hrest hf
      exact ⟨by omega, hf⟩

/-- What is inside a box is addressable as the bytes around it are. -/
theorem addressable_payload (hdata : Addressable data) {f : Frame}
    (hf : f ∈ (Frame.all scope base data).1) : Addressable f.payload := by
  obtain ⟨hlo, hfilled, hhi⟩ := placed_of_mem (Frame.placed_all scope base data) hf
  have hstart := hfilled.offset_lt
  have hend := hfilled.payload_end
  exact hdata.of_length_le (by omega)

end IsoMedia.Machine
