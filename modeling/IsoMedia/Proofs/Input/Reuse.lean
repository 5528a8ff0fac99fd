import IsoMedia.Input

/-!
# Reading into a buffer that is used again

A reading takes the same bytes from its input whether they are gathered in a new place or written
over whatever a buffer holds from before (`Input.readInto_eq`).
-/

namespace IsoMedia

/-- The buffer with a piece written over it from a place on. -/
def overwrite (buffer : ByteArray) (place : Nat) (piece : ByteArray) : ByteArray :=
  buffer.extract 0 place ++ piece ++ buffer.extract (place + piece.size) buffer.size

theorem overwrite_append (got old piece : ByteArray) :
    overwrite (got ++ old) got.size piece =
      (got ++ piece) ++ old.extract piece.size old.size := by
  rw [overwrite, ByteArray.extract_append_eq_left rfl, ByteArray.extract_append,
    ByteArray.size_append, Nat.add_sub_cancel_left, Nat.add_sub_cancel_left,
    ByteArray.extract_eq_empty_iff.2 (by omega), ByteArray.empty_append]

namespace Input

/-- Take bytes until none is wanted any more, and write them over a buffer behind those already
taken. -/
def readInto (wanted : Nat) (buffer : ByteArray) (taken : Nat) (i : Input) :
    Except Error Unit × ByteArray × Input :=
  if wanted = 0 then (.ok (), buffer, i)
  else if 0 < i.ahead then
    let n := min i.ahead wanted
    readInto (wanted - n) (overwrite buffer taken (i.block.extract i.taken (i.taken + n)))
      (taken + n) { i with taken := i.taken + n }
  else if blockSize ≤ wanted then
    match i.source.read wanted with
    | (.error e, source) => (.error e, buffer, { i with source })
    | (.ok piece, source) =>
      if piece.size = 0 then (.error .endOfStream, buffer, { i with source })
      else
        readInto (wanted - piece.size) (overwrite buffer taken piece) (taken + piece.size)
          { i with source }
  else
    match i.source.read blockSize with
    | (.error e, source) => (.error e, buffer, { i with source, taken := 0 })
    | (.ok piece, source) =>
      if piece.size = 0 then (.error .endOfStream, buffer, ⟨source, piece, 0⟩)
      else readInto wanted buffer taken ⟨source, piece, 0⟩
termination_by (wanted, 1 - i.ahead)
decreasing_by
  · apply Prod.Lex.left
    omega
  · apply Prod.Lex.left
    omega
  · apply Prod.Lex.right
    simp only [ahead] at *
    omega

theorem size_of_readFrom {wanted : Nat} {got data : ByteArray} {i i' : Input}
    (h : readFrom wanted got i = (.ok data, i')) : data.size = got.size + wanted := by
  fun_induction readFrom wanted got i with
  | case1 got i =>
    cases h
    rfl
  | case2 wanted got i hw ha n ih =>
    have hn : n = min i.ahead wanted := rfl
    have hsize := ih h
    unfold ahead at hn ha
    rw [ByteArray.size_append, ByteArray.size_extract] at hsize
    omega
  | case3 => cases h
  | case4 => cases h
  | case5 wanted got i hw ha hbig piece source hread hpiece ih =>
    have hsize := ih h
    have hle := (Source.read_of_ok hread).2.2.1
    rw [ByteArray.size_append] at hsize
    omega
  | case6 => cases h
  | case7 => cases h
  | case8 wanted got i hw ha hsmall piece source hread hpiece ih => exact ih h

/-- **A reading does the same whatever the buffer held before.**  What it took stands at the front
of the buffer. -/
theorem readInto_eq (wanted : Nat) (got : ByteArray) (i : Input) (old : ByteArray) :
    ∃ buffer, readInto wanted (got ++ old) got.size i =
        ((readFrom wanted got i).1.map fun _ => (), buffer, (readFrom wanted got i).2) ∧
      ∀ data, (readFrom wanted got i).1 = .ok data → buffer.extract 0 data.size = data := by
  fun_induction readFrom wanted got i generalizing old with
  | case1 got i =>
    rw [readInto, if_pos rfl]
    refine ⟨_, rfl, fun data hdata => ?_⟩
    cases hdata
    exact ByteArray.extract_append_eq_left rfl
  | case2 wanted got i hw ha n ih =>
    have hsize : (i.block.extract i.taken (i.taken + n)).size = n := by
      have hn : n = min i.ahead wanted := rfl
      unfold ahead at hn ha
      rw [ByteArray.size_extract]
      omega
    have hwritten := overwrite_append got old (i.block.extract i.taken (i.taken + n))
    -- What was written over is no longer part of what the buffer holds from before.
    have hstep := ih (old.extract n old.size)
    rw [hsize] at hwritten
    rw [ByteArray.size_append, hsize, ← hwritten] at hstep
    rw [readInto, if_neg hw, if_pos ha]
    exact hstep
  | case3 wanted got i hw ha hbig e source hread =>
    rw [readInto, if_neg hw, if_neg ha, if_pos hbig, hread]
    exact ⟨_, rfl, nofun⟩
  | case4 wanted got i hw ha hbig piece source hread hpiece =>
    rw [readInto, if_neg hw, if_neg ha, if_pos hbig, hread]
    dsimp only
    rw [if_pos hpiece]
    exact ⟨_, rfl, nofun⟩
  | case5 wanted got i hw ha hbig piece source hread hpiece ih =>
    rw [readInto, if_neg hw, if_neg ha, if_pos hbig, hread]
    dsimp only
    rw [if_neg hpiece, overwrite_append, ← ByteArray.size_append]
    exact ih _
  | case6 wanted got i hw ha hsmall e source hread =>
    rw [readInto, if_neg hw, if_neg ha, if_neg hsmall, hread]
    exact ⟨_, rfl, nofun⟩
  | case7 wanted got i hw ha hsmall piece source hread hpiece =>
    rw [readInto, if_neg hw, if_neg ha, if_neg hsmall, hread]
    dsimp only
    rw [if_pos hpiece]
    exact ⟨_, rfl, nofun⟩
  | case8 wanted got i hw ha hsmall piece source hread hpiece ih =>
    rw [readInto, if_neg hw, if_neg ha, if_neg hsmall, hread]
    dsimp only
    rw [if_neg hpiece]
    exact ih old

end Input

end IsoMedia
