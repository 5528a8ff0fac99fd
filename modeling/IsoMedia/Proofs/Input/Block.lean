import IsoMedia.Input

/-!
# What a buffered input hands over

An `Input` is `Fresh` if what is left of its block, when anything is, are the bytes of the source
that come next.  A read that succeeds hands over what is left of the block and then the bytes behind
the place of the source (`Input.readExact_eq_ok`), which from a fresh input are the bytes at its
position (`Input.Fresh.readExact_eq_ok`).

Only a read that fails can leave an input that is not fresh, and only by making a block readable
again behind whose end the source has moved (`Input.readFrom_eq_error`).  A source that answers
every request (`Source.Obliging`) makes every read within its bytes succeed
(`Input.readFrom_of_obliging`).
-/

namespace IsoMedia

/-- Bytes beyond the end make no difference. -/
theorem extract_stop_congr {content : ByteArray} {first stop stop' : Nat}
    (h : min (stop - first) (content.size - first) = min (stop' - first) (content.size - first)) :
    content.extract first stop = content.extract first stop' := by
  apply ByteArray.ext
  rw [ByteArray.data_extract, ByteArray.data_extract]
  exact Array.extract_eq_extract_right.2 h

theorem extract_split (content : ByteArray) {a b c : Nat} (hab : a ≤ b) (hbc : b ≤ c) :
    content.extract a b ++ content.extract b c = content.extract a c := by
  rw [ByteArray.extract_append_extract, Nat.min_eq_left hab, Nat.max_eq_right hbc]

namespace Source

/-- The same source at another place or another time. -/
structure Same (s s' : Source) : Prop where
  content : s'.content = s.content
  onRead : s'.onRead = s.onRead
  onSeek : s'.onSeek = s.onSeek
  onTell : s'.onTell = s.onTell

theorem Same.refl (s : Source) : s.Same s := ⟨rfl, rfl, rfl, rfl⟩

theorem Same.trans {s s' s'' : Source} (h : s.Same s') (h' : s'.Same s'') : s.Same s'' :=
  ⟨h'.content.trans h.content, h'.onRead.trans h.onRead, h'.onSeek.trans h.onSeek,
    h'.onTell.trans h.onTell⟩

theorem same_later (s : Source) : s.Same s.later := ⟨rfl, rfl, rfl, rfl⟩

/-- A source that answers every request, and with at least one byte while there is one. -/
structure Obliging (s : Source) : Prop where
  reads : ∀ clock pos asked, 0 < asked → ∃ n, 0 < n ∧ s.onRead clock pos asked = .atMost n
  seeks : ∀ clock, s.onSeek clock = none
  tells : ∀ clock, s.onTell clock = none

theorem Obliging.of_same {s s' : Source} (h : s.Obliging) (hs : s.Same s') : s'.Obliging :=
  ⟨hs.onRead ▸ h.reads, hs.onSeek ▸ h.seeks, hs.onTell ▸ h.tells⟩

theorem obliging_ofBytes (content : ByteArray) : (ofBytes content).Obliging :=
  ⟨fun _ _ asked h => ⟨asked, h, rfl⟩, fun _ => rfl, fun _ => rfl⟩

theorem Obliging.onTell_ne {s : Source} (h : s.Obliging) (clock : Nat) (reason : String) :
    s.onTell clock ≠ some reason := by
  rw [h.tells]
  exact nofun

/-- The place is told or not, and nothing else comes of it. -/
theorem tell_cases (s : Source) :
    s.tell = (.ok s.pos, s.later) ∨ ∃ reason, s.onTell s.clock = some reason ∧
      s.tell = (.error (.io reason), s.later) := by
  unfold tell
  cases s.onTell s.clock with
  | none => exact .inl rfl
  | some reason => exact .inr ⟨reason, rfl, rfl⟩

theorem read_eq_ok {s s' : Source} {asked : Nat} {piece : ByteArray}
    (h : s.read asked = (.ok piece, s')) :
    s.Same s' ∧ piece = s.content.extract s.pos s'.pos := by
  unfold read at h
  split at h
  · simp at h
  · rename_i count _
    simp only [Prod.mk.injEq, Except.ok.injEq] at h
    obtain ⟨hpiece, rfl⟩ := h
    refine ⟨⟨rfl, rfl, rfl, rfl⟩, ?_⟩
    have hsize : piece.size = min (s.pos + min asked count) s.content.size - s.pos := by
      rw [← hpiece, slice, ByteArray.size_extract]
      omega
    rw [show s.slice s.pos (s.pos + min asked count) = piece from hpiece]
    have hstop : s.content.extract s.pos (min (s.pos + min asked count) s.content.size) =
        s.content.extract s.pos (s.pos + piece.size) := extract_stop_congr (by omega)
    exact hpiece.symm.trans hstop

/-- What is handed over stands before what lies behind it. -/
theorem append_of_read_eq_ok {s s' : Source} {asked wanted : Nat} {piece : ByteArray}
    (h : s.read asked = (.ok piece, s')) (hle : piece.size ≤ wanted) :
    piece ++ s'.content.extract s'.pos (s'.pos + (wanted - piece.size)) =
      s.content.extract s.pos (s.pos + wanted) := by
  obtain ⟨hsame, hbytes⟩ := read_eq_ok h
  obtain ⟨-, hpos, -, -⟩ := read_of_ok h
  have hstop : s'.pos + (wanted - piece.size) = s.pos + wanted := by omega
  rw [hstop, hsame.content, hbytes]
  exact extract_split _ (by omega) (by omega)

theorem read_eq_error {s s' : Source} {asked : Nat} {e : Error}
    (h : s.read asked = (.error e, s')) : s.Same s' ∧ s'.pos = s.pos := by
  unfold read at h
  split at h
  · simp only [Prod.mk.injEq] at h
    obtain ⟨-, rfl⟩ := h
    exact ⟨same_later s, rfl⟩
  · simp at h

theorem read_error_io {s s' : Source} {asked : Nat} {e : Error}
    (h : s.read asked = (.error e, s')) : ∃ reason, e = .io reason := by
  unfold read at h
  split at h
  · rename_i reason _
    simp only [Prod.mk.injEq, Except.error.injEq] at h
    exact ⟨reason, h.1.symm⟩
  · simp at h

theorem seek_same (s : Source) (target : Target) : s.Same (s.seek target).2 := by
  unfold seek
  split
  · exact same_later s
  · dsimp only
    split <;> exact ⟨rfl, rfl, rfl, rfl⟩

theorem seek_start_eq_ok {s s' : Source} {place n : Nat}
    (h : s.seek (.start place) = (.ok n, s')) : s'.pos = place := by
  unfold seek at h
  split at h
  · simp at h
  · dsimp only at h
    split at h
    · simp only [Prod.mk.injEq, Except.ok.injEq] at h
      obtain ⟨-, rfl⟩ := h
      exact Int.toNat_natCast place
    · simp at h

theorem Obliging.read_ne_error {s s' : Source} (h : s.Obliging) {asked : Nat} (ha : 0 < asked)
    {e : Error} : s.read asked ≠ (.error e, s') := by
  obtain ⟨n, -, hanswer⟩ := h.reads s.clock s.pos asked ha
  unfold Source.read
  rw [hanswer]
  exact nofun

/-- An obliging source hands over nothing only at its end. -/
theorem Obliging.size_le_pos {s s' : Source} (h : s.Obliging) {asked : Nat} (ha : 0 < asked)
    {piece : ByteArray} (hread : s.read asked = (.ok piece, s')) (hpiece : piece.size = 0) :
    s.content.size ≤ s.pos := by
  obtain ⟨n, hn, hanswer⟩ := h.reads s.clock s.pos asked ha
  unfold Source.read at hread
  rw [hanswer] at hread
  obtain ⟨hslice, -⟩ := Prod.mk.inj hread
  obtain rfl := Except.ok.inj hslice
  simp only [slice, ByteArray.size_extract] at hpiece
  omega

theorem Obliging.seek_start {s : Source} (h : s.Obliging) (place : Nat)
    (hp : (place : Int) < placeBound) :
    ∃ s', s.seek (.start place) = (.ok place, s') := by
  have haim : 0 ≤ s.aim (.start place) ∧ s.aim (.start place) < placeBound :=
    ⟨Int.natCast_nonneg place, hp⟩
  unfold Source.seek
  rw [h.seeks]
  dsimp only
  rw [if_pos haim]
  exact ⟨_, rfl⟩

end Source

namespace Input

/-- No more was taken from the block than it holds, and the source has come as far as the block is
long. -/
structure InRange (i : Input) : Prop where
  taken_le : i.taken ≤ i.block.size
  block_le : i.block.size ≤ i.source.pos

/-- The block holds the bytes right before the place of the source. -/
def Anchored (i : Input) : Prop :=
  i.block = i.source.content.extract (i.source.pos - i.block.size) i.source.pos

/-- What is left of the block, if anything, are the bytes that come next. -/
structure Fresh (i : Input) : Prop extends i.InRange where
  anchored : 0 < i.ahead → i.Anchored

theorem fresh_of_empty {source : Source} : Fresh ⟨source, .empty, 0⟩ :=
  ⟨⟨Nat.le_refl _, Nat.zero_le _⟩, fun h => absurd h (by simp [ahead])⟩

theorem InRange.fresh_of_empty {i : Input} (h : i.InRange) (hblock : i.block = .empty) :
    i.Fresh :=
  ⟨h, fun ha => absurd ha (by simp [ahead, hblock])⟩

theorem InRange.ahead_le {i : Input} (h : i.InRange) : i.ahead ≤ i.source.pos := by
  have := h.block_le
  unfold ahead
  omega

theorem InRange.position_add_ahead {i : Input} (h : i.InRange) :
    i.position + i.ahead = i.source.pos := by
  have := h.ahead_le
  unfold position
  omega

theorem position_of_used_up {i : Input} (hzero : i.ahead = 0) : i.position = i.source.pos := by
  unfold position
  omega

/-- What is left of the block of a fresh input lies at its position. -/
theorem Fresh.unread {i : Input} (h : i.Fresh) {n : Nat} (hn : n ≤ i.ahead) :
    i.block.extract i.taken (i.taken + n) =
      i.source.content.extract i.position (i.position + n) := by
  by_cases ha : 0 < i.ahead
  · have hb := h.anchored ha
    have htaken := h.taken_le
    have hblock := h.block_le
    unfold Anchored at hb
    have hplace : i.source.pos - i.block.size + i.taken = i.position := by
      unfold position ahead
      omega
    rw [hb, ByteArray.extract_extract, hplace]
    congr 1
    unfold ahead at hn
    omega
  · rw [show n = 0 by omega]
    simp

/-! ### Steps of a read -/

theorem InRange.take {i : Input} (hi : i.InRange) {n : Nat} (hn : n ≤ i.ahead) :
    InRange { i with taken := i.taken + n } ∧
      ahead { i with taken := i.taken + n } = i.ahead - n ∧
      position { i with taken := i.taken + n } = i.position + n := by
  have htaken := hi.taken_le
  have hplace := hi.ahead_le
  unfold position ahead at *
  refine ⟨⟨?_, hi.block_le⟩, ?_, ?_⟩ <;> dsimp only <;> omega

theorem InRange.move {i : Input} (hi : i.InRange) {source : Source} {n : Nat}
    (h : source.pos = i.source.pos + n) : InRange { i with source } :=
  ⟨hi.taken_le, by have := hi.block_le; dsimp only; omega⟩

theorem position_move {i : Input} (hzero : i.ahead = 0) {source : Source} {n : Nat}
    (h : source.pos = i.source.pos + n) : position { i with source } = i.position + n := by
  rw [position_of_used_up hzero, ← h]
  exact position_of_used_up hzero

/-- A new block is all of what comes next. -/
theorem fill_spec {i : Input} (hzero : i.ahead = 0) {source : Source} {asked : Nat}
    {piece : ByteArray} (h : i.source.read asked = (.ok piece, source)) :
    Anchored ⟨source, piece, 0⟩ ∧ Fresh ⟨source, piece, 0⟩ ∧
      position ⟨source, piece, 0⟩ = i.position := by
  obtain ⟨hsource, hbytes⟩ := Source.read_eq_ok h
  obtain ⟨-, hpos, -, -⟩ := Source.read_of_ok h
  have hanchored : Anchored ⟨source, piece, 0⟩ := by
    unfold Anchored
    dsimp only
    rw [hsource.content, show source.pos - piece.size = i.source.pos by omega]
    exact hbytes
  refine ⟨hanchored, ⟨⟨Nat.zero_le _, by dsimp only; omega⟩, fun _ => hanchored⟩, ?_⟩
  unfold position
  rw [hzero]
  unfold ahead
  dsimp only
  omega

/-! ### Reads that succeed -/

/-- A read that succeeds hands over what is left of the block, as far as it is wanted, and then the
bytes behind the place of the source. -/
theorem readFrom_eq_ok {wanted : Nat} {got data : ByteArray} {i i' : Input} (hi : i.InRange)
    (h : readFrom wanted got i = (.ok data, i')) :
    i.source.Same i'.source ∧ i'.InRange ∧ i'.position = i.position + wanted ∧
      data = got ++ (i.block.extract i.taken (i.taken + min i.ahead wanted) ++
        i.source.content.extract i.source.pos (i.source.pos + (wanted - i.ahead))) ∧
      (i.ahead < wanted → i'.position ≤ i.source.content.size) ∧
      (i.ahead ≤ wanted ∨ i.Fresh → i'.Fresh) := by
  fun_induction readFrom wanted got i with
  | case1 got i =>
    cases h
    refine ⟨.refl _, hi, rfl, by simp, fun h => absurd h (Nat.not_lt_zero _), ?_⟩
    rintro (h | h)
    · exact ⟨hi, fun h' => by omega⟩
    · exact h
  | case2 wanted got i hw ha n ih =>
    -- Some of the block is taken, and what the rest of the read takes follows it there.
    have hn : n = min i.ahead wanted := rfl
    obtain ⟨hrange, hahead, hposition⟩ := hi.take (n := n) (Nat.min_le_left _ _)
    obtain ⟨hsame, hi', hplace, hdata, hend, hfresh⟩ := ih hrange h
    rw [hahead] at hdata hend hfresh
    refine ⟨hsame, hi', by omega, ?_, fun h => hend (by omega), ?_⟩
    · rw [hdata, ← hn, show min (i.ahead - n) (wanted - n) = 0 by omega, Nat.add_zero,
        ByteArray.extract_same, ByteArray.empty_append, ByteArray.append_assoc]
      rw [show wanted - n - (i.ahead - n) = wanted - i.ahead by omega]
    · rintro (h | h)
      · exact hfresh (.inl (by omega))
      · refine hfresh (.inr ⟨hrange, fun _ => ?_⟩)
        exact h.anchored ha
  | case3 => cases h
  | case4 => cases h
  | case5 wanted got i hw ha hbig piece source hread hpiece ih =>
    -- The block is used up, and a large piece comes straight from the source.
    obtain ⟨hsource, -⟩ := Source.read_eq_ok hread
    obtain ⟨-, hpos, hle, hin⟩ := Source.read_of_ok hread
    have hzero : i.ahead = 0 := by omega
    obtain ⟨hsame, hi', hplace, hdata, hend, hfresh⟩ := ih (hi.move hpos) h
    have hahead : ahead { i with source } = 0 := hzero
    have hposition := position_move hzero hpos
    rw [hahead] at hdata hend hfresh
    refine ⟨hsource.trans hsame, hi', by omega, ?_, fun _ => ?_, fun _ => hfresh (.inl (by omega))⟩
    · rw [hdata, hzero, Nat.zero_min, Nat.zero_min, Nat.add_zero, ByteArray.extract_same,
        ByteArray.empty_append, ByteArray.append_assoc]
      exact congrArg (got ++ ·) (Source.append_of_read_eq_ok hread hle)
    · by_cases hmore : wanted - piece.size = 0
      · have := hin hpiece
        have := position_of_used_up hzero
        omega
      · have := hend (by omega)
        rwa [hsource.content] at this
  | case6 => cases h
  | case7 => cases h
  | case8 wanted got i hw ha hsmall piece source hread hpiece ih =>
    -- The rest comes from a new block, which is fresh whatever the old one was.
    obtain ⟨hsource, -⟩ := Source.read_eq_ok hread
    obtain ⟨-, hpos, hle, hin⟩ := Source.read_of_ok hread
    have hzero : i.ahead = 0 := by omega
    obtain ⟨-, hnew, hposition⟩ := fill_spec hzero hread
    obtain ⟨hsame, hi', hplace, hdata, hend, hfresh⟩ := ih hnew.toInRange h
    have hahead : ahead ⟨source, piece, 0⟩ = piece.size := rfl
    rw [hahead] at hdata hend
    refine ⟨hsource.trans hsame, hi', by omega, ?_, fun _ => ?_, fun _ => hfresh (.inr hnew)⟩
    · rw [hdata, hzero, Nat.zero_min, Nat.add_zero, ByteArray.extract_same, ByteArray.empty_append,
        Nat.sub_zero]
      by_cases hfill : wanted ≤ piece.size
      · have hunread := hnew.unread hfill
        rw [hposition, position_of_used_up hzero] at hunread
        rw [Nat.min_eq_right hfill, hunread, Nat.sub_eq_zero_of_le hfill, Nat.add_zero,
          ByteArray.extract_same, ByteArray.append_empty]
        dsimp only
        rw [hsource.content]
      · rw [Nat.min_eq_left (by omega), Nat.zero_add, ByteArray.extract_zero_size]
        exact congrArg (got ++ ·) (Source.append_of_read_eq_ok hread (Nat.le_of_not_le hfill))
    · by_cases hmore : wanted ≤ piece.size
      · have := hin hpiece
        have := position_of_used_up hzero
        omega
      · have := hend (by omega)
        rwa [hsource.content] at this

theorem readExact_eq_ok {wanted : Nat} {data : ByteArray} {i i' : Input} (hi : i.InRange)
    (h : i.readExact wanted = (.ok data, i')) :
    i.source.Same i'.source ∧ i'.InRange ∧
      data = i.block.extract i.taken (i.taken + min i.ahead wanted) ++
        i.source.content.extract i.source.pos (i.source.pos + (wanted - i.ahead)) ∧
      (i.ahead ≤ wanted ∨ i.Fresh → i'.Fresh) := by
  obtain ⟨hsame, hi', -, hdata, -, hfresh⟩ := readFrom_eq_ok hi h
  rw [ByteArray.empty_append] at hdata
  exact ⟨hsame, hi', hdata, hfresh⟩

/-- Whether a read hands over the bytes at the position of the input is decided by the block. -/
theorem readExact_eq_iff {wanted : Nat} {data : ByteArray} {i i' : Input} (hi : i.InRange)
    (h : i.readExact wanted = (.ok data, i')) :
    data = i.source.content.extract i.position (i.position + wanted) ↔
      i.block.extract i.taken (i.taken + min i.ahead wanted) =
        i.source.content.extract i.position (i.position + min i.ahead wanted) := by
  obtain ⟨-, -, rfl, -⟩ := readExact_eq_ok hi h
  have hplace := hi.position_add_ahead
  have hsplit : i.source.content.extract i.position (i.position + wanted) =
      i.source.content.extract i.position (i.position + min i.ahead wanted) ++
        i.source.content.extract i.source.pos (i.source.pos + (wanted - i.ahead)) := by
    by_cases hw : wanted ≤ i.ahead
    · rw [Nat.min_eq_right hw, Nat.sub_eq_zero_of_le hw, Nat.add_zero, ByteArray.extract_same,
        ByteArray.append_empty]
    · rw [Nat.min_eq_left (by omega), hplace, extract_split _ (by omega) (by omega)]
      congr 1
      omega
  rw [hsplit]
  exact ByteArray.append_left_inj _

/-- What a fresh input hands over are the bytes at its position. -/
theorem Fresh.readExact_eq_ok {wanted : Nat} {data : ByteArray} {i i' : Input} (hi : i.Fresh)
    (h : i.readExact wanted = (.ok data, i')) :
    i.source.Same i'.source ∧ i'.Fresh ∧
      data = i.source.content.extract i.position (i.position + wanted) := by
  obtain ⟨hsame, -, -, hfresh⟩ := Input.readExact_eq_ok hi.toInRange h
  exact ⟨hsame, hfresh (.inr hi),
    (readExact_eq_iff hi.toInRange h).2 (hi.unread (Nat.min_le_left _ _))⟩

/-! ### Reads that fail -/

/-- A request for a new block was refused, and the block from before the read became readable again
although it may not lie right before the place of the source. -/
structure Rewound (wanted : Nat) (e : Error) (i i' : Input) : Prop where
  block : i'.block = i.block
  taken : i'.taken = 0
  short : i'.source.pos < i.position + wanted
  /-- The source can only have moved on in a request that left the block aside. -/
  large : i.Anchored → blockSize ≤ wanted
  refused : ∃ reason, e = .io reason

/-- A read that fails leaves a fresh input or one that was rewound. -/
theorem readFrom_eq_error {wanted : Nat} {got : ByteArray} {e : Error} {i i' : Input}
    (hi : i.InRange) (h : readFrom wanted got i = (.error e, i')) :
    i.source.Same i'.source ∧ i'.InRange ∧ (i'.Fresh ∨ Rewound wanted e i i') := by
  fun_induction readFrom wanted got i with
  | case1 => cases h
  | case2 wanted got i hw ha n ih =>
    obtain ⟨hrange, -, hposition⟩ := hi.take (n := n) (Nat.min_le_left _ _)
    obtain ⟨hsame, hi', hleft⟩ := ih hrange h
    refine ⟨hsame, hi', hleft.imp_right fun hr => ?_⟩
    have hshort := hr.short
    exact ⟨hr.block, hr.taken, by omega, fun ha => by have := hr.large ha; omega, hr.refused⟩
  | case3 wanted got i hw ha hbig e' source hread =>
    obtain ⟨hsource, hpos⟩ := Source.read_eq_error hread
    cases h
    have hrange : InRange { i with source } := hi.move (n := 0) hpos
    exact ⟨hsource, hrange, .inl ⟨hrange, fun h => absurd h ha⟩⟩
  | case4 wanted got i hw ha hbig piece source hread hpiece =>
    obtain ⟨hsource, -⟩ := Source.read_eq_ok hread
    obtain ⟨-, hpos, -⟩ := Source.read_of_ok hread
    cases h
    have hrange : InRange { i with source } := hi.move hpos
    exact ⟨hsource, hrange, .inl ⟨hrange, fun h => absurd h ha⟩⟩
  | case5 wanted got i hw ha hbig piece source hread hpiece ih =>
    obtain ⟨hsource, -⟩ := Source.read_eq_ok hread
    obtain ⟨-, hpos, hle, -⟩ := Source.read_of_ok hread
    have hposition := position_move (by omega) hpos
    obtain ⟨hsame, hi', hleft⟩ := ih (hi.move hpos) h
    refine ⟨hsource.trans hsame, hi', hleft.imp_right fun hr => ?_⟩
    have hshort := hr.short
    exact ⟨hr.block, hr.taken, by omega, fun _ => hbig, hr.refused⟩
  | case6 wanted got i hw ha hsmall e' source hread =>
    obtain ⟨hsource, hpos⟩ := Source.read_eq_error hread
    obtain ⟨reason, rfl⟩ := Source.read_error_io hread
    cases h
    have hrange : InRange ⟨source, i.block, 0⟩ := ⟨Nat.zero_le _, hpos ▸ hi.block_le⟩
    -- The old block is readable again, but the source may have moved on since it was filled.
    refine ⟨hsource, hrange, ?_⟩
    by_cases hblock : i.Anchored
    · refine .inl ⟨hrange, fun _ => ?_⟩
      unfold Anchored at *
      dsimp only
      rw [hpos, hsource.content]
      exact hblock
    · refine .inr ⟨rfl, rfl, ?_, fun h => absurd h hblock, reason, rfl⟩
      unfold position
      dsimp only
      omega
  | case7 wanted got i hw ha hsmall piece source hread hpiece =>
    obtain ⟨hsource, -⟩ := Source.read_eq_ok hread
    obtain ⟨-, hnew, -⟩ := fill_spec (by omega) hread
    cases h
    exact ⟨hsource, hnew.toInRange, .inl hnew⟩
  | case8 wanted got i hw ha hsmall piece source hread hpiece ih =>
    obtain ⟨hsource, -⟩ := Source.read_eq_ok hread
    obtain ⟨hblock, hnew, -⟩ := fill_spec (by omega) hread
    obtain ⟨hsame, hi', hleft⟩ := ih hnew.toInRange h
    -- The wanted rest is small, so the source cannot have left the new block behind.
    refine ⟨hsource.trans hsame, hi', .inl (hleft.resolve_right fun hr => ?_)⟩
    exact hsmall (hr.large hblock)

/-! ### Sources that answer every request -/

/-- Within its bytes a source that answers every request makes every read succeed. -/
theorem readFrom_of_obliging (wanted : Nat) (got : ByteArray) {i : Input} (hi : i.InRange)
    (ho : i.source.Obliging)
    (hroom : i.ahead < wanted → i.source.pos + (wanted - i.ahead) ≤ i.source.content.size) :
    ∃ data i', readFrom wanted got i = (.ok data, i') := by
  fun_induction readFrom wanted got i with
  | case1 got i => exact ⟨got, i, rfl⟩
  | case2 wanted got i hw ha n ih =>
    obtain ⟨hrange, hahead, -⟩ := hi.take (n := n) (Nat.min_le_left _ _)
    refine ih hrange ho ?_
    have hn : n = min i.ahead wanted := rfl
    dsimp only at *
    omega
  | case3 wanted got i hw ha hbig e source hread =>
    exact absurd hread (ho.read_ne_error (Nat.pos_of_ne_zero hw))
  | case4 wanted got i hw ha hbig piece source hread hpiece =>
    have hend := ho.size_le_pos (Nat.pos_of_ne_zero hw) hread hpiece
    omega
  | case5 wanted got i hw ha hbig piece source hread hpiece ih =>
    obtain ⟨hsource, -⟩ := Source.read_eq_ok hread
    obtain ⟨-, hpos, hle, -⟩ := Source.read_of_ok hread
    refine ih (hi.move hpos) (ho.of_same hsource) ?_
    have hahead : ahead { i with source } = i.ahead := rfl
    rw [hahead]
    dsimp only
    rw [hsource.content]
    omega
  | case6 wanted got i hw ha hsmall e source hread =>
    exact absurd hread (ho.read_ne_error (show 0 < blockSize by decide))
  | case7 wanted got i hw ha hsmall piece source hread hpiece =>
    have hend := ho.size_le_pos (show 0 < blockSize by decide) hread hpiece
    omega
  | case8 wanted got i hw ha hsmall piece source hread hpiece ih =>
    obtain ⟨hsource, -⟩ := Source.read_eq_ok hread
    obtain ⟨-, hpos, -, hin⟩ := Source.read_of_ok hread
    obtain ⟨-, hnew, -⟩ := fill_spec (by omega) hread
    refine ih hnew.toInRange (ho.of_same hsource) ?_
    have hahead : ahead ⟨source, piece, 0⟩ = piece.size := rfl
    have := hin hpiece
    rw [hahead]
    dsimp only
    rw [hsource.content]
    omega

theorem readExact_of_obliging (wanted : Nat) {i : Input} (hi : i.Fresh) (ho : i.source.Obliging)
    (hroom : i.position + wanted ≤ i.source.content.size) :
    ∃ i', i.readExact wanted =
        (.ok (i.source.content.extract i.position (i.position + wanted)), i') ∧
      i'.Fresh ∧ i.source.Same i'.source := by
  have hplace := hi.toInRange.position_add_ahead
  obtain ⟨data, i', hread⟩ := readFrom_of_obliging wanted .empty hi.toInRange ho (by omega)
  obtain ⟨hsame, hfresh, rfl⟩ := hi.readExact_eq_ok hread
  exact ⟨i', hread, hfresh, hsame⟩

/-! ### Going to a place -/

/-- The same input after its source was asked for nothing but its place. -/
def later (i : Input) : Input := { i with source := i.source.later }

@[simp] theorem position_later (i : Input) : i.later.position = i.position := rfl

@[simp] theorem ahead_later (i : Input) : i.later.ahead = i.ahead := rfl

theorem InRange.later {i : Input} (h : i.InRange) : i.later.InRange := ⟨h.taken_le, h.block_le⟩

theorem Fresh.later {i : Input} (h : i.Fresh) : i.later.Fresh := ⟨h.toInRange.later, h.anchored⟩

theorem tell_cases (i : Input) :
    i.tell = (.ok i.position, i.later) ∨ ∃ reason, i.source.onTell i.source.clock = some reason ∧
      i.tell = (.error (.io reason), i.later) := by
  unfold tell
  rcases i.source.tell_cases with htell | ⟨reason, hrefused, htell⟩
  · rw [htell]
    exact .inl rfl
  · rw [htell]
    exact .inr ⟨reason, hrefused, rfl⟩

theorem tell_of_obliging {i : Input} (h : i.source.Obliging) :
    i.tell = (.ok i.position, i.later) := by
  refine i.tell_cases.resolve_right ?_
  rintro ⟨reason, hrefused, -⟩
  exact h.onTell_ne _ reason hrefused

/-- The source does not tell where it is, or the input is at the place already, or it goes there. -/
theorem seekTo_cases (i : Input) (place : Nat) :
    (∃ reason, i.source.onTell i.source.clock = some reason ∧
      i.seekTo place = (.error (.io reason), i.later)) ∨
    (i.position = place ∧ i.seekTo place = (.ok false, i.later)) ∨
    (i.position ≠ place ∧ ∃ found source, i.source.later.seek (.start place) = (found, source) ∧
      i.seekTo place = (found.map fun _ => true, ⟨source, .empty, 0⟩)) := by
  unfold seekTo
  rcases i.tell_cases with htell | ⟨reason, hrefused, htell⟩
  · rw [htell]
    by_cases hplace : i.position = place
    · exact .inr (.inl ⟨hplace, if_pos hplace⟩)
    · exact .inr (.inr ⟨hplace, _, _, rfl, if_neg hplace⟩)
  · rw [htell]
    exact .inl ⟨reason, hrefused, rfl⟩

/-- Either the input stays where it is, because it is at the place already or its source does not tell
where it is, or the block is given up. -/
theorem seekTo_spec {i i' : Input} {place : Nat} {outcome : Except Error Bool}
    (h : i.seekTo place = (outcome, i')) :
    (∃ reason, i.source.onTell i.source.clock = some reason ∧ outcome = .error (.io reason) ∧
        i' = i.later) ∨
      (i.position = place ∧ outcome = .ok false ∧ i' = i.later) ∨
      (i.position ≠ place ∧ i.source.Same i'.source ∧ i'.InRange ∧ i'.block = .empty ∧
        (i.source.Obliging → (place : Int) < Source.placeBound → outcome = .ok true) ∧
        ∀ asked, outcome = .ok asked → i'.position = place) := by
  rcases i.seekTo_cases place with
    ⟨reason, hrefused, hseek⟩ | ⟨hplace, hseek⟩ | ⟨hplace, found, source, hgone, hseek⟩
  · cases h.symm.trans hseek
    exact .inl ⟨reason, hrefused, rfl, rfl⟩
  · cases h.symm.trans hseek
    exact .inr (.inl ⟨hplace, rfl, rfl⟩)
  · cases h.symm.trans hseek
    have hlater := i.source.same_later
    have hsame := hlater.trans (i.source.later.seek_same (.start place))
    rw [hgone] at hsame
    refine .inr (.inr ⟨hplace, hsame, fresh_of_empty.toInRange, rfl, fun ho hbound => ?_, ?_⟩)
    · obtain ⟨source', hthere⟩ := (ho.of_same hlater).seek_start place hbound
      cases hgone.symm.trans hthere
      rfl
    · intro asked hok
      cases found with
      | error e => cases hok
      | ok n => exact Source.seek_start_eq_ok hgone

/-! ### Reading everything -/

theorem drain_same (source : Source) (got : ByteArray) :
    source.Same (drain source got).2 := by
  fun_induction drain source got with
  | case1 source got e source' hread => exact (Source.read_eq_error hread).1
  | case2 source got piece source' hread => exact (Source.read_eq_ok hread).1
  | case3 source got piece source' hread hpiece ih => exact (Source.read_eq_ok hread).1.trans ih

theorem drain_of_obliging {source : Source} (ho : source.Obliging) {got : ByteArray}
    (hp : source.pos ≤ source.content.size) :
    (drain source got).1 = .ok (got ++ source.content.extract source.pos source.content.size) := by
  fun_induction drain source got with
  | case1 source got e source' hread =>
    exact absurd hread (ho.read_ne_error (show 0 < blockSize by decide))
  | case2 source got piece source' hread hpiece =>
    have hend := Nat.le_antisymm hp (ho.size_le_pos (show 0 < blockSize by decide) hread hpiece)
    rw [hend, ByteArray.extract_same, ByteArray.append_empty]
  | case3 source got piece source' hread hpiece ih =>
    obtain ⟨hsource, hbytes⟩ := Source.read_eq_ok hread
    obtain ⟨-, hpos, -, hin⟩ := Source.read_of_ok hread
    have hle := hin hpiece
    rw [ih (ho.of_same hsource) (by rw [hsource.content]; exact hle), hsource.content, hbytes,
      ByteArray.append_assoc, extract_split _ (by omega) hle]

/-- After everything was read, or the reading failed, no block is at hand. -/
theorem readAll_spec {i i' : Input} {outcome : Except Error ByteArray}
    (h : i.readAll = (outcome, i')) : i.source.Same i'.source ∧ i'.Fresh := by
  have hsame := i.source.seek_same (.start 0)
  unfold readAll seek at h
  cases hseek : i.source.seek (.start 0) with
  | mk place source =>
    rw [hseek] at h hsame
    cases place <;> cases h
    · exact ⟨hsame, fresh_of_empty⟩
    · exact ⟨hsame.trans (drain_same _ _), fresh_of_empty⟩

/-- A source that answers every request is read completely. -/
theorem readAll_of_obliging {i : Input} (ho : i.source.Obliging) :
    i.readAll.1 = .ok i.source.content := by
  obtain ⟨source, hseek⟩ := ho.seek_start 0 (by decide)
  have hsame := i.source.seek_same (.start 0)
  have hpos := Source.seek_start_eq_ok hseek
  rw [hseek] at hsame
  unfold readAll seek
  rw [hseek]
  dsimp only at *
  rw [drain_of_obliging (ho.of_same hsame) (by omega), hpos, hsame.content,
    ByteArray.extract_zero_size, ByteArray.empty_append]

end Input

end IsoMedia
