import IsoMedia.Proofs.Demuxer.Faults
import IsoMedia.Proofs.Demuxer.Reopening
import IsoMedia.Proofs.Machine.Word

/-!
# Reading an input on a machine

A source hands over bytes by slices of what it holds, and a reading copies them to slices of a buffer.
All places are words as long as the source can number its bytes (`Input.Measured`), whatever it is
asked for and however it answers.
-/

namespace IsoMedia

/-! ### Places that are words -/

/-- The bytes of a source and the place where it is can be numbered. -/
structure Source.Numbered (s : Source) : Prop where
  content_lt : s.content.size < 2 ^ 64
  pos_lt : s.pos < 2 ^ 64

theorem Source.Numbered.read {s s' : Source} {asked : Nat} {outcome : Except Error ByteArray}
    (hs : s.Numbered) (h : s.read asked = (outcome, s')) : s'.Numbered := by
  obtain ⟨hcontent, hpos⟩ := hs
  cases outcome with
  | error e =>
    obtain ⟨hsame, hstays⟩ := Source.read_eq_error h
    exact ⟨hsame.content ▸ hcontent, hstays ▸ hpos⟩
  | ok piece =>
    obtain ⟨hsame, hmoves, -, hinside⟩ := Source.read_of_ok h
    refine ⟨hsame ▸ hcontent, ?_⟩
    by_cases hpiece : piece.size = 0
    · omega
    · have := hinside hpiece
      omega

theorem Source.Numbered.seek {s : Source} (hs : s.Numbered) (target : Target) :
    (s.seek target).2.Numbered := by
  obtain ⟨hcontent, hpos⟩ := hs
  unfold Source.seek
  split
  · exact ⟨hcontent, hpos⟩
  · dsimp only
    split
    · rename_i hplace
      have hbound : placeBound = 2 ^ 64 := rfl
      exact ⟨hcontent, by dsimp only; omega⟩
    · exact ⟨hcontent, hpos⟩

namespace Input

/-- The block is within the source, whose places are words. -/
structure Measured (i : Input) : Prop extends i.InRange where
  numbered : i.source.Numbered

variable {i : Input} {source : Source} {asked : Nat}

theorem measured_of_empty (h : source.Numbered) : Measured ⟨source, .empty, 0⟩ :=
  ⟨fresh_of_empty.toInRange, h⟩

namespace Measured

theorem take (hi : i.Measured) {n : Nat} (hn : n ≤ i.ahead) :
    Measured { i with taken := i.taken + n } :=
  ⟨(hi.toInRange.take hn).1, hi.numbered⟩

/-- The block stays while the source hands over more, or refuses to. -/
theorem ask (hi : i.Measured) {outcome : Except Error ByteArray}
    (h : i.source.read asked = (outcome, source)) : Measured { i with source } := by
  refine ⟨?_, hi.numbered.read h⟩
  cases outcome with
  | error e => exact hi.toInRange.move (n := 0) (Source.read_eq_error h).2
  | ok piece => exact hi.toInRange.move (Source.read_of_ok h).2.1

theorem rewind (hi : i.Measured) : Measured { i with taken := 0 } :=
  ⟨⟨Nat.zero_le _, hi.block_le⟩, hi.numbered⟩

theorem fill (hi : i.Measured) {piece : ByteArray}
    (h : i.source.read asked = (.ok piece, source)) : Measured ⟨source, piece, 0⟩ := by
  obtain ⟨-, hpos, -⟩ := Source.read_of_ok h
  exact ⟨⟨Nat.zero_le _, by dsimp only; omega⟩, hi.numbered.read h⟩

theorem later (hi : i.Measured) : i.later.Measured :=
  ⟨hi.toInRange.later, ⟨hi.numbered.content_lt, hi.numbered.pos_lt⟩⟩

theorem seekTo (hi : i.Measured) (place : Nat) : (i.seekTo place).2.Measured := by
  rcases i.seekTo_cases place with
    ⟨reason, -, hseek⟩ | ⟨-, hseek⟩ | ⟨-, found, source, hgone, hseek⟩
  · rw [hseek]
    exact hi.later
  · rw [hseek]
    exact hi.later
  · have hnumbered := hi.later.numbered.seek (.start place)
    rw [show i.later.source.seek (.start place) = _ from hgone] at hnumbered
    rw [hseek]
    exact measured_of_empty hnumbered

theorem readInto (hi : i.Measured) (wanted : Nat) (buffer : ByteArray) (taken : Nat) :
    (Input.readInto wanted buffer taken i).2.2.Measured := by
  fun_induction Input.readInto wanted buffer taken i with
  | case1 => exact hi
  | case2 wanted buffer taken i hw ha n ih => exact ih (hi.take (Nat.min_le_left _ _))
  | case3 wanted buffer taken i hw ha hbig e source hread => exact hi.ask hread
  | case4 wanted buffer taken i hw ha hbig piece source hread => exact hi.ask hread
  | case5 wanted buffer taken i hw ha hbig piece source hread hpiece ih => exact ih (hi.ask hread)
  | case6 wanted buffer taken i hw ha hsmall e source hread => exact (hi.ask hread).rewind
  | case7 wanted buffer taken i hw ha hsmall piece source hread => exact hi.fill hread
  | case8 wanted buffer taken i hw ha hsmall piece source hread hpiece ih =>
    exact ih (hi.fill hread)

end Measured

/-- Not more comes of a source than what it has from its place on. -/
theorem size_of_drain {got content : ByteArray} (h : (drain source got).1 = .ok content) :
    content.size ≤ got.size + (source.content.size - source.pos) := by
  fun_induction drain source got with
  | case1 => cases h
  | case2 source got piece source' hread =>
    cases h
    exact Nat.le_add_right _ _
  | case3 source got piece source' hread hpiece ih =>
    obtain ⟨hcontent, hpos, -, hinside⟩ := Source.read_of_ok hread
    have := hinside hpiece
    have hsize := ih h
    rw [ByteArray.size_append, hcontent] at hsize
    omega

theorem numbered_drain (h : source.Numbered) (got : ByteArray) :
    (drain source got).2.Numbered := by
  fun_induction drain source got with
  | case1 source got e source' hread => exact h.read hread
  | case2 source got piece source' hread => exact h.read hread
  | case3 source got piece source' hread hpiece ih => exact ih (h.read hread)

/-- Everything is read from the start on. -/
theorem readAll_eq_ok {i' : Input} {content : ByteArray} (h : i.readAll = (.ok content, i')) :
    ∃ start last, i.source.Same start ∧ start.pos = 0 ∧ drain start .empty = (.ok content, last) ∧
      i' = ⟨last, .empty, 0⟩ := by
  have hsame := i.source.seek_same (.start 0)
  unfold readAll Input.seek at h
  rcases hseek : i.source.seek (.start 0) with ⟨e | n, start⟩
  · rw [hseek] at h
    cases h
  · rw [hseek] at h hsame
    dsimp only at h
    cases hdrain : drain start .empty with
    | mk outcome last =>
      rw [hdrain] at h
      cases h
      exact ⟨start, last, hsame, Source.seek_start_eq_ok hseek, hdrain, rfl⟩

theorem size_of_readAll {i' : Input} {content : ByteArray} (h : i.readAll = (.ok content, i')) :
    content.size ≤ i.source.content.size := by
  obtain ⟨start, last, hsame, -, hdrain, -⟩ := readAll_eq_ok h
  have hsize := size_of_drain (congrArg Prod.fst hdrain)
  rw [ByteArray.size_empty, hsame.content] at hsize
  omega

theorem measured_of_readAll {i' : Input} {content : ByteArray}
    (hi : i.source.content.size < 2 ^ 64) (h : i.readAll = (.ok content, i')) : i'.Measured := by
  obtain ⟨start, last, hsame, hstart, hdrain, rfl⟩ := readAll_eq_ok h
  have hnumbered : start.Numbered := ⟨hsame.content ▸ hi, by omega⟩
  have hlast := numbered_drain hnumbered .empty
  rw [hdrain] at hlast
  exact measured_of_empty hlast

end Input

namespace Machine

/-! ### Parts of buffers -/

/-- The bytes of a buffer from one place up to another. -/
def part (bytes : ByteArray) (first stop : Nat) : Machine ByteArray :=
  if first ≤ stop ∧ stop ≤ bytes.size then return bytes.extract first stop else halt .outOfRange

/-- What a buffer of the given size holds at its front after a piece was put there. -/
def front (size : Nat) (piece : ByteArray) : Machine ByteArray :=
  if piece.size ≤ size then return piece else halt .outOfRange

/-- The buffer with a piece written over its bytes from one place up to another, which are just as
many and lie within the first `size`. -/
def copy (size : Nat) (buffer : ByteArray) (first stop : Nat) (piece : ByteArray) :
    Machine ByteArray :=
  if first ≤ stop ∧ stop ≤ size ∧ piece.size = stop - first then return overwrite buffer first piece
  else halt .outOfRange

theorem part_eq {bytes : ByteArray} {first stop : Nat} (h : first ≤ stop)
    (hstop : stop ≤ bytes.size) : part bytes first stop = pure (bytes.extract first stop) :=
  if_pos ⟨h, hstop⟩

theorem front_eq {size : Nat} {piece : ByteArray} (h : piece.size ≤ size) :
    front size piece = pure piece := if_pos h

theorem copy_eq {size : Nat} {buffer : ByteArray} {first n : Nat} {piece : ByteArray}
    (h : first + n ≤ size) (hpiece : piece.size = n) :
    copy size buffer first (first + n) piece = pure (overwrite buffer first piece) :=
  if_pos ⟨Nat.le_add_right _ _, h, by omega⟩

/-! ### Asking a source -/

/-- Ask for at most so many bytes. -/
def request (s : Source) (asked : Nat) : Machine (Except Error ByteArray × Source) :=
  match s.onRead s.clock s.pos asked with
  | .fail reason => return (.error (.io reason), { s with clock := s.clock + 1 })
  | .atMost count => do
    -- Behind its end the source has nothing.
    let n := min (min asked count) (s.content.size - s.pos)
    if n = 0 then return (.ok .empty, { s with clock := s.clock + 1 })
    else
      let stop ← add 64 s.pos n
      let piece ← front asked (← part s.content s.pos stop)
      return (.ok piece, { s with clock := s.clock + 1, pos := stop })

theorem read_of_atMost {s : Source} {asked count n : Nat}
    (h : s.onRead s.clock s.pos asked = .atMost count)
    (hn : n = min (min asked count) (s.content.size - s.pos)) :
    s.read asked = (.ok (s.content.extract s.pos (s.pos + n)),
      { s with clock := s.clock + 1, pos := s.pos + n }) := by
  have hbytes : s.slice s.pos (s.pos + min asked count) = s.content.extract s.pos (s.pos + n) :=
    extract_stop_congr (by omega)
  have hsize : (s.content.extract s.pos (s.pos + n)).size = n := by
    rw [ByteArray.size_extract]
    omega
  unfold Source.read
  rw [h]
  dsimp only
  rw [hbytes, hsize]

/-- A request halts only where the places of the source are no words. -/
theorem request_cases (s : Source) (asked : Nat) :
    request s asked = pure (s.read asked) ∨
      request s asked = halt .overflow ∧ 2 ^ 64 ≤ s.content.size := by
  unfold request
  cases hreply : s.onRead s.clock s.pos asked with
  | fail reason =>
    unfold Source.read
    rw [hreply]
    exact .inl rfl
  | atMost count =>
    dsimp only
    generalize hn : min (min asked count) (s.content.size - s.pos) = n
    rw [read_of_atMost hreply hn.symm]
    split
    · rename_i hzero
      subst hzero
      have hnothing : s.content.extract s.pos (s.pos + 0) = .empty := ByteArray.extract_same
      rw [hnothing]
      exact .inl rfl
    · have hsize : (s.content.extract s.pos (s.pos + n)).size ≤ asked := by
        rw [ByteArray.size_extract]
        omega
      by_cases hword : s.pos + n < 2 ^ 64
      · rw [add_eq hword, pure_bind, part_eq (Nat.le_add_right _ _) (by omega), pure_bind,
          front_eq hsize]
        exact .inl rfl
      · rw [add_eq_halt (by omega)]
        exact .inr ⟨rfl, by omega⟩

/-- What a source hands over lies within what it has. -/
theorem request_eq {s : Source} (h : s.content.size < 2 ^ 64) (asked : Nat) :
    request s asked = pure (s.read asked) :=
  (request_cases s asked).resolve_right fun hhalt => by omega

/-- A request that does not halt is answered as the source answers. -/
theorem read_of_request {s : Source} {asked : Nat} {answer : Except Error ByteArray × Source}
    (h : request s asked = pure answer) : s.read asked = answer := by
  rcases request_cases s asked with hread | ⟨hhalt, -⟩
  · exact Except.ok.inj (Except.ok.inj (hread.symm.trans h))
  · cases hhalt.symm.trans h

/-- Ask a source for one chunk after the other until it hands over nothing.  The cases are written
out, for the recursion ends because the source does. -/
def drain (source : Source) (got : ByteArray) : Machine (Except Error ByteArray × Source) :=
  match _asked : request source Input.blockSize with
  | .ok (.ok (.error e, source)) => return (.error e, source)
  | .ok (.ok (.ok piece, source)) =>
    if piece.size = 0 then return (.ok got, source)
    else do
      let _filled ← front Input.blockSize piece
      drain source (got ++ piece)
  | .ok (.error e) => throw e
  | .error fault => halt fault
termination_by source.content.size - source.pos
decreasing_by
  obtain ⟨hcontent, hpos, -, hinside⟩ := Source.read_of_ok (read_of_request _asked)
  have := hinside ‹_›
  rw [hcontent]
  omega

/-- The place where the input is: that of the source, less what is left of the block. -/
def tell (i : Input) : Machine (Except Error Nat × Input) :=
  match i.source.tell with
  | (.error e, source) => return (.error e, { i with source })
  | (.ok place, source) => do
    let ahead ← sub i.block.size i.taken
    let here ← sub place ahead
    return (.ok here, { i with source })

def seekTo (i : Input) (place : Nat) : Machine (Except Error Bool × Input) := do
  match ← tell i with
  | (.error e, i) => return (.error e, i)
  | (.ok here, i) =>
    if here = place then return (.ok false, i)
    else
      let (outcome, i) := i.seek (.start place)
      return (outcome.map fun _ => true, i)

def readAll (i : Input) : Machine (Except Error ByteArray × Input) :=
  match i.seek (.start 0) with
  | (.error e, i) => return (.error e, i)
  | (.ok _, i) => do
    let (outcome, source) ← drain i.source .empty
    return (outcome, { i with source })

theorem drain_of_read {source : Source} (h : source.content.size < 2 ^ 64) (got : ByteArray) :
    drain source got =
      match source.read Input.blockSize with
      | (.error e, source) => pure (.error e, source)
      | (.ok piece, source) =>
        if piece.size = 0 then pure (.ok got, source) else drain source (got ++ piece) := by
  have hask := request_eq h Input.blockSize
  rw [drain]
  split
  · rename_i hanswer
    rw [read_of_request hanswer]
  · rename_i piece source' hanswer
    have hread := read_of_request hanswer
    have hsize : piece.size ≤ Input.blockSize := (Source.read_of_ok hread).2.2.1
    rw [hread, front_eq hsize]
    rfl
  · rename_i hanswer
    rw [hask] at hanswer
    cases hanswer
  · rename_i hanswer
    rw [hask] at hanswer
    cases hanswer

theorem drain_eq {source : Source} (h : source.content.size < 2 ^ 64) (got : ByteArray) :
    drain source got = pure (Input.drain source got) := by
  fun_induction Input.drain source got with
  | case1 source got e source' hread => rw [drain_of_read h, hread]
  | case2 source got piece source' hread hpiece =>
    rw [drain_of_read h, hread]
    exact if_pos hpiece
  | case3 source got piece source' hread hpiece ih =>
    rw [drain_of_read h, hread]
    dsimp only
    rw [if_neg hpiece]
    exact ih ((Source.read_of_ok hread).1 ▸ h)

theorem tell_eq {i : Input} (hi : i.InRange) : tell i = pure i.tell := by
  have hahead : i.block.size - i.taken ≤ i.source.pos := hi.ahead_le
  unfold tell Input.tell
  rcases i.source.tell_cases with htell | ⟨reason, -, htell⟩
  · rw [htell]
    dsimp only
    rw [sub_eq hi.taken_le, pure_bind, sub_eq hahead]
    rfl
  · rw [htell]
    rfl

theorem seekTo_eq {i : Input} (hi : i.InRange) (place : Nat) :
    seekTo i place = pure (i.seekTo place) := by
  unfold seekTo Input.seekTo
  rw [tell_eq hi, pure_bind]
  rcases i.tell with ⟨e | here, there⟩
  · rfl
  · dsimp only
    split <;> rfl

/-- **Everything is read without a fault.** -/
theorem readAll_eq {i : Input} (h : i.source.content.size < 2 ^ 64) :
    readAll i = pure i.readAll := by
  have hsame := i.source.seek_same (.start 0)
  unfold readAll Input.readAll Input.seek
  cases hseek : i.source.seek (.start 0) with
  | mk place source =>
    rw [hseek] at hsame
    cases place with
    | error e => rfl
    | ok n =>
      dsimp only
      rw [drain_eq (hsame.content ▸ h)]
      rfl

/-! ### Reading into a buffer -/

/-- Take bytes until the first `size` of a buffer are there, behind those that were taken.  A place
behind others is given as a sum to the next round, for the recursion ends because it grows. -/
def readInto (size taken : Nat) (buffer : ByteArray) (i : Input) :
    Machine (Except Error Unit × ByteArray × Input) :=
  if _wanting : taken < size then do
    let _ahead ← sub i.block.size i.taken
    let _wanted ← sub size taken
    if _ahead : 0 < i.ahead then
      let n := min i.ahead (size - taken)
      let stop ← add 64 taken n
      let blockStop ← add 64 i.taken n
      let buffer ← copy size buffer taken stop (← part i.block i.taken blockStop)
      readInto size (taken + n) buffer { i with taken := i.taken + n }
    else if Input.blockSize ≤ size - taken then
      match ← request i.source (size - taken) with
      | (.error e, source) => return (.error e, buffer, { i with source })
      | (.ok piece, source) =>
        if _none : piece.size = 0 then return (.error .endOfStream, buffer, { i with source })
        else
          let stop ← add 64 taken piece.size
          let buffer ← copy size buffer taken stop piece
          readInto size (taken + piece.size) buffer { i with source }
    else
      match ← request i.source Input.blockSize with
      | (.error e, source) => return (.error e, buffer, { i with source, taken := 0 })
      | (.ok piece, source) =>
        if _none : piece.size = 0 then return (.error .endOfStream, buffer, ⟨source, piece, 0⟩)
        else readInto size taken buffer ⟨source, piece, 0⟩
  else return (.ok (), buffer, i)
termination_by (size - taken, 1 - i.ahead)
decreasing_by
  · apply Prod.Lex.left
    omega
  · apply Prod.Lex.left
    omega
  · apply Prod.Lex.right
    simp only [Input.ahead] at *
    omega

/-- One round takes what is left of the block, or asks the source. -/
theorem readInto_round {size taken : Nat} {i : Input} (hi : i.Measured) (hwanting : taken < size)
    (hsize : size < 2 ^ 64) (buffer : ByteArray) :
    readInto size taken buffer i =
      if 0 < i.ahead then
        let n := min i.ahead (size - taken)
        readInto size (taken + n) (overwrite buffer taken (i.block.extract i.taken (i.taken + n)))
          { i with taken := i.taken + n }
      else if Input.blockSize ≤ size - taken then
        match i.source.read (size - taken) with
        | (.error e, source) => pure (.error e, buffer, { i with source })
        | (.ok piece, source) =>
          if piece.size = 0 then pure (.error .endOfStream, buffer, { i with source })
          else readInto size (taken + piece.size) (overwrite buffer taken piece) { i with source }
      else
        match i.source.read Input.blockSize with
        | (.error e, source) => pure (.error e, buffer, { i with source, taken := 0 })
        | (.ok piece, source) =>
          if piece.size = 0 then pure (.error .endOfStream, buffer, ⟨source, piece, 0⟩)
          else readInto size taken buffer ⟨source, piece, 0⟩ := by
  rw [readInto, dif_pos hwanting, sub_eq hi.taken_le, pure_bind, sub_eq (Nat.le_of_lt hwanting),
    pure_bind]
  by_cases ha : 0 < i.ahead
  · rw [dif_pos ha, if_pos ha]
    dsimp only
    -- What is taken from the block is within it and what is wanted.
    generalize hn : min i.ahead (size - taken) = n
    have hahead : i.ahead = i.block.size - i.taken := rfl
    have hblock := hi.block_le
    have hpos := hi.numbered.pos_lt
    have hpiece : (i.block.extract i.taken (i.taken + n)).size = n := by
      rw [ByteArray.size_extract]
      omega
    rw [add_eq (by omega), pure_bind, add_eq (by omega), pure_bind,
      part_eq (Nat.le_add_right _ _) (by omega), pure_bind, copy_eq (by omega) hpiece, pure_bind]
  · rw [dif_neg ha, if_neg ha]
    have hcontent := hi.numbered.content_lt
    split
    · rw [request_eq hcontent, pure_bind]
      cases hread : i.source.read (size - taken) with
      | mk outcome source =>
        cases outcome with
        | error e => rfl
        | ok piece =>
          have hle : piece.size ≤ size - taken := (Source.read_of_ok hread).2.2.1
          dsimp only
          split
          · rfl
          · rw [add_eq (by omega), pure_bind, copy_eq (by omega) rfl, pure_bind]
    · rw [request_eq hcontent, pure_bind]
      cases i.source.read Input.blockSize with
      | mk outcome source => cases outcome <;> rfl

/-- **A buffer is filled without a fault.** -/
theorem readInto_eq {size taken : Nat} {i : Input} (hi : i.Measured) (htaken : taken ≤ size)
    (hsize : size < 2 ^ 64) (buffer : ByteArray) :
    readInto size taken buffer i = pure (Input.readInto (size - taken) buffer taken i) := by
  -- The machine counts what was taken, the input what is still wanted.
  generalize hwanted : size - taken = wanted
  fun_induction Input.readInto wanted buffer taken i with
  | case1 buffer taken i => rw [readInto, dif_neg (by omega)]
  | case2 wanted buffer taken i hw ha n ih =>
    rw [readInto_round hi (by omega) hsize, if_pos ha, hwanted]
    exact ih (hi.take (Nat.min_le_left _ _)) (by omega) (by omega)
  | case3 wanted buffer taken i hw ha hbig e source hread =>
    rw [readInto_round hi (by omega) hsize, if_neg ha, hwanted, if_pos hbig, hread]
  | case4 wanted buffer taken i hw ha hbig piece source hread hpiece =>
    rw [readInto_round hi (by omega) hsize, if_neg ha, hwanted, if_pos hbig, hread]
    exact if_pos hpiece
  | case5 wanted buffer taken i hw ha hbig piece source hread hpiece ih =>
    have hle : piece.size ≤ wanted := (Source.read_of_ok hread).2.2.1
    rw [readInto_round hi (by omega) hsize, if_neg ha, hwanted, if_pos hbig, hread]
    dsimp only
    rw [if_neg hpiece]
    exact ih (hi.ask hread) (by omega) (by omega)
  | case6 wanted buffer taken i hw ha hsmall e source hread =>
    rw [readInto_round hi (by omega) hsize, if_neg ha, hwanted, if_neg hsmall, hread]
  | case7 wanted buffer taken i hw ha hsmall piece source hread hpiece =>
    rw [readInto_round hi (by omega) hsize, if_neg ha, hwanted, if_neg hsmall, hread]
    exact if_pos hpiece
  | case8 wanted buffer taken i hw ha hsmall piece source hread hpiece ih =>
    rw [readInto_round hi (by omega) hsize, if_neg ha, hwanted, if_neg hsmall, hread]
    dsimp only
    rw [if_neg hpiece]
    exact ih (hi.fill hread) htaken hwanted

/-- Go to a sample and read it to the front of a buffer. -/
def fetchInto (buffer : ByteArray) (input : Input) (t : Track) (s : Sample) :
    Machine (Except Error ByteArray × ByteArray × Input) := do
  let buffer := Opened.grown buffer s.size
  let _lent ← part buffer 0 s.size
  match ← seekTo input s.pos with
  | (.error e, input) => return (.error e, buffer, input)
  | (.ok _, input) =>
    match ← readInto s.size 0 buffer input with
    | (.error .endOfStream, buffer, input) =>
      return (malformed (.sampleCut t.number t.cursor s.pos s.size), buffer, input)
    | (.error e, buffer, input) => return (.error e, buffer, input)
    | (.ok _, buffer, input) => return (.ok (← part buffer 0 s.size), buffer, input)

theorem size_grown (buffer : ByteArray) (size : Nat) : size ≤ (Opened.grown buffer size).size := by
  rw [Opened.grown, ByteArray.size_append]
  show size ≤ buffer.size + (Array.replicate (size - buffer.size) 0).size
  rw [Array.size_replicate]
  omega

/-- A buffer that was filled is as long as what was wanted. -/
theorem size_of_readInto {wanted : Nat} {old buffer : ByteArray} {i i' : Input} {u : Unit}
    (h : Input.readInto wanted old 0 i = (.ok u, buffer, i')) : wanted ≤ buffer.size := by
  obtain ⟨buffer', hread, hfront⟩ := Input.readInto_eq wanted .empty i old
  rw [ByteArray.empty_append, ByteArray.size_empty, h] at hread
  obtain ⟨houtcome, rfl, -⟩ := Prod.ext_iff.1 hread
  cases hgot : (Input.readFrom wanted .empty i).1 with
  | error e =>
    rw [hgot] at houtcome
    cases houtcome
  | ok data =>
    have hsize := Input.size_of_readFrom (Prod.ext hgot rfl)
    have hdata := congrArg ByteArray.size (hfront data hgot)
    rw [ByteArray.size_extract] at hdata
    rw [ByteArray.size_empty] at hsize
    omega

/-- **A sample is fetched without a fault.** -/
theorem fetchInto_eq {input : Input} (hi : input.Measured) (buffer : ByteArray) (t : Track)
    {s : Sample} (hs : s.size < 2 ^ 64) :
    fetchInto buffer input t s = pure (Opened.fetchInto buffer input t s) := by
  have hthere := hi.seekTo s.pos
  unfold fetchInto Opened.fetchInto
  dsimp only
  rw [part_eq (Nat.zero_le _) (size_grown buffer s.size), pure_bind, seekTo_eq hi.toInRange,
    pure_bind]
  cases hseek : input.seekTo s.pos with
  | mk asked there =>
    rw [hseek] at hthere
    cases asked with
    | error e => rfl
    | ok asked =>
      dsimp only
      rw [readInto_eq hthere (Nat.zero_le _) hs, pure_bind, Nat.sub_zero]
      rcases hread : Input.readInto s.size (Opened.grown buffer s.size) 0 there with
        ⟨e | u, filled, input'⟩
      · cases e <;> rfl
      · dsimp only
        rw [part_eq (Nat.zero_le _) (size_of_readInto hread), pure_bind]

theorem measured_fetchInto {input : Input} (hi : input.Measured) (buffer : ByteArray) (t : Track)
    (s : Sample) : (Opened.fetchInto buffer input t s).2.2.Measured := by
  have hthere := hi.seekTo s.pos
  unfold Opened.fetchInto
  rcases hseek : input.seekTo s.pos with ⟨e | asked, there⟩
  · rw [hseek] at hthere
    exact hthere
  · rw [hseek] at hthere
    have hleft := hthere.readInto s.size (Opened.grown buffer s.size) 0
    dsimp only
    rcases hread : Input.readInto s.size (Opened.grown buffer s.size) 0 there with
      ⟨e | u, filled, input'⟩
    · rw [hread] at hleft
      cases e <;> exact hleft
    · rw [hread] at hleft
      exact hleft

end Machine

end IsoMedia
