import IsoMedia.Proofs.Input.Rewinding
import IsoMedia.Proofs.Machine.Reading

/-!
# A buffer over any device

A `Device` is anything that hands over bytes and can go to other places, as it likes: all that is known
of it is that it says how far it moves.  A `Buffer` reads it in blocks, through an array of fixed size
of which only the first cells are filled.

* `Buffer.within_run` : whatever is called and whatever the device does, no difference is below zero and
  no slice out of range, and what is left of the buffer is no more than the place of the device.
* `Buffer.shows_run` : over a `Source` the buffer does what an `Input` does.
* `Buffer.run_within_device` : both, for a buffer that nothing was read into.
-/

namespace IsoMedia

/-- A seek that fails leaves a source where it was. -/
theorem Source.seek_eq_error {s s' : Source} {target : Target} {e : Error}
    (h : s.seek target = (.error e, s')) : s'.pos = s.pos := by
  unfold Source.seek at h
  split at h
  · cases h
    rfl
  · dsimp only at h
    split at h
    · cases h
    · cases h
      rfl

/-- Asked for its place, a source stays where it is, and tells that if it answers. -/
theorem Source.tell_spec {s s' : Source} {outcome : Except Error Nat} (h : s.tell = (outcome, s')) :
    s'.pos = s.pos ∧ ∀ n, outcome = .ok n → n = s.pos := by
  rcases s.tell_cases with htell | ⟨reason, -, htell⟩
  · cases h.symm.trans htell
    exact ⟨rfl, fun n hn => (Except.ok.inj hn).symm⟩
  · cases h.symm.trans htell
    exact ⟨rfl, nofun⟩

namespace Machine

/-- What bytes are read from.  The place of a state tells how far it has come. -/
structure Device (σ : Type) where
  place : σ → Nat
  /-- Ask for at most so many bytes. -/
  read : Nat → σ → Except Error ByteArray × σ
  seek : Target → σ → Except Error Nat × σ
  /-- Ask for the place. -/
  position : σ → Except Error Nat × σ
  /-- No more is handed over than was asked for, and the device moves on behind it. -/
  read_ok : ∀ {asked : Nat} {s s' : σ} {piece : ByteArray}, read asked s = (.ok piece, s') →
    piece.size ≤ asked ∧ place s' = place s + piece.size
  /-- A request that fails does not move it, whether for bytes, for another place or for its own. -/
  read_error : ∀ {asked : Nat} {s s' : σ} {e : Error}, read asked s = (.error e, s') →
    place s' = place s
  seek_error : ∀ {target : Target} {s s' : σ} {e : Error}, seek target s = (.error e, s') →
    place s' = place s
  position_ok : ∀ {s s' : σ} {n : Nat}, position s = (.ok n, s') → n = place s ∧ place s' = place s
  position_error : ∀ {s s' : σ} {e : Error}, position s = (.error e, s') → place s' = place s

/-- A source is a device, whatever its plan. -/
def Device.ofSource : Device Source where
  place s := s.pos
  read asked s := s.read asked
  seek target s := s.seek target
  position s := s.tell
  read_ok h := ⟨(Source.read_of_ok h).2.2.1, (Source.read_of_ok h).2.1⟩
  read_error h := (Source.read_eq_error h).2
  seek_error h := Source.seek_eq_error h
  position_ok h := ⟨(Source.tell_spec h).2 _ rfl, (Source.tell_spec h).1⟩
  position_error h := (Source.tell_spec h).1

/-- A device with an array that it is read into. -/
structure Buffer (σ : Type) where
  device : σ
  cells : ByteArray
  /-- How many cells at the front hold what was read. -/
  filled : Nat := 0
  /-- How many of them were taken. -/
  taken : Nat := 0

namespace Buffer

/-- An array with nothing but zeros. -/
def zeros (size : Nat) : ByteArray := ⟨Array.replicate size 0⟩

theorem size_zeros (size : Nat) : (zeros size).size = size := Array.size_replicate

/-- A buffer that nothing was read into. -/
def fresh {σ : Type} (device : σ) : Buffer σ := { device, cells := zeros Input.blockSize }

variable {σ : Type} (d : Device σ)

/-- Where the next byte comes from: the place of the device, less what is left in the buffer. -/
def position (b : Buffer σ) : Machine (Except Error Nat × Buffer σ) :=
  match d.position b.device with
  | (.error e, device) => return (.error e, { b with device })
  | (.ok place, device) => do
    let ahead ← sub b.filled b.taken
    let place ← sub place ahead
    return (.ok place, { b with device })

/-- Go to a target; what is in the buffer is given up first. -/
def seek (b : Buffer σ) (target : Target) : Except Error Nat × Buffer σ :=
  let (place, device) := d.seek target b.device
  (place, { b with device, filled := 0, taken := 0 })

/-- Go to a place, without asking the device to go if the buffer is there already. -/
def seekTo (b : Buffer σ) (place : Nat) : Machine (Except Error Bool × Buffer σ) := do
  match ← position d b with
  | (.error e, b) => return (.error e, b)
  | (.ok here, b) =>
    if here = place then return (.ok false, b)
    else
      let (outcome, b) := seek d b (.start place)
      return (outcome.map fun _ => true, b)

/-- Take bytes until an array of the given size is filled, behind those that were taken. -/
def readInto (size done : Nat) (array : ByteArray) (b : Buffer σ) :
    Machine (Except Error Unit × ByteArray × Buffer σ) :=
  if _wanting : done < size then do
    let _ahead ← sub b.filled b.taken
    let _wanted ← sub size done
    if _left : 0 < b.filled - b.taken then
      let n := min (b.filled - b.taken) (size - done)
      let piece ← part b.cells b.taken (b.taken + n)
      let array ← copy array.size array done (done + n) piece
      readInto size (done + n) array { b with taken := b.taken + n }
    else if b.cells.size ≤ size - done then
      match d.read (size - done) b.device with
      | (.error e, device) => return (.error e, array, { b with device })
      | (.ok piece, device) =>
        if _none : piece.size = 0 then return (.error .endOfStream, array, { b with device })
        else
          let array ← copy array.size array done (done + piece.size) piece
          readInto size (done + piece.size) array { b with device }
    else
      match d.read b.cells.size b.device with
      | (.error e, device) => return (.error e, array, { b with device, taken := 0 })
      | (.ok piece, device) => do
        let cells ← copy b.cells.size b.cells 0 (0 + piece.size) piece
        let b := ⟨device, cells, piece.size, 0⟩
        if _none : piece.size = 0 then return (.error .endOfStream, array, b)
        else readInto size done array b
  else return (.ok (), array, b)
termination_by (size - done, 1 - (b.filled - b.taken))
decreasing_by
  · apply Prod.Lex.left
    omega
  · apply Prod.Lex.left
    omega
  · apply Prod.Lex.right
    omega

/-- Ask for one chunk after the other until nothing is handed over.  A device may go on for ever; what
is read of it within so many chunks is no answer yet. -/
def drain : Nat → σ → ByteArray → Machine (Option (Except Error ByteArray) × σ)
  | 0, device, _ => return (none, device)
  | chunks + 1, device, got =>
    match d.read Input.blockSize device with
    | (.error e, device) => return (some (.error e), device)
    | (.ok piece, device) =>
      if piece.size = 0 then return (some (.ok got), device)
      else do
        let piece ← front Input.blockSize piece
        drain chunks device (got ++ piece)

/-- All bytes from the start to the end, if there are no more than so many chunks of them. -/
def readAll (chunks : Nat) (b : Buffer σ) :
    Machine (Option (Except Error ByteArray) × Buffer σ) :=
  match seek d b (.start 0) with
  | (.error e, b) => return (some (.error e), b)
  | (.ok _, b) => do
    let (outcome, device) ← drain d chunks b.device .empty
    return (outcome, { b with device })

/-- What comes of a call, if it comes to an end. -/
def call (chunks : Nat) (b : Buffer σ) : Input.Call → Machine (Option Input.Answer × Buffer σ)
  | .readExact wanted => do
    let (outcome, array, b) ← readInto d wanted 0 (zeros wanted) b
    return (some (.bytes (outcome.map fun _ => array)), b)
  | .readAll => do
    let (outcome, b) ← readAll d chunks b
    return (outcome.map .bytes, b)
  | .seek target =>
    let (outcome, b) := seek d b target
    return (some (.place outcome), b)
  | .seekTo place => do
    let (outcome, b) ← seekTo d b place
    return (some (.moved outcome), b)
  | .position => do
    let (outcome, b) ← position d b
    return (some (.place outcome), b)

/-- The answers to calls one after the other, up to one that does not come to an end, and what is left
behind them. -/
def run (chunks : Nat) (b : Buffer σ) : List Input.Call → Machine (List Input.Answer × Buffer σ)
  | [] => return ([], b)
  | c :: calls => do
    match ← call d chunks b c with
    | (none, b) => return ([], b)
    | (some answer, b) => do
      let (answers, b) ← run chunks b calls
      return (answer :: answers, b)

/-! ### Staying within the buffer -/

/-- No more was taken than was filled, and no more filled than there are cells and than the device has
handed over. -/
structure Within (b : Buffer σ) : Prop where
  cells_size : b.cells.size = Input.blockSize
  taken_le : b.taken ≤ b.filled
  filled_le : b.filled ≤ Input.blockSize
  filled_le_place : b.filled ≤ d.place b.device

theorem size_overwrite {buffer piece : ByteArray} {place : Nat}
    (h : place + piece.size ≤ buffer.size) : (overwrite buffer place piece).size = buffer.size := by
  rw [overwrite, ByteArray.size_append, ByteArray.size_append, ByteArray.size_extract,
    ByteArray.size_extract]
  omega

variable {d} {b : Buffer σ} {device : σ}

theorem within_fresh (device : σ) : (fresh device).Within d :=
  ⟨size_zeros _, Nat.le_refl _, Nat.zero_le _, Nat.zero_le _⟩

namespace Within

theorem take (h : b.Within d) {n : Nat} (hn : n ≤ b.filled - b.taken) :
    Within d { b with taken := b.taken + n } :=
  ⟨h.cells_size, by have := h.taken_le; dsimp only; omega, h.filled_le, h.filled_le_place⟩

/-- The device has not gone back. -/
theorem move (h : b.Within d) (hplace : d.place b.device ≤ d.place device) :
    Within d { b with device } :=
  ⟨h.cells_size, h.taken_le, h.filled_le, Nat.le_trans h.filled_le_place hplace⟩

theorem rewind (h : b.Within d) : Within d { b with taken := 0 } :=
  ⟨h.cells_size, Nat.zero_le _, h.filled_le, h.filled_le_place⟩

theorem empty (h : b.Within d) : Within d { b with device, filled := 0, taken := 0 } :=
  ⟨h.cells_size, Nat.le_refl _, Nat.zero_le _, Nat.zero_le _⟩

theorem fill (h : b.Within d) {piece : ByteArray}
    (hread : d.read Input.blockSize b.device = (.ok piece, device)) :
    Within d ⟨device, overwrite b.cells 0 piece, piece.size, 0⟩ := by
  obtain ⟨hle, hplace⟩ := d.read_ok hread
  have hsize := h.cells_size
  refine ⟨?_, Nat.zero_le _, hle, ?_⟩
  · rw [size_overwrite (by omega), hsize]
  · dsimp only
    omega

end Within

/-- One round takes what is left in the buffer, or asks the device. -/
theorem readInto_round (h : b.Within d) {size done : Nat} (hwanting : done < size)
    {array : ByteArray} (harray : array.size = size) :
    readInto d size done array b =
      if 0 < b.filled - b.taken then
        let n := min (b.filled - b.taken) (size - done)
        readInto d size (done + n) (overwrite array done (b.cells.extract b.taken (b.taken + n)))
          { b with taken := b.taken + n }
      else if Input.blockSize ≤ size - done then
        match d.read (size - done) b.device with
        | (.error e, device) => pure (.error e, array, { b with device })
        | (.ok piece, device) =>
          if piece.size = 0 then pure (.error .endOfStream, array, { b with device })
          else
            readInto d size (done + piece.size) (overwrite array done piece) { b with device }
      else
        match d.read Input.blockSize b.device with
        | (.error e, device) => pure (.error e, array, { b with device, taken := 0 })
        | (.ok piece, device) =>
          let b := ⟨device, overwrite b.cells 0 piece, piece.size, 0⟩
          if piece.size = 0 then pure (.error .endOfStream, array, b)
          else readInto d size done array b := by
  have hcells := h.cells_size
  have htaken := h.taken_le
  have hfilled := h.filled_le
  rw [readInto, dif_pos hwanting, sub_eq htaken, pure_bind, sub_eq (Nat.le_of_lt hwanting), pure_bind]
  by_cases hleft : 0 < b.filled - b.taken
  · rw [dif_pos hleft, if_pos hleft]
    dsimp only
    -- What is taken from the cells is within what was filled and within what is wanted.
    generalize hn : min (b.filled - b.taken) (size - done) = n
    have hpiece : (b.cells.extract b.taken (b.taken + n)).size = n := by
      rw [ByteArray.size_extract]
      omega
    rw [part_eq (Nat.le_add_right _ _) (by omega), pure_bind, copy_eq (by omega) hpiece, pure_bind]
  · rw [dif_neg hleft, if_neg hleft, hcells]
    split
    · cases hread : d.read (size - done) b.device with
      | mk outcome device =>
        cases outcome with
        | error e => rfl
        | ok piece =>
          have hle : piece.size ≤ size - done := (d.read_ok hread).1
          dsimp only
          split
          · rfl
          · rw [copy_eq (by omega) rfl, pure_bind]
    · cases hread : d.read Input.blockSize b.device with
      | mk outcome device =>
        cases outcome with
        | error e => rfl
        | ok piece =>
          have hle : piece.size ≤ Input.blockSize := (d.read_ok hread).1
          dsimp only
          rw [copy_eq (by omega) rfl, pure_bind]
          split <;> rfl

/-- **An array is filled within it and within the buffer.** -/
theorem within_readInto {b : Buffer σ} (h : b.Within d) {size : Nat} (done : Nat) {array : ByteArray}
    (harray : array.size = size) :
    ∃ outcome array' b', readInto d size done array b = pure (outcome, array', b') ∧
      array'.size = size ∧ b'.Within d := by
  by_cases hwanting : done < size
  · rw [readInto_round h hwanting harray]
    by_cases hleft : 0 < b.filled - b.taken
    · rw [if_pos hleft]
      dsimp only
      refine within_readInto (h.take (Nat.min_le_left _ _)) _ ?_
      rw [size_overwrite ?_, harray]
      rw [ByteArray.size_extract]
      omega
    · rw [if_neg hleft]
      split
      · rcases hread : d.read (size - done) b.device with ⟨e | piece, device⟩
        · exact ⟨_, _, _, rfl, harray, h.move (Nat.le_of_eq (d.read_error hread).symm)⟩
        · obtain ⟨hle, hplace⟩ := d.read_ok hread
          have hmoved : Within d { b with device } := h.move (by omega)
          dsimp only
          split
          · exact ⟨_, _, _, rfl, harray, hmoved⟩
          · refine within_readInto hmoved _ ?_
            rw [size_overwrite (by omega), harray]
      · rcases hread : d.read Input.blockSize b.device with ⟨e | piece, device⟩
        · have hmoved := h.move (Nat.le_of_eq (d.read_error hread).symm)
          exact ⟨_, _, _, rfl, harray, hmoved.rewind⟩
        · dsimp only
          split
          · exact ⟨_, _, _, rfl, harray, h.fill hread⟩
          · exact within_readInto (h.fill hread) _ harray
  · rw [readInto, dif_neg hwanting]
    exact ⟨_, _, _, rfl, harray, h⟩
-- A round that fills the buffer takes nothing, but the next one does.
termination_by 2 * (size - done) + (1 - (b.filled - b.taken))
decreasing_by all_goals omega

theorem within_position (h : b.Within d) :
    ∃ outcome b', position d b = pure (outcome, b') ∧ b'.Within d := by
  unfold position
  rcases hposition : d.position b.device with ⟨e | place, device⟩
  · exact ⟨_, _, rfl, h.move (Nat.le_of_eq (d.position_error hposition).symm)⟩
  · obtain ⟨rfl, hplace⟩ := d.position_ok hposition
    have hfilled := h.filled_le_place
    dsimp only
    rw [sub_eq h.taken_le, pure_bind, sub_eq (by omega), pure_bind]
    exact ⟨_, _, rfl, h.move (Nat.le_of_eq hplace.symm)⟩

theorem within_seekTo (h : b.Within d) (place : Nat) :
    ∃ outcome b', seekTo d b place = pure (outcome, b') ∧ b'.Within d := by
  obtain ⟨outcome, b', hposition, hleft⟩ := within_position h
  unfold seekTo
  rw [hposition, pure_bind]
  cases outcome with
  | error e => exact ⟨_, _, rfl, hleft⟩
  | ok here =>
    dsimp only
    split
    · exact ⟨_, _, rfl, hleft⟩
    · exact ⟨_, _, rfl, hleft.empty⟩

/-- No chunk is longer than the array that it is read into. -/
theorem exists_drain_eq (d : Device σ) (chunks : Nat) (device : σ) (got : ByteArray) :
    ∃ outcome device', drain d chunks device got = pure (outcome, device') := by
  induction chunks generalizing device got with
  | zero => exact ⟨_, _, rfl⟩
  | succ chunks ih =>
    unfold drain
    rcases hread : d.read Input.blockSize device with ⟨e | piece, device'⟩
    · exact ⟨_, _, rfl⟩
    · dsimp only
      split
      · exact ⟨_, _, rfl⟩
      · rw [front_eq (d.read_ok hread).1, pure_bind]
        exact ih device' (got ++ piece)

theorem within_readAll (h : b.Within d) (chunks : Nat) :
    ∃ outcome b', readAll d chunks b = pure (outcome, b') ∧ b'.Within d := by
  unfold readAll seek
  rcases d.seek (.start 0) b.device with ⟨e | place, device⟩
  · exact ⟨_, _, rfl, h.empty⟩
  · obtain ⟨outcome, device', hdrain⟩ := exists_drain_eq d chunks device .empty
    dsimp only
    rw [hdrain, pure_bind]
    exact ⟨_, _, rfl, h.empty⟩

theorem within_call (h : b.Within d) (chunks : Nat) (c : Input.Call) :
    ∃ answer b', call d chunks b c = pure (answer, b') ∧ b'.Within d := by
  cases c with
  | readExact wanted =>
    obtain ⟨outcome, array, b', hread, -, hleft⟩ := within_readInto h 0 (size_zeros wanted)
    rw [call, hread]
    exact ⟨_, _, rfl, hleft⟩
  | readAll =>
    obtain ⟨outcome, b', hread, hleft⟩ := within_readAll h chunks
    rw [call, hread]
    exact ⟨_, _, rfl, hleft⟩
  | seek target => exact ⟨_, _, rfl, h.empty⟩
  | seekTo place =>
    obtain ⟨outcome, b', hseek, hleft⟩ := within_seekTo h place
    rw [call, hseek]
    exact ⟨_, _, rfl, hleft⟩
  | position =>
    obtain ⟨outcome, b', hposition, hleft⟩ := within_position h
    rw [call, hposition]
    exact ⟨_, _, rfl, hleft⟩

theorem within_run (h : b.Within d) (chunks : Nat) (calls : List Input.Call) :
    ∃ answers b', run d chunks b calls = pure (answers, b') ∧ b'.Within d := by
  induction calls generalizing b with
  | nil => exact ⟨_, _, rfl, h⟩
  | cons c calls ih =>
    obtain ⟨answer, b', hcall, hnext⟩ := within_call h chunks c
    rw [run, hcall, pure_bind]
    cases answer with
    | none => exact ⟨_, _, rfl, hnext⟩
    | some answer =>
      obtain ⟨answers, b'', hrun, hlast⟩ := ih hnext
      dsimp only
      rw [hrun, pure_bind]
      exact ⟨_, _, rfl, hlast⟩

/-! ### Over a source -/

/-- The filled cells are the block of the input, of which as much was taken. -/
structure Shows (b : Buffer Source) (i : Input) : Prop where
  source : b.device = i.source
  filled : b.filled = i.block.size
  taken : b.taken = i.taken
  block : i.block = b.cells.extract 0 b.filled

theorem shows_empty (source : Source) (cells : ByteArray) :
    Shows ⟨source, cells, 0, 0⟩ ⟨source, .empty, 0⟩ :=
  ⟨rfl, rfl, rfl, ByteArray.extract_same.symm⟩

theorem shows_fill (source : Source) (cells piece : ByteArray) :
    Shows ⟨source, overwrite cells 0 piece, piece.size, 0⟩ ⟨source, piece, 0⟩ := by
  refine ⟨rfl, rfl, rfl, ?_⟩
  dsimp only
  rw [overwrite, ByteArray.extract_same, ByteArray.empty_append,
    ByteArray.extract_append_eq_left rfl]

variable {b : Buffer Source} {i : Input}

namespace Shows

theorem ahead_eq (h : b.Shows i) : b.filled - b.taken = i.ahead := by
  rw [h.filled, h.taken]
  rfl

/-- What is taken from the cells is what the input takes from its block. -/
theorem part_eq (h : b.Shows i) {n : Nat} (hn : n ≤ i.ahead) :
    b.cells.extract b.taken (b.taken + n) = i.block.extract i.taken (i.taken + n) := by
  have hfilled := h.filled
  unfold Input.ahead at hn
  rw [h.taken, h.block, ByteArray.extract_extract, Nat.zero_add, Nat.zero_add]
  by_cases hzero : n = 0
  · rw [hzero, Nat.add_zero, ByteArray.extract_same]
    exact (ByteArray.extract_eq_empty_iff.2 (by omega)).symm
  · rw [Nat.min_eq_left (by omega)]

theorem take (h : b.Shows i) (n : Nat) :
    Shows { b with taken := b.taken + n } { i with taken := i.taken + n } :=
  ⟨h.source, h.filled, congrArg (· + n) h.taken, h.block⟩

theorem move (h : b.Shows i) (source : Source) :
    Shows { b with device := source } { i with source } :=
  ⟨rfl, h.filled, h.taken, h.block⟩

theorem rewind (h : b.Shows i) : Shows { b with taken := 0 } { i with taken := 0 } :=
  ⟨h.source, h.filled, rfl, h.block⟩

end Shows

/-- A round over a source takes what is left of the block, or asks the source. -/
theorem readInto_round_of_shows (hb : b.Within .ofSource) (hi : b.Shows i) {size done wanted : Nat}
    (hw : wanted ≠ 0) (hsize : done + wanted = size) {array : ByteArray}
    (harray : array.size = size) :
    readInto .ofSource size done array b =
      if 0 < i.ahead then
        let n := min i.ahead wanted
        readInto .ofSource size (done + n)
          (overwrite array done (i.block.extract i.taken (i.taken + n)))
          { b with taken := b.taken + n }
      else if Input.blockSize ≤ wanted then
        match i.source.read wanted with
        | (.error e, device) => pure (.error e, array, { b with device })
        | (.ok piece, device) =>
          if piece.size = 0 then pure (.error .endOfStream, array, { b with device })
          else
            readInto .ofSource size (done + piece.size) (overwrite array done piece)
              { b with device }
      else
        match i.source.read Input.blockSize with
        | (.error e, device) => pure (.error e, array, { b with device, taken := 0 })
        | (.ok piece, device) =>
          let b := ⟨device, overwrite b.cells 0 piece, piece.size, 0⟩
          if piece.size = 0 then pure (.error .endOfStream, array, b)
          else readInto .ofSource size done array b := by
  have hwanted : size - done = wanted := by omega
  rw [readInto_round hb (by omega) harray, hi.ahead_eq, hwanted]
  dsimp only
  rw [hi.part_eq (Nat.min_le_left _ _), hi.source]
  have hask (asked : Nat) : Device.ofSource.read asked i.source = i.source.read asked := rfl
  rw [hask, hask]
  split
  · rfl
  · split
    · rcases i.source.read wanted with ⟨e | piece, device⟩ <;> rfl
    · rcases i.source.read Input.blockSize with ⟨e | piece, device⟩ <;> rfl

theorem shows_readInto (wanted : Nat) (array : ByteArray) (done : Nat) (i : Input) :
    ∀ b : Buffer Source, b.Within .ofSource → b.Shows i → ∀ size, array.size = size →
      done + wanted = size →
      ∃ b', readInto .ofSource size done array b =
          pure ((Input.readInto wanted array done i).1, (Input.readInto wanted array done i).2.1, b') ∧
        b'.Shows (Input.readInto wanted array done i).2.2 := by
  fun_induction Input.readInto wanted array done i with
  | case1 array done i =>
    intro b hb hi size harray hsize
    rw [readInto, dif_neg (by omega)]
    exact ⟨b, rfl, hi⟩
  | case2 wanted array done i hw ha n ih =>
    intro b hb hi size harray hsize
    have hn : n ≤ i.ahead := Nat.min_le_left _ _
    have hpiece : (i.block.extract i.taken (i.taken + n)).size = n := by
      unfold Input.ahead at hn
      rw [ByteArray.size_extract]
      omega
    have hless : n ≤ wanted := Nat.min_le_right _ _
    rw [readInto_round_of_shows hb hi hw hsize harray, if_pos ha]
    refine ih _ (hb.take (hi.ahead_eq ▸ hn)) (hi.take n) size ?_ (by omega)
    rw [size_overwrite (by omega), harray]
  | case3 wanted array done i hw ha hbig e source hread =>
    intro b hb hi size harray hsize
    rw [readInto_round_of_shows hb hi hw hsize harray, if_neg ha, if_pos hbig, hread]
    exact ⟨_, rfl, hi.move source⟩
  | case4 wanted array done i hw ha hbig piece source hread hpiece =>
    intro b hb hi size harray hsize
    rw [readInto_round_of_shows hb hi hw hsize harray, if_neg ha, if_pos hbig, hread]
    dsimp only
    rw [if_pos hpiece]
    exact ⟨_, rfl, hi.move source⟩
  | case5 wanted array done i hw ha hbig piece source hread hpiece ih =>
    intro b hb hi size harray hsize
    obtain ⟨-, hpos, hle, -⟩ := Source.read_of_ok hread
    have hplace : b.device.pos ≤ source.pos := by
      rw [hi.source]
      omega
    rw [readInto_round_of_shows hb hi hw hsize harray, if_neg ha, if_pos hbig, hread]
    dsimp only
    rw [if_neg hpiece]
    refine ih _ (hb.move hplace) (hi.move source) size ?_ (by omega)
    rw [size_overwrite (by omega), harray]
  | case6 wanted array done i hw ha hsmall e source hread =>
    intro b hb hi size harray hsize
    rw [readInto_round_of_shows hb hi hw hsize harray, if_neg ha, if_neg hsmall, hread]
    exact ⟨_, rfl, (hi.move source).rewind⟩
  | case7 wanted array done i hw ha hsmall piece source hread hpiece =>
    intro b hb hi size harray hsize
    rw [readInto_round_of_shows hb hi hw hsize harray, if_neg ha, if_neg hsmall, hread]
    dsimp only
    rw [if_pos hpiece]
    exact ⟨_, rfl, shows_fill source b.cells piece⟩
  | case8 wanted array done i hw ha hsmall piece source hread hpiece ih =>
    intro b hb hi size harray hsize
    rw [readInto_round_of_shows hb hi hw hsize harray, if_neg ha, if_neg hsmall, hread]
    dsimp only
    rw [if_neg hpiece]
    have hfill := hb.fill (d := .ofSource) (hi.source ▸ hread)
    exact ih _ hfill (shows_fill source b.cells piece) size harray hsize

theorem Shows.inRange (h : b.Shows i) (hb : b.Within .ofSource) : i.InRange := by
  have hplace : b.filled ≤ b.device.pos := hb.filled_le_place
  have htaken := hb.taken_le
  rw [h.filled, h.source] at hplace
  rw [h.filled, h.taken] at htaken
  exact ⟨htaken, hplace⟩

theorem shows_position (hb : b.Within .ofSource) (hi : b.Shows i) :
    ∃ b', position .ofSource b = pure (i.tell.1, b') ∧ b'.Shows i.tell.2 := by
  have hahead := hi.ahead_eq
  have hle := (hi.inRange hb).ahead_le
  have hasked : Device.ofSource.position b.device = i.source.tell := by
    rw [hi.source]
    rfl
  unfold position Input.tell
  rw [hasked]
  rcases i.source.tell_cases with htell | ⟨reason, -, htell⟩
  · rw [htell]
    dsimp only
    rw [sub_eq hb.taken_le, pure_bind, hahead, sub_eq hle, pure_bind]
    exact ⟨_, rfl, hi.move _⟩
  · rw [htell]
    exact ⟨_, rfl, hi.move _⟩

theorem shows_seek (hi : b.Shows i) (target : Target) :
    (seek .ofSource b target).1 = (i.seek target).1 ∧
      (seek .ofSource b target).2.Shows (i.seek target).2 := by
  unfold seek Input.seek
  rw [hi.source]
  exact ⟨rfl, shows_empty _ _⟩

theorem shows_seekTo (hb : b.Within .ofSource) (hi : b.Shows i) (place : Nat) :
    ∃ b', seekTo .ofSource b place = pure ((i.seekTo place).1, b') ∧
      b'.Shows (i.seekTo place).2 := by
  obtain ⟨b', htell, hthere⟩ := shows_position hb hi
  unfold seekTo Input.seekTo
  rw [htell, pure_bind]
  rcases htold : i.tell with ⟨e | here, there⟩
  · rw [htold] at hthere
    exact ⟨b', rfl, hthere⟩
  · rw [htold] at hthere
    obtain ⟨hplace, hleft⟩ := shows_seek hthere (.start place)
    dsimp only
    split
    · exact ⟨b', rfl, hthere⟩
    · rw [hplace]
      exact ⟨_, rfl, hleft⟩

/-- A source has no more chunks than bytes, and one without any. -/
theorem drain_of_source (source : Source) (got : ByteArray) :
    ∀ chunks, source.content.size - source.pos < chunks →
      drain .ofSource chunks source got =
        pure (some (Input.drain source got).1, (Input.drain source got).2) := by
  fun_induction Input.drain source got with
  | case1 source got e source' hread =>
    rintro (_ | chunks) hchunks
    · omega
    · rw [drain, show Device.ofSource.read _ source = _ from hread]
  | case2 source got piece source' hread hpiece =>
    rintro (_ | chunks) hchunks
    · omega
    · rw [drain, show Device.ofSource.read _ source = _ from hread]
      exact if_pos hpiece
  | case3 source got piece source' hread hpiece ih =>
    rintro (_ | chunks) hchunks
    · omega
    · obtain ⟨hcontent, hpos, hle, hinside⟩ := Source.read_of_ok hread
      have := hinside hpiece
      rw [drain, show Device.ofSource.read _ source = _ from hread]
      dsimp only
      rw [if_neg hpiece, front_eq hle, pure_bind]
      exact ih chunks (by rw [hcontent]; omega)

theorem shows_readAll (hi : b.Shows i) {chunks : Nat} (hchunks : i.source.content.size < chunks) :
    ∃ b', readAll .ofSource chunks b = pure (some i.readAll.1, b') ∧ b'.Shows i.readAll.2 := by
  obtain ⟨hplace, hleft⟩ := shows_seek hi (.start 0)
  have hsame : i.source.Same (i.seek (.start 0)).2.source := i.source.seek_same (.start 0)
  unfold readAll Input.readAll
  rcases hseek : seek .ofSource b (.start 0) with ⟨place, b'⟩
  rcases hseek' : i.seek (.start 0) with ⟨place', i'⟩
  rw [hseek, hseek'] at hplace hleft
  rw [hseek'] at hsame
  obtain rfl : place = place' := hplace
  cases place with
  | error e => exact ⟨b', rfl, hleft⟩
  | ok n =>
    dsimp only at hleft hsame ⊢
    rw [hleft.source, drain_of_source _ _ chunks (by rw [hsame.content]; omega), pure_bind]
    exact ⟨_, rfl, hleft.move _⟩

theorem shows_readExact (hb : b.Within .ofSource) (hi : b.Shows i) (chunks wanted : Nat) :
    ∃ b', call .ofSource chunks b (.readExact wanted) =
        pure (some (.bytes (i.readExact wanted).1), b') ∧ b'.Shows (i.readExact wanted).2 := by
  obtain ⟨b', hread, hleft⟩ :=
    shows_readInto wanted (zeros wanted) 0 i b hb hi wanted (size_zeros wanted) (Nat.zero_add _)
  obtain ⟨outcome, array, b'', hwithin, harray, -⟩ := within_readInto hb 0 (size_zeros wanted)
  obtain ⟨buffer, hinto, hfront⟩ := Input.readInto_eq wanted .empty i (zeros wanted)
  rw [ByteArray.empty_append, ByteArray.size_empty] at hinto
  rw [hinto] at hread hleft
  rw [hread] at hwithin
  obtain ⟨-, hresult⟩ := Prod.mk.inj (Except.ok.inj (Except.ok.inj hwithin))
  obtain ⟨rfl, rfl⟩ := Prod.mk.inj hresult
  refine ⟨b', ?_, hleft⟩
  rw [call, hread, pure_bind]
  dsimp only
  -- The array is full where the read succeeds, so the bytes handed over are all of it.
  unfold Input.readExact
  cases hgot : (Input.readFrom wanted .empty i).1 with
  | error e => rfl
  | ok data =>
    have hsize := Input.size_of_readFrom (Prod.ext hgot rfl)
    have hdata := hfront data hgot
    rw [hsize, ByteArray.size_empty, Nat.zero_add, ← harray, ByteArray.extract_zero_size] at hdata
    rw [hdata]
    rfl

theorem shows_call (hb : b.Within .ofSource) (hi : b.Shows i) {chunks : Nat}
    (hchunks : i.source.content.size < chunks) (c : Input.Call) :
    ∃ b', call .ofSource chunks b c = pure (some (i.call c).1, b') ∧ b'.Shows (i.call c).2 := by
  cases c with
  | readExact wanted => exact shows_readExact hb hi chunks wanted
  | readAll =>
    obtain ⟨b', hread, hleft⟩ := shows_readAll hi hchunks
    rw [call, hread]
    exact ⟨b', rfl, hleft⟩
  | seek target =>
    obtain ⟨hplace, hleft⟩ := shows_seek hi target
    refine ⟨_, ?_, hleft⟩
    show pure (some (Input.Answer.place (seek .ofSource b target).1), _) = _
    rw [hplace]
    rfl
  | seekTo place =>
    obtain ⟨b', hseek, hleft⟩ := shows_seekTo hb hi place
    rw [call, hseek]
    exact ⟨b', rfl, hleft⟩
  | position =>
    obtain ⟨b', htell, hleft⟩ := shows_position hb hi
    rw [call, htell]
    exact ⟨b', rfl, hleft⟩

theorem shows_run (hb : b.Within .ofSource) (hi : b.Shows i) {chunks : Nat}
    (hchunks : i.source.content.size < chunks) (calls : List Input.Call) :
    ∃ b', run .ofSource chunks b calls = pure ((i.run calls).1, b') ∧ b'.Shows (i.run calls).2 := by
  induction calls generalizing b i with
  | nil => exact ⟨b, rfl, hi⟩
  | cons c calls ih =>
    obtain ⟨b', hcall, hnext⟩ := shows_call hb hi hchunks c
    obtain ⟨answer, b'', hwithin, hb'⟩ := within_call hb chunks c
    rw [hcall] at hwithin
    obtain ⟨-, rfl⟩ := Prod.mk.inj (Except.ok.inj (Except.ok.inj hwithin))
    have hsame := Input.same_call (hi.inRange hb) c
    obtain ⟨last, hrun, hlast⟩ := ih hb' hnext (hsame.content ▸ hchunks)
    rw [run, hcall, pure_bind]
    dsimp only
    rw [hrun, pure_bind]
    exact ⟨last, rfl, hlast⟩

/-- **A buffer keeps within its cells and its device**, whatever is called and however the device
answers: it may hand over any bytes, or fewer than it was asked for, refuse what it likes and go
anywhere when it is told to, as long as it says how far it moved.  No difference is below zero and no
slice is out of range, so the machine does not halt, not even in a reading of everything that never
comes to an end.

Over a source, the buffer answers every call as an input does, and its filled cells are the block. -/
theorem run_within_device :
    (∀ {σ : Type} (d : Device σ) (s : σ) (chunks : Nat) (calls : List Input.Call),
      ∃ answers b, run d chunks (fresh s) calls = pure (answers, b) ∧ b.cells.size = 32768 ∧
        b.taken ≤ b.filled ∧ b.filled ≤ 32768 ∧ b.filled - b.taken ≤ d.place b.device) ∧
    ∀ (source : Source) (calls : List Input.Call),
      ∃ b, run .ofSource (source.content.size + 1) (fresh source) calls =
          pure (((⟨source, .empty, 0⟩ : Input).run calls).1, b) ∧
        b.Shows ((⟨source, .empty, 0⟩ : Input).run calls).2 := by
  refine ⟨fun {σ} d s chunks calls => ?_, fun source calls => ?_⟩
  · have hfresh : (fresh s).Within d := within_fresh s
    obtain ⟨answers, b, hrun, hb⟩ := within_run hfresh chunks calls
    have hplace := hb.filled_le_place
    exact ⟨answers, b, hrun, hb.cells_size, hb.taken_le, hb.filled_le, by omega⟩
  · exact shows_run (within_fresh source) (shows_empty source _) (Nat.lt_succ_self _) calls

end Buffer

end Machine

end IsoMedia
