import IsoMedia.Proofs.Bytes.Fields
import Mathlib.Data.Nat.Digits.Defs

/-!
# Fields and rows by their places

What is read one field after the other is found in the bytes by its place: a field by where it starts
(`bytesAt`), a row by its number (`RowsAt`), and also a field of half a byte (`getElem?_halves`).  A
field is read if its bytes are there (`Decode.bind_field`), and a declared number of rows if there is
room for all of them (`Decode.exists_rows`), so that no row of a table fails once its number was
checked (`Decode.parse_fullTable_of_room`).
-/

namespace IsoMedia

/-- Bytes spell a number with themselves as its digits, the most significant one first. -/
theorem bigEndian_eq_ofDigits (bs : List UInt8) :
    bigEndian bs = Nat.ofDigits 256 (bs.reverse.map UInt8.toNat) := by
  induction bs using List.reverseRecOn with
  | nil => rfl
  | append_singleton bs b ih =>
    rw [bigEndian_concat, List.reverse_concat, List.map_cons, Nat.ofDigits_cons, ih]
    omega

/-- `width` bytes from a place on, or as many of them as there are. -/
def bytesAt (bs : List UInt8) (place width : Nat) : List UInt8 := (bs.drop place).take width

/-- The number that the four bytes at a place spell. -/
def wordAt (bs : List UInt8) (place : Nat) : UInt32 := UInt32.ofNat (bigEndian (bytesAt bs place 4))

/-- From a place on, the bytes are rows of `width` bytes each, and these are what they say. -/
structure RowsAt {α : Type} (bs : List UInt8) (first width : Nat) (value : List UInt8 → α)
    (rows : List α) : Prop where
  inside : first + rows.length * width ≤ bs.length
  row : ∀ i (h : i < rows.length), rows[i] = value (bytesAt bs (first + i * width) width)

theorem bytesAt_append {bs : List UInt8} {place width : Nat} (h : place + width ≤ bs.length)
    (extra : List UInt8) : bytesAt (bs ++ extra) place width = bytesAt bs place width := by
  have hleft : width ≤ (bs.drop place).length := by
    rw [List.length_drop]
    omega
  rw [bytesAt, List.drop_append_of_le_length (by omega), List.take_append_of_le_length hleft,
    bytesAt]

theorem wordAt_append {bs : List UInt8} {place : Nat} (h : place + 4 ≤ bs.length)
    (extra : List UInt8) : wordAt (bs ++ extra) place = wordAt bs place := by
  rw [wordAt, bytesAt_append h, wordAt]

theorem bytesAt_drop (bs : List UInt8) (first place width : Nat) :
    bytesAt (bs.drop first) place width = bytesAt bs (first + place) width := by
  rw [bytesAt, List.drop_drop, bytesAt]

/-- A field that is written behind others is found behind them. -/
theorem bytesAt_flatten (before : List (List UInt8)) (field : List UInt8)
    (after : List (List UInt8)) {place width : Nat} (hplace : before.flatten.length = place)
    (hwidth : field.length = width) :
    bytesAt (before ++ field :: after).flatten place width = field := by
  rw [bytesAt, ← hplace, ← hwidth, List.flatten_append, List.drop_left, List.flatten_cons,
    List.take_left]

theorem drop_flatten (before : List (List UInt8)) (last : List UInt8) {place : Nat}
    (hplace : before.flatten.length = place) : (before ++ [last]).flatten.drop place = last := by
  rw [← hplace, List.flatten_append, List.drop_left, List.flatten_singleton]

theorem bytesAt_zero {bs : List UInt8} {width : Nat} (h : bs.length = width) :
    bytesAt bs 0 width = bs :=
  List.take_of_length_le (Nat.le_of_eq h)

theorem ofNat_bigEndian_numberBytes (n : Nat) :
    UInt32.ofNat (bigEndian (numberBytes 4 n)) = UInt32.ofNat n := by
  rw [bigEndian_numberBytes_mod]
  exact UInt32.ofNat_mod_size

theorem wordAt_flatten (before : List (List UInt8)) (n : Nat) (after : List (List UInt8))
    {place : Nat} (hplace : before.flatten.length = place) :
    wordAt (before ++ numberBytes 4 n :: after).flatten place = UInt32.ofNat n := by
  rw [wordAt, bytesAt_flatten before _ after hplace (length_numberBytes 4 n),
    ofNat_bigEndian_numberBytes]

theorem wordAt_numberBytes (n : Nat) : wordAt (numberBytes 4 n) 0 = UInt32.ofNat n := by
  rw [wordAt, bytesAt_zero (length_numberBytes 4 n), ofNat_bigEndian_numberBytes]

theorem bytesAt_one {bs : List UInt8} {place : Nat} {b : UInt8} (h : bs[place]? = some b) :
    bytesAt bs place 1 = [b] := by
  obtain ⟨hplace, rfl⟩ := List.getElem?_eq_some_iff.1 h
  rw [bytesAt, List.drop_eq_getElem_cons hplace]
  rfl

namespace RowsAt

variable {α : Type} {bs : List UInt8} {first width : Nat} {value : List UInt8 → α} {rows : List α}

theorem unique {rows' : List α} (h : RowsAt bs first width value rows)
    (h' : RowsAt bs first width value rows') (hlength : rows.length = rows'.length) :
    rows = rows' := by
  refine List.ext_getElem hlength fun i hi hi' => ?_
  rw [h.row, h'.row]

theorem append (h : RowsAt bs first width value rows) (extra : List UInt8) :
    RowsAt (bs ++ extra) first width value rows := by
  have hinside := h.inside
  refine ⟨by rw [List.length_append]; omega, fun i hi => ?_⟩
  have hrow : i * width + width ≤ rows.length * width := by
    rw [← Nat.succ_mul]
    exact Nat.mul_le_mul_right width hi
  rw [h.row, bytesAt_append (by omega)]

/-- Rows are found behind a head as they are found in what follows it. -/
theorem of_drop {head : Nat} (hhead : head ≤ bs.length)
    (h : RowsAt (bs.drop head) first width value rows) :
    RowsAt bs (head + first) width value rows := by
  have hinside := h.inside
  rw [List.length_drop] at hinside
  refine ⟨by omega, fun i hi => ?_⟩
  rw [h.row, bytesAt_drop, Nat.add_assoc]

theorem take (h : RowsAt bs first width value rows) (count : Nat) :
    RowsAt bs first width value (rows.take count) := by
  have hcount : (rows.take count).length * width ≤ rows.length * width :=
    Nat.mul_le_mul_right width (List.length_take_le' count rows)
  refine ⟨(Nat.add_le_add_left hcount first).trans h.inside, fun i hi => ?_⟩
  rw [List.getElem_take, h.row]

end RowsAt

/-- Rows that are written one after the other are found as what is read from each. -/
theorem rowsAt_flatMap {α : Type} {width : Nat} {value : List UInt8 → α} {write : α → List UInt8}
    (hlength : ∀ a, (write a).length = width) {as : List α} (hvalue : ∀ a ∈ as, value (write a) = a) :
    RowsAt (as.flatMap write) 0 width value as := by
  have hall : ∀ as : List α, (as.flatMap write).length = as.length * width :=
    Decode.length_flatMap_rows hlength
  refine ⟨by rw [hall, Nat.zero_add], fun i hi => ?_⟩
  have hsplit : as.map write =
      (as.take i).map write ++ write as[i] :: (as.drop (i + 1)).map write := by
    rw [← List.map_cons, ← List.drop_eq_getElem_cons hi, ← List.map_append, List.take_append_drop]
  have hplace : ((as.take i).map write).flatten.length = 0 + i * width := by
    rw [← List.flatMap_def, hall, List.length_take_of_le (Nat.le_of_lt hi), Nat.zero_add]
  rw [List.flatMap_def, hsplit, bytesAt_flatten _ _ _ hplace (hlength _),
    hvalue _ (List.getElem_mem hi)]

/-! ### Halves of bytes -/

/-- The two fields of four bits in a byte. -/
def halves (b : UInt8) : List UInt32 := [(b >>> 4).toUInt32, (b &&& 0x0F).toUInt32]

theorem length_halves (b : UInt8) : (halves b).length = 2 := rfl

theorem getElem?_halves (packed : List UInt8) (place : Nat) :
    (packed.flatMap halves)[place]? = packed[place / 2]?.map fun (b : UInt8) =>
      if place % 2 = 0 then (b >>> 4).toUInt32 else (b &&& 0x0F).toUInt32 := by
  induction packed generalizing place with
  | nil => rfl
  | cons b packed ih =>
    match place with
    | 0 => rfl
    | 1 => rfl
    | place + 2 =>
      have hquotient : (place + 2) / 2 = place / 2 + 1 := by omega
      have hremainder : (place + 2) % 2 = place % 2 := by omega
      rw [hquotient, hremainder, List.getElem?_cons_succ, ← ih]
      rfl

/-- The two numbers in a byte are those that it was made of. -/
theorem halves_of_sum {a b : Nat} (ha : a < 16) (hb : b < 16) :
    halves (UInt8.ofNat (a * 16 + b)) = [UInt32.ofNat a, UInt32.ofNat b] := by
  have hbyte : a * 16 + b < 256 := by omega
  have hsum : (UInt8.ofNat (a * 16 + b)).toNat = a * 16 + b := UInt8.toNat_ofNat_of_lt' hbyte
  have hhigh : (UInt8.ofNat (a * 16 + b) >>> 4).toNat = a := by
    rw [UInt8.toNat_shiftRight, hsum]
    show (a * 16 + b) >>> 4 = a
    rw [Nat.shiftRight_eq_div_pow]
    omega
  have hlow : (UInt8.ofNat (a * 16 + b) &&& 0x0F).toNat = b := by
    rw [UInt8.toNat_and, hsum]
    show (a * 16 + b) &&& (2 ^ 4 - 1) = b
    rw [Nat.and_two_pow_sub_one_eq_mod]
    omega
  rw [halves, ← UInt32.ofNat_uInt8ToNat, ← UInt32.ofNat_uInt8ToNat, hhigh, hlow]

namespace Decode

variable {α β : Type}

/-! ### Fields -/

theorem parse_of_eq_ok {p : Decode α} {bs : List UInt8} {a : α} {c : Cursor}
    (h : p ⟨bs, 0⟩ = .ok (a, c)) : p.parse bs = .ok a := by
  rw [parse, StateT.run, h]

theorem bind_of_eq_ok {p : Decode α} {a : α} {c c' : Cursor} (h : p c = .ok (a, c'))
    (k : α → Decode β) : (p >>= k) c = k a c' := by
  show Except.bind (p c) _ = _
  rw [h]
  rfl

/-- What is made of the next `n` bytes is there if they are, and what follows goes on behind them. -/
theorem bind_field (f : List UInt8 → α) (k : α → Decode β) (n : Nat) (bs : List UInt8) (pos : Nat) :
    ((f <$> bytes n) >>= k) ⟨bs, pos⟩ =
      if n ≤ bs.length then k (f (bs.take n)) ⟨bs.drop n, pos + n⟩
      else malformed (.readPastEnd pos n bs.length) := by
  show Except.bind (Except.bind (bytes n ⟨bs, pos⟩) _) _ = _
  unfold bytes
  dsimp only
  by_cases hn : n ≤ bs.length
  · rw [if_pos (List.length_take_of_le hn), if_pos hn]
    rfl
  · have hshort : (bs.take n).length ≠ n := by
      rw [List.length_take]
      omega
    rw [if_neg hshort, if_neg hn]
    rfl

/-- A field that is there is what is made of the bytes at its place. -/
theorem bind_fieldAt (f : List UInt8 → α) (k : α → Decode β) {bs : List UInt8} {place n : Nat}
    (h : place + n ≤ bs.length) (pos : Nat) :
    ((f <$> bytes n) >>= k) ⟨bs.drop place, pos⟩ =
      k (f (bytesAt bs place n)) ⟨bs.drop (place + n), pos + n⟩ := by
  have hn : n ≤ (bs.drop place).length := by
    rw [List.length_drop]
    omega
  rw [bind_field, if_pos hn, List.drop_drop, bytesAt]

/-- The next `n` bytes, with a reason of one's own for their lack. -/
theorem bind_bytes_orRefuse (e : Error) (k : List UInt8 → Decode β) (n : Nat) (bs : List UInt8)
    (pos : Nat) :
    ((bytes n).orRefuse e >>= k) ⟨bs, pos⟩ =
      if n ≤ bs.length then k (bs.take n) ⟨bs.drop n, pos + n⟩ else .error e := by
  show Except.bind ((bytes n).orRefuse e ⟨bs, pos⟩) _ = _
  unfold orRefuse bytes
  dsimp only
  by_cases hn : n ≤ bs.length
  · rw [if_pos (List.length_take_of_le hn), if_pos hn]
    rfl
  · have hshort : (bs.take n).length ≠ n := by
      rw [List.length_take]
      omega
    rw [if_neg hshort, if_neg hn]
    rfl

theorem skip_eq (n : Nat) : skip n = (fun _ => ()) <$> bytes n := rfl

theorem number_eq (n : Nat) : number n = bigEndian <$> bytes n := rfl

theorem u8_eq : u8 = (fun bs => UInt8.ofNat (bigEndian bs)) <$> bytes 1 := by
  rw [u8, number_eq]
  simp

theorem u32_eq : u32 = (fun bs => UInt32.ofNat (bigEndian bs)) <$> bytes 4 := by
  rw [u32, number_eq]
  simp

theorem versionFlags_eq : ∃ f : List UInt8 → VersionFlags, versionFlags = f <$> bytes 4 :=
  ⟨_, by rw [versionFlags, u32_eq, bind_pure_comp, Functor.map_map]⟩

/-- With fewer than `n` bytes left there is a failure. -/
def Needs (p : Decode α) (n : Nat) : Prop :=
  ∀ bs pos, bs.length < n → ∃ e, p ⟨bs, pos⟩ = .error e

theorem needs_zero (p : Decode α) : Needs p 0 := fun _ _ h => absurd h (Nat.not_lt_zero _)

/-- A field adds its bytes to those that are needed behind it. -/
theorem Needs.field {k : α → Decode β} {m : Nat} (h : ∀ a, Needs (k a) m) (f : List UInt8 → α)
    (n : Nat) : Needs ((f <$> bytes n) >>= k) (n + m) := by
  intro bs pos hshort
  rw [bind_field]
  by_cases hn : n ≤ bs.length
  · rw [if_pos hn]
    exact h _ _ _ (by rw [List.length_drop]; omega)
  · rw [if_neg hn]
    exact ⟨_, rfl⟩

theorem needs_fullBox {k : VersionFlags → Decode β} {m : Nat} (h : ∀ f, Needs (k f) m) :
    Needs (versionFlags >>= k) (4 + m) := by
  obtain ⟨f, hf⟩ := versionFlags_eq
  rw [hf]
  exact .field h f 4

theorem Needs.parse {p : Decode α} {n : Nat} (h : Needs p n) {bs : List UInt8}
    (hshort : bs.length < n) : ∃ e, p.parse bs = .error e := by
  obtain ⟨e, he⟩ := h bs 0 hshort
  exact ⟨e, by rw [Decode.parse, StateT.run, he]⟩

/-! ### Rows -/

theorem length_of_mem_cut {width count : Nat} {bs c : List UInt8} (h : count * width ≤ bs.length)
    (hc : c ∈ cut (List.replicate count width) bs) : c.length = width := by
  induction count generalizing bs with
  | zero => cases hc
  | succ count ih =>
    rw [Nat.succ_mul] at h
    rcases List.mem_cons.1 hc with rfl | hc
    · rw [List.length_take]
      omega
    · exact ih (by rw [List.length_drop]; omega) hc

theorem length_cut (widths : List Nat) (bs : List UInt8) :
    (cut widths bs).length = widths.length := by
  induction widths generalizing bs with
  | nil => rfl
  | cons width widths ih => rw [cut, List.length_cons, List.length_cons, ih]

theorem getElem_cut {width count : Nat} {bs : List UInt8} {i : Nat}
    (h : i < (cut (List.replicate count width) bs).length) :
    (cut (List.replicate count width) bs)[i] = bytesAt bs (i * width) width := by
  induction count generalizing bs i with
  | zero => cases h
  | succ count ih =>
    cases i with
    | zero =>
      rw [Nat.zero_mul]
      rfl
    | succ i =>
      have hrow := @ih (bs.drop width) i (Nat.lt_of_succ_lt_succ h)
      rw [bytesAt_drop, Nat.add_comm, ← Nat.succ_mul] at hrow
      exact hrow

theorem rowsAt_cut {width count : Nat} {bs : List UInt8} (h : count * width ≤ bs.length)
    (value : List UInt8 → α) :
    RowsAt bs 0 width value ((cut (List.replicate count width) bs).map value) := by
  refine ⟨?_, fun i hi => ?_⟩
  · rw [List.length_map, length_cut, List.length_replicate]
    omega
  · rw [List.getElem_map, getElem_cut, Nat.zero_add]

/-- As many rows as the bytes hold are read as what they say. -/
theorem exists_rows {row : Decode α} {width : Nat} {value : List UInt8 → α}
    (hrow : ∀ bs, bs.length = width → Reads row bs (value bs)) {count : Nat} {bs : List UInt8}
    (h : count * width ≤ bs.length) (pos : Nat) :
    ∃ as c, rows count row ⟨bs, pos⟩ = .ok (as, c) ∧ as.length = count ∧
      RowsAt bs 0 width value as := by
  obtain ⟨taken, rest, rfl, htaken⟩ : ∃ taken rest, bs = taken ++ rest ∧
      taken.length = count * width :=
    ⟨_, _, (List.take_append_drop _ bs).symm, List.length_take_of_le h⟩
  have hrows : List.Forall₂ (Reads row) (cut (List.replicate count width) taken)
      ((cut (List.replicate count width) taken).map value) :=
    List.forall₂_map_right_iff.2
      (List.forall₂_same.2 fun c hc => hrow c (length_of_mem_cut (Nat.le_of_eq htaken.symm) hc))
  have hcount : ((cut (List.replicate count width) taken).map value).length = count := by
    rw [List.length_map, length_cut, List.length_replicate]
  have hread := reads_rowsFrom hrows [] rest pos
  rw [flatten_cut _ (by rw [htaken, List.sum_replicate_nat]), hcount] at hread
  exact ⟨_, _, hread, hcount, (rowsAt_cut (Nat.le_of_eq htaken.symm) value).append rest⟩

/-! ### Tables of rows -/

variable {row : Decode α} {width : Nat} {value : List UInt8 → α}

/-- Behind the head of a table there is the check of its declared number of rows, and then the
rows. -/
theorem fullTable_of_head (name : FourCc) {payload : List UInt8} (h : 8 ≤ payload.length) :
    fullTable name width row ⟨payload, 0⟩ =
      (roomFor name (wordAt payload 4).toNat width >>= fun _ => rows (wordAt payload 4).toNat row)
        ⟨payload.drop 8, 8⟩ := by
  obtain ⟨f, hf⟩ := versionFlags_eq
  show fullTable name width row ⟨payload.drop 0, 0⟩ = _
  rw [fullTable, hf, bind_fieldAt _ _ (by omega), table, u32_eq, bind_fieldAt _ _ (by omega)]
  rfl

theorem needs_fullTable (name : FourCc) : Needs (fullTable name width row) 8 := by
  obtain ⟨f, hf⟩ := versionFlags_eq
  rw [fullTable, hf, table, u32_eq]
  exact .field (fun _ => .field (fun _ => needs_zero _) _ 4) f 4

/-- More rows than the bytes hold are refused before any is read. -/
theorem parse_fullTable_of_crowded (name : FourCc) (hwidth : 0 < width) {payload : List UInt8}
    (h : 8 ≤ payload.length) (hroom : payload.length < 8 + (wordAt payload 4).toNat * width) :
    (fullTable name width row).parse payload =
      malformed (.entryCount name (wordAt payload 4).toNat (payload.length - 8)) := by
  have hcrowded : ¬ (wordAt payload 4).toNat * width ≤ (payload.drop 8).length := by
    rw [List.length_drop]
    omega
  unfold parse
  rw [StateT.run, fullTable_of_head name h, bind_roomFor name hwidth, if_neg hcrowded,
    List.length_drop]

theorem parse_fullTable_of_room (name : FourCc) (hwidth : 0 < width)
    (hrow : ∀ bs, bs.length = width → Reads row bs (value bs)) {payload : List UInt8}
    (hroom : 8 + (wordAt payload 4).toNat * width ≤ payload.length) :
    ∃ as, (fullTable name width row).parse payload = .ok as ∧
      as.length = (wordAt payload 4).toNat ∧ RowsAt payload 8 width value as := by
  have hhead : 8 ≤ payload.length := by omega
  have hroom : (wordAt payload 4).toNat * width ≤ (payload.drop 8).length := by
    rw [List.length_drop]
    omega
  obtain ⟨as, c, hrows, hcount, hat⟩ := exists_rows hrow hroom 8
  have hrun := @fullTable_of_head α row width name payload hhead
  rw [bind_roomFor name hwidth, if_pos hroom, hrows] at hrun
  exact ⟨as, parse_of_eq_ok hrun, hcount, hat.of_drop hhead⟩

end Decode

end IsoMedia
