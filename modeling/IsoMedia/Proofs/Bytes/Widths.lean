import IsoMedia.Proofs.Bytes.Layout

/-!
# Fields of a known width

A computation is `Exact` for a number of bytes if it takes so many, whatever they are, and fails
exactly if fewer are there.  Fields are, and so are fields one after the other (`Decode.Exact.bind`), so
whether a box can be read is decided by how long it is (`Decode.Exact.error_iff`).
-/

namespace IsoMedia.Decode

variable {α β : Type}

/-- `n` bytes are taken, and fewer are refused. -/
structure Exact (p : Decode α) (n : Nat) : Prop where
  takes : ∀ bs pos, n ≤ bs.length → ∃ a, p ⟨bs, pos⟩ = .ok (a, ⟨bs.drop n, pos + n⟩)
  needs : Needs p n

theorem exact_pure (a : α) : Exact (pure a) 0 :=
  ⟨fun _ _ _ => ⟨a, rfl⟩, needs_zero _⟩

theorem exact_bytes (n : Nat) : Exact (bytes n) n := by
  constructor
  · intro bs pos h
    exact ⟨bs.take n, if_pos (List.length_take_of_le h)⟩
  · intro bs pos h
    have hshort : (bs.take n).length ≠ n := by
      rw [List.length_take]
      omega
    exact ⟨_, if_neg hshort⟩

theorem Exact.bind {p : Decode α} {f : α → Decode β} {m n : Nat} (h : Exact p m)
    (hf : ∀ a, Exact (f a) n) : Exact (p >>= f) (m + n) := by
  constructor
  · intro bs pos hlong
    obtain ⟨a, ha⟩ := h.takes bs pos (by omega)
    obtain ⟨b, hb⟩ := (hf a).takes (bs.drop m) (pos + m) (by rw [List.length_drop]; omega)
    rw [List.drop_drop, Nat.add_assoc] at hb
    exact ⟨b, (bind_of_eq_ok ha f).trans hb⟩
  · intro bs pos hshort
    by_cases hm : m ≤ bs.length
    · obtain ⟨a, ha⟩ := h.takes bs pos hm
      obtain ⟨e, he⟩ := (hf a).needs (bs.drop m) (pos + m) (by rw [List.length_drop]; omega)
      exact ⟨e, (bind_of_eq_ok ha f).trans he⟩
    · obtain ⟨e, he⟩ := h.needs bs pos (by omega)
      refine ⟨e, ?_⟩
      show Except.bind (p ⟨bs, pos⟩) _ = _
      rw [he]
      rfl

theorem Exact.map {p : Decode α} {n : Nat} (h : Exact p n) (f : α → β) : Exact (f <$> p) n := by
  rw [map_eq_pure_bind]
  exact h.bind fun a => exact_pure (f a)

theorem exact_skip (n : Nat) : Exact (skip n) n := (exact_bytes n).map fun _ => ()

theorem exact_number (n : Nat) : Exact (number n) n := (exact_bytes n).map bigEndian

theorem exact_u16 : Exact u16 2 := (exact_number 2).map UInt16.ofNat

theorem exact_u32 : Exact u32 4 := (exact_number 4).map UInt32.ofNat

theorem exact_u64 : Exact u64 8 := (exact_number 8).map UInt64.ofNat

theorem exact_i16 : Exact i16 2 := exact_u16.map UInt16.toInt16

theorem exact_i32 : Exact i32 4 := exact_u32.map UInt32.toInt32

theorem exact_i64 : Exact i64 8 := exact_u64.map UInt64.toInt64

/-- Bytes are refused exactly if they are too few. -/
theorem Exact.error_iff {p : Decode α} {n : Nat} (h : Exact p n) {bs : List UInt8} {pos : Nat} :
    (∃ e, p ⟨bs, pos⟩ = .error e) ↔ bs.length < n := by
  constructor
  · rintro ⟨e, he⟩
    by_contra hlong
    obtain ⟨a, ha⟩ := h.takes bs pos (Nat.le_of_not_lt hlong)
    rw [ha] at he
    cases he
  · exact h.needs bs pos

theorem parse_error_iff {p : Decode α} {bs : List UInt8} :
    (∃ e, p.parse bs = .error e) ↔ ∃ e, p ⟨bs, 0⟩ = .error e := by
  unfold parse
  rw [StateT.run]
  cases p ⟨bs, 0⟩ with
  | error e => exact ⟨fun _ => ⟨e, rfl⟩, fun _ => ⟨e, rfl⟩⟩
  | ok r => exact ⟨nofun, nofun⟩

theorem exact_rows {row : Decode α} {width : Nat} (h : Exact row width) (count : Nat) :
    Exact (rows count row) (count * width) := by
  suffices hfrom : ∀ acc, Exact (rowsFrom row count acc) (count * width) from hfrom []
  induction count with
  | zero =>
    intro acc
    rw [Nat.zero_mul]
    exact exact_pure acc.reverse
  | succ count ih =>
    intro acc
    have hstep : rowsFrom row (count + 1) acc = row >>= fun a => rowsFrom row count (a :: acc) := by
      funext c
      show _ = Except.bind (row c) _
      rw [rowsFrom]
      cases row c with
      | error e => rfl
      | ok r => rfl
    rw [hstep, Nat.succ_mul, Nat.add_comm]
    exact h.bind fun a => ih (a :: acc)

/-! ### Widths by version -/

/-- One width for bytes that start with version 1, and another for all others. -/
def widthByVersion (bs : List UInt8) (wide narrow : Nat) : Nat :=
  if bs.head? = some 1 then wide else narrow

theorem widthByVersion_bytes (full : VersionFlags) (rest : List UInt8) (wide narrow : Nat) :
    widthByVersion (full.bytes ++ rest) wide narrow =
      if full.version = 1 then wide else narrow := by
  simp [widthByVersion, VersionFlags.bytes]

/-- If the version says how wide the fields behind it are, then it says how long the box has to be. -/
theorem parse_fullBox_error_iff {k : VersionFlags → Decode α} {width : VersionFlags → Nat}
    {wide narrow : Nat} (h : ∀ f, Exact (k f) (width f))
    (hwidth : ∀ f, 4 + width f = if f.version = 1 then wide else narrow) {payload : List UInt8} :
    (∃ e, (versionFlags >>= k).parse payload = .error e) ↔
      payload.length < widthByVersion payload wide narrow := by
  by_cases hhead : 4 ≤ payload.length
  · obtain ⟨full, rest, hflags, rfl⟩ := VersionFlags.exists_bytes hhead
    rw [parse_error_iff, bind_of_eq_ok (reads_fullHead hflags rest 0), (h full).error_iff,
      widthByVersion_bytes, ← hwidth, List.length_append, VersionFlags.length_bytes]
    omega
  · have hneeds : Needs (versionFlags >>= k) 4 := needs_fullBox fun f => needs_zero (k f)
    have hfour : 4 ≤ widthByVersion payload wide narrow := by
      have hone := hwidth ⟨1, 0⟩
      have hzero := hwidth ⟨0, 0⟩
      rw [if_pos rfl] at hone
      rw [if_neg (by decide)] at hzero
      unfold widthByVersion
      split <;> omega
    exact iff_of_true (hneeds.parse (Nat.lt_of_not_le hhead)) (by omega)

end IsoMedia.Decode
