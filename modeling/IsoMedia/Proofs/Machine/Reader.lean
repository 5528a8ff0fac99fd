import IsoMedia.Bytes.Cursor
import IsoMedia.Proofs.Machine.Word

/-!
# Reading fields on a machine

A `ByteReader` keeps all the bytes and the place where it stands in them; the fields from there on are
found by slices and indices, and its place is a word.  `Follows` says that a computation on the
machine reads as one on a cursor does, without a fault, and goes on where that does.  It is kept by
putting computations together (`Follows.bind`), so it is enough to prove it of the steps in which a
field is found (`follows_bytes`).
-/

namespace IsoMedia.Machine

/-- What is held in memory takes fewer than `2 ^ 63` bytes, and so do a run of bytes and any text
decoded from it, which is at most three times as long. -/
def Addressable (bytes : List UInt8) : Prop := 3 * bytes.length < 2 ^ 63

theorem Addressable.length_lt {bytes : List UInt8} (h : Addressable bytes) :
    bytes.length < 2 ^ 64 := by
  unfold Addressable at h
  omega

theorem Addressable.of_length_le {bytes part : List UInt8} (h : Addressable bytes)
    (hle : part.length ≤ bytes.length) : Addressable part := by
  unfold Addressable at *
  omega

theorem Addressable.drop {bytes : List UInt8} (h : Addressable bytes) (n : Nat) :
    Addressable (bytes.drop n) :=
  h.of_length_le (List.drop_sublist n bytes).length_le

/-- A place in a run of bytes. -/
structure ByteReader where
  data : List UInt8
  pos : Nat

namespace ByteReader

/-- What is left to read and where, as a cursor has it. -/
def cursor (r : ByteReader) : Cursor := ⟨r.data.drop r.pos, r.pos⟩

/-- The place lies within the bytes, and all places are words. -/
structure Sound (r : ByteReader) : Prop where
  pos_le : r.pos ≤ r.data.length
  addressable : Addressable r.data

end ByteReader

/-- Reading fields one after the other. -/
abbrev Scan (α : Type) := StateT ByteReader Machine α

namespace Scan

variable {α : Type}

/-- Read from where a reader stands and give up the place. -/
def readFrom (q : Scan α) (r : ByteReader) : Machine α := do
  return (← q.run r).1

/-- Read a whole run of bytes from its start. -/
def parse (q : Scan α) (bs : List UInt8) : Machine α := q.readFrom ⟨bs, 0⟩

/-- Replace whatever error of `q` by `e`; a machine that halts stays halted. -/
def orRefuse (q : Scan α) (e : Error) : Scan α := fun r => tryCatch (q r) fun _ => throw e

/-- How many bytes are left. -/
def left : Scan Nat := do
  let r ← get
  sub r.data.length r.pos

def atEnd : Scan Bool := do
  return (← left) = 0

/-- All bytes from here on, left unread. -/
def rest : Scan (List UInt8) := do
  let r ← get
  slice r.data r.pos r.data.length

/-- The next `n` bytes. -/
def bytes (n : Nat) : Scan (List UInt8) := do
  let r ← get
  let left ← left
  if left < n then throw (.invalidData (.readPastEnd r.pos n left))
  else
    let stop ← add 64 r.pos n
    let taken ← slice r.data r.pos stop
    set { r with pos := stop }
    return taken

def skip (n : Nat) : Scan Unit := do
  let _ ← bytes n

/-- The next `n` bytes as one number. -/
def number (n : Nat) : Scan Nat := do
  return bigEndian (← slice (← bytes n) 0 n)

def u8 : Scan UInt8 := do item (← bytes 1) 0
def u16 : Scan UInt16 := do return UInt16.ofNat (← number 2)
def u32 : Scan UInt32 := do return UInt32.ofNat (← number 4)
def u64 : Scan UInt64 := do return UInt64.ofNat (← number 8)
def i16 : Scan Int16 := do return (← u16).toInt16
def i32 : Scan Int32 := do return (← u32).toInt32
def i64 : Scan Int64 := do return (← u64).toInt64

def fourCc : Scan FourCc := do
  let bs ← bytes 4
  return ⟨← item bs 0, ← item bs 1, ← item bs 2, ← item bs 3⟩

def versionFlags : Scan VersionFlags := do
  let v ← u32
  let version ← shiftRight 32 v.toNat 24
  return ⟨UInt8.ofNat version, v &&& 0x00FFFFFF⟩

/-- `n` rows of the same form. -/
def rows (row : Scan α) : Nat → Scan (List α)
  | 0 => return []
  | n + 1 => do
    let a ← row
    return a :: (← rows row n)

/-- Refuse a declared number of entries that the bytes left cannot hold. -/
def roomFor (table : FourCc) (count width : Nat) : Scan Unit := do
  let left ← left
  if (← div left width) < count then throw (.invalidData (.entryCount table count left))
  else return ()

/-- A declared number of rows of `width` bytes each. -/
def table (name : FourCc) (width : Nat) (row : Scan α) : Scan (List α) := do
  let count := (← u32).toNat
  roomFor name count width
  rows row count

end Scan

/-! ### Reading as a cursor does -/

variable {α β : Type}

/-- Wherever it starts, `q` reads what `p` reads and goes on at the same place within the bytes, or
fails with the same error. -/
def Follows (q : Scan α) (p : Decode α) : Prop :=
  ∀ r : ByteReader, r.Sound →
    (∃ e, p r.cursor = .error e ∧ q r = of (.error e)) ∨
      ∃ a stop, stop ≤ r.data.length ∧ p r.cursor = .ok (a, ByteReader.cursor ⟨r.data, stop⟩) ∧
        q r = of (.ok (a, ⟨r.data, stop⟩))

/-- A whole run of bytes is read from its start. -/
theorem parse_eq (p : Decode α) (bs : List UInt8) :
    p.parse bs = (p.run (ByteReader.cursor ⟨bs, 0⟩)).map Prod.fst := by
  show p.parse bs = (p.run ⟨bs, 0⟩).map Prod.fst
  unfold Decode.parse
  cases p.run ⟨bs, 0⟩ <;> rfl

namespace Follows

protected theorem pure (a : α) : Follows (pure a) (pure a) :=
  fun r hr => .inr ⟨a, r.pos, hr.pos_le, rfl, rfl⟩

protected theorem throw (e : Error) : Follows (throw e : Scan α) (Decode.refuse e) :=
  fun _ _ => .inl ⟨e, rfl, rfl⟩

/-- What is known of every value that is read may be used for what follows. -/
theorem bind_of {q : Scan α} {p : Decode α} {k : α → Scan β} {f : α → Decode β} (h : Follows q p)
    {P : α → Prop} (hP : ∀ {c a c'}, p c = .ok (a, c') → P a) (hk : ∀ a, P a → Follows (k a) (f a)) :
    Follows (q >>= k) (p >>= f) := by
  intro r hr
  rcases h r hr with ⟨e, hp, hq⟩ | ⟨a, stop, hstop, hp, hq⟩
  · refine .inl ⟨e, ?_, ?_⟩
    · show Except.bind (p r.cursor) _ = _
      rw [hp]
      rfl
    · show (q r >>= fun x => k x.1 x.2) = _
      rw [hq]
      rfl
  · have ha : P a := hP hp
    have hp : (p >>= f) r.cursor = f a (ByteReader.cursor ⟨r.data, stop⟩) := by
      show Except.bind (p r.cursor) _ = _
      rw [hp]
      rfl
    have hq : (q >>= k) r = k a ⟨r.data, stop⟩ := by
      show (q r >>= fun x => k x.1 x.2) = _
      rw [hq]
      rfl
    rw [hp, hq]
    exact hk a ha ⟨r.data, stop⟩ ⟨hstop, hr.addressable⟩

theorem bind {q : Scan α} {p : Decode α} {k : α → Scan β} {f : α → Decode β} (h : Follows q p)
    (hk : ∀ a, Follows (k a) (f a)) : Follows (q >>= k) (p >>= f) :=
  h.bind_of (P := fun _ => True) (fun _ => trivial) fun a _ => hk a

theorem map {q : Scan α} {p : Decode α} (h : Follows q p) (g : α → β) :
    Follows (g <$> q) (g <$> p) := by
  rw [map_eq_pure_bind, map_eq_pure_bind]
  exact h.bind fun a => .pure (g a)

theorem ite {c : Prop} [Decidable c] {q q' : Scan α} {p p' : Decode α} (h : c → Follows q p)
    (h' : ¬ c → Follows q' p') : Follows (if c then q else q') (if c then p else p') := by
  split
  · exact h ‹_›
  · exact h' ‹_›

/-- Fields that are read under a condition, and those behind them. -/
theorem optional {c : Prop} [Decidable c] {q : Scan Unit} {p : Decode Unit} {k : Scan α}
    {f : Decode α} (h : Follows q p) (hk : Follows k f) :
    Follows (if c then q >>= fun _ => k else k) (if c then p >>= fun _ => f else f) :=
  .ite (fun _ => h.bind fun _ => hk) fun _ => hk

/-- A step of the machine that does not halt has no bearing on what is read. -/
protected theorem step {m : Machine α} {a : α} {k : α → Scan β} {p : Decode β} (hm : m = pure a)
    (h : Follows (k a) p) : Follows (liftM m >>= k) p := by
  rw [hm]
  exact h

/-- A last step of the machine that does not halt. -/
protected theorem last {m : Machine α} {a : α} (hm : m = pure a) :
    Follows (liftM m) (pure a) := by
  rw [hm]
  exact .pure a

/-- What would follow a refusal has no bearing. -/
theorem throw_bind (e : Error) (f : α → Decode β) :
    Follows (throw e : Scan β) (Decode.refuse e >>= f) :=
  fun _ _ => .inl ⟨e, rfl, rfl⟩

theorem orRefuse {q : Scan α} {p : Decode α} (h : Follows q p) (e : Error) :
    Follows (q.orRefuse e) (p.orRefuse e) := by
  intro r hr
  unfold Scan.orRefuse Decode.orRefuse
  rcases h r hr with ⟨e', hp, hq⟩ | ⟨a, stop, hstop, hp, hq⟩
  · rw [hp, hq]
    exact .inl ⟨e, rfl, rfl⟩
  · rw [hp, hq]
    exact .inr ⟨a, stop, hstop, rfl, rfl⟩

theorem parse {q : Scan α} {p : Decode α} (h : Follows q p) {bs : List UInt8}
    (hbs : Addressable bs) : q.parse bs = of (p.parse bs) := by
  rw [parse_eq]
  show (q ⟨bs, 0⟩ >>= fun x => pure x.1) = of (Except.map Prod.fst (p (ByteReader.cursor ⟨bs, 0⟩)))
  rcases h ⟨bs, 0⟩ ⟨Nat.zero_le _, hbs⟩ with ⟨e, hp, hq⟩ | ⟨a, stop, -, hp, hq⟩ <;>
  · rw [hq, hp]
    rfl

end Follows

/-- A reader at the place where a computation leaves it goes on as a cursor does. -/
theorem Follows.run_bind {q : Scan α} {p : Decode α} (h : Follows q p) {r : ByteReader}
    (hr : r.Sound) {k : α × ByteReader → Machine β} {f : α × Cursor → Checked β}
    (hk : ∀ a stop, p r.cursor = .ok (a, ByteReader.cursor ⟨r.data, stop⟩) →
      ByteReader.Sound ⟨r.data, stop⟩ →
        Computes (k (a, ⟨r.data, stop⟩)) (f (a, ByteReader.cursor ⟨r.data, stop⟩))) :
    Computes (q.run r >>= k) (Checked.ofExcept (p.run r.cursor) >>= f) := by
  rcases h r hr with ⟨e, hp, hq⟩ | ⟨a, stop, hstop, hp, hq⟩
  · rw [StateT.run, StateT.run, hp, hq]
    exact .throw e
  · rw [StateT.run, StateT.run, hp, hq]
    exact hk a stop hp ⟨hstop, hr.addressable⟩

/-! ### The bytes behind the fields -/

theorem decode_bind_eq_ok {p : Decode α} {f : α → Decode β} {c c' : Cursor} {b : β}
    (h : (p >>= f) c = .ok (b, c')) : ∃ a c₁, p c = .ok (a, c₁) ∧ f a c₁ = .ok (b, c') := by
  obtain ⟨⟨a, c₁⟩, hp, hf⟩ := bind_eq_ok_iff.1 (show p c >>= (fun x => f x.1 x.2) = _ from h)
  exact ⟨a, c₁, hp, hf⟩

theorem parse_eq_ok {p : Decode α} {bs : List UInt8} {a : α} (h : p.parse bs = .ok a) :
    ∃ c, p ⟨bs, 0⟩ = .ok (a, c) := by
  unfold Decode.parse at h
  rcases hrun : p.run ⟨bs, 0⟩ with e | ⟨a', c⟩
  · rw [hrun] at h
    cases h
  · rw [hrun] at h
    cases h
    exact ⟨c, hrun⟩

/-- The last part of what `p` reads is all that is left behind its fields. -/
def EndsIn (inner : α → List UInt8) (p : Decode α) : Prop :=
  ∀ c a c', p c = .ok (a, c') → inner a = c'.rest

namespace EndsIn

variable {inner : β → List UInt8}

theorem bind {p : Decode α} {f : α → Decode β} (h : ∀ a, EndsIn inner (f a)) :
    EndsIn inner (p >>= f) := by
  intro c b c' hp
  obtain ⟨a, c₁, -, hf⟩ := decode_bind_eq_ok hp
  exact h a _ _ _ hf

theorem rest {g : List UInt8 → β} (h : ∀ bs, inner (g bs) = bs) :
    EndsIn inner (Decode.rest >>= fun bs => pure (g bs)) := by
  rintro c _ c' ⟨⟩
  exact h c.rest

theorem ite {c : Prop} [Decidable c] {p p' : Decode β} (h : EndsIn inner p)
    (h' : EndsIn inner p') : EndsIn inner (if c then p else p') := by
  split
  · exact h
  · exact h'

end EndsIn

/-- Bytes behind the fields are addressable as all bytes are. -/
theorem Follows.readFrom_bind {q : Scan α} {p : Decode α} (h : Follows q p)
    {inner : α → List UInt8} (hinner : EndsIn inner p) {r : ByteReader} (hr : r.Sound)
    {k : α → Machine β} {f : α → Checked β}
    (hk : ∀ a, Addressable (inner a) → Computes (k a) (f a)) :
    Computes (q.readFrom r >>= k) (Checked.ofExcept ((p.run r.cursor).map Prod.fst) >>= f) := by
  have hrun : Computes (q.run r >>= fun x => k x.1)
      (Checked.ofExcept (p.run r.cursor) >>= fun x => f x.1) := by
    refine h.run_bind hr fun a stop hp hstop => hk a ?_
    have hrest : inner a = r.data.drop stop := hinner _ _ _ hp
    rw [hrest]
    exact hr.addressable.drop stop
  have hq : q.readFrom r >>= k = q.run r >>= fun x => k x.1 := by
    rw [Scan.readFrom, bind_assoc]
    rfl
  have hp : (Checked.ofExcept ((p.run r.cursor).map Prod.fst) >>= f).result =
      (Checked.ofExcept (p.run r.cursor) >>= fun x => f x.1).result := by
    cases p.run r.cursor <;> rfl
  unfold Computes at *
  rw [hq, hp, hrun]

/-! ### Finding a field -/

open Scan

variable {r : ByteReader}

theorem ByteReader.Sound.length_lt (hr : r.Sound) : r.data.length < 2 ^ 64 :=
  hr.addressable.length_lt

@[simp] theorem ByteReader.length_rest_cursor (r : ByteReader) :
    r.cursor.rest.length = r.data.length - r.pos := List.length_drop

theorem step_apply (m : Machine α) (k : α → Scan β) (r : ByteReader) :
    (liftM m >>= k) r = m >>= fun a => k a r := by
  cases m with
  | error fault => rfl
  | ok outcome => cases outcome <;> rfl

theorem left_eq (hr : r.Sound) : left r = pure (r.data.length - r.pos, r) := by
  show (sub r.data.length r.pos >>= fun n => pure (n, r)) = _
  rw [sub_eq hr.pos_le]
  rfl

theorem follows_left : Follows left Decode.left := by
  intro r hr
  refine .inr ⟨r.data.length - r.pos, r.pos, hr.pos_le, ?_, left_eq hr⟩
  rw [← r.length_rest_cursor]
  rfl

theorem follows_atEnd : Follows atEnd Decode.atEnd := by
  intro r hr
  refine .inr ⟨r.cursor.rest.isEmpty, r.pos, hr.pos_le, rfl, ?_⟩
  have hempty : r.cursor.rest.isEmpty = decide (r.data.length - r.pos = 0) := by
    rw [Bool.eq_iff_iff, decide_eq_true_iff, List.isEmpty_iff_length_eq_zero, r.length_rest_cursor]
  show (left r >>= fun x => pure (decide (x.1 = 0), x.2)) = _
  rw [left_eq hr, hempty]
  rfl

/-- The bytes left are addressable as all bytes are. -/
theorem Follows.rest {k : List UInt8 → Scan β} {f : List UInt8 → Decode β}
    (hk : ∀ bs, Addressable bs → Follows (k bs) (f bs)) :
    Follows (Scan.rest >>= k) (Decode.rest >>= f) := by
  intro r hr
  have hrest : (Scan.rest >>= k) r = k (r.data.drop r.pos) r := by
    show ((slice r.data r.pos r.data.length >>= fun bs => pure (bs, r)) >>= fun x => k x.1 x.2) = _
    rw [slice_to_end hr.pos_le]
    rfl
  rw [hrest]
  exact hk _ (hr.addressable.drop r.pos) r hr

/-- **The next bytes are found by a slice that lies within the bytes**, or not looked for. -/
theorem bytes_eq (hr : r.Sound) (n : Nat) :
    bytes n r =
      if r.data.length - r.pos < n then
        throw (.invalidData (.readPastEnd r.pos n (r.data.length - r.pos)))
      else pure ((r.data.drop r.pos).take n, ⟨r.data, r.pos + n⟩) := by
  have hstart : bytes n r = left r >>= fun x =>
      (if x.1 < n then throw (.invalidData (.readPastEnd r.pos n x.1))
      else do
        let stop ← add 64 r.pos n
        let taken ← slice r.data r.pos stop
        set { r with pos := stop }
        return taken : Scan _) x.2 := rfl
  rw [hstart, left_eq hr, pure_bind]
  split
  · rfl
  · rename_i hroom
    have hpos := hr.pos_le
    have hadd : add 64 r.pos n = pure (r.pos + n) := add_eq (by have := hr.length_lt; omega)
    have hslice : slice r.data r.pos (r.pos + n) = pure ((r.data.drop r.pos).take n) := by
      rw [slice_eq (Nat.le_add_right _ _) (by omega), List.drop_take, Nat.add_sub_cancel_left]
    rw [step_apply, hadd, pure_bind, step_apply, hslice, pure_bind]
    rfl

theorem follows_bytes (n : Nat) : Follows (bytes n) (Decode.bytes n) := by
  intro r hr
  have hlength : (r.cursor.rest.take n).length = n ↔ ¬ r.data.length - r.pos < n := by
    rw [List.length_take, r.length_rest_cursor]
    omega
  rw [bytes_eq hr]
  by_cases hroom : r.data.length - r.pos < n
  · rw [if_pos hroom]
    refine .inl ⟨_, ?_, rfl⟩
    show (if _ then _ else _) = _
    rw [if_neg fun h => hlength.1 h hroom, r.length_rest_cursor]
    rfl
  · rw [if_neg hroom]
    refine .inr ⟨_, r.pos + n, by have := hr.pos_le; omega, ?_, rfl⟩
    show (if _ then _ else _) = _
    rw [if_pos (hlength.2 hroom)]
    show Except.ok (_, Cursor.mk ((r.data.drop r.pos).drop n) (r.pos + n)) = _
    rw [List.drop_drop]
    rfl

/-- As many bytes are read as were asked for. -/
theorem length_of_bytes {n : Nat} {c c' : Cursor} {bs : List UInt8}
    (h : Decode.bytes n c = .ok (bs, c')) : bs.length = n := by
  simp only [Decode.bytes] at h
  split at h
  · cases h
    assumption
  · cases h

theorem of_orRefuse {p : Decode α} {e : Error} {c : Cursor} {x : α × Cursor}
    (h : p.orRefuse e c = .ok x) : p c = .ok x := by
  unfold Decode.orRefuse at h
  split at h
  · rename_i hp
    rw [hp, h]
  · cases h

theorem follows_skip (n : Nat) : Follows (skip n) (Decode.skip n) :=
  (follows_bytes n).bind fun _ => .pure ()

/-- A number is found in a slice of all the bytes that were taken for it. -/
theorem follows_number (n : Nat) : Follows (number n) (Decode.number n) :=
  (follows_bytes n).bind_of length_of_bytes fun _ hbs => .step (slice_all hbs) (.pure _)

theorem follows_u8 : Follows u8 Decode.u8 := by
  have hp : Decode.u8 = Decode.bytes 1 >>= fun bs => pure (UInt8.ofNat (bigEndian bs)) := by
    simp only [Decode.u8, Decode.number, bind_assoc, pure_bind]
  rw [hp]
  refine (follows_bytes 1).bind_of length_of_bytes fun bs hbs => ?_
  obtain ⟨b, rfl⟩ := List.length_eq_one_iff.1 hbs
  have hb : UInt8.ofNat (bigEndian [b]) = b := by simp [bigEndian]
  rw [hb]
  exact .pure b

theorem follows_u16 : Follows u16 Decode.u16 := (follows_number 2).bind fun _ => .pure _

theorem follows_u32 : Follows u32 Decode.u32 := (follows_number 4).bind fun _ => .pure _

theorem follows_u64 : Follows u64 Decode.u64 := (follows_number 8).bind fun _ => .pure _

theorem follows_i16 : Follows i16 Decode.i16 := follows_u16.bind fun _ => .pure _

theorem follows_i32 : Follows i32 Decode.i32 := follows_u32.bind fun _ => .pure _

theorem follows_i64 : Follows i64 Decode.i64 := follows_u64.bind fun _ => .pure _

/-- The four bytes of a type code are there to be indexed. -/
theorem follows_fourCc : Follows fourCc Decode.fourCc := by
  refine (follows_bytes 4).bind_of length_of_bytes fun bs hbs => ?_
  match bs, hbs with
  | [a, b, c, d], _ => exact .pure _

theorem follows_versionFlags : Follows versionFlags Decode.versionFlags := by
  refine follows_u32.bind fun v => .step (shiftRight_eq (by decide)) ?_
  have hversion : UInt8.ofNat (v.toNat / 2 ^ 24) = (v >>> 24).toUInt8 := by
    apply UInt8.toNat_inj.1
    simp [Nat.shiftRight_eq_div_pow]
  rw [hversion]
  exact .pure _

/-! ### Rows -/

theorem rowsFrom_succ (row : Decode α) (n : Nat) (acc : List α) :
    Decode.rowsFrom row (n + 1) acc = row >>= fun a => Decode.rowsFrom row n (a :: acc) := by
  funext c
  show _ = Except.bind (row c) _
  rw [Decode.rowsFrom]
  cases row c <;> rfl

/-- The rows are gathered in reverse on the one side and in order on the other. -/
theorem follows_rowsFrom {q : Scan α} {p : Decode α} (h : Follows q p) (n : Nat) (acc : List α) :
    Follows ((acc.reverse ++ ·) <$> rows q n) (Decode.rowsFrom p n acc) := by
  induction n generalizing acc with
  | zero =>
    show Follows (pure (acc.reverse ++ [])) (pure acc.reverse)
    rw [List.append_nil]
    exact .pure _
  | succ n ih =>
    have hrows : (acc.reverse ++ ·) <$> rows q (n + 1) =
        q >>= fun a => ((a :: acc).reverse ++ ·) <$> rows q n := by
      simp only [rows, map_eq_pure_bind, bind_assoc, pure_bind, List.reverse_cons,
        List.append_assoc, List.singleton_append]
    rw [hrows, rowsFrom_succ]
    exact h.bind fun a => ih (a :: acc)

theorem follows_rows {q : Scan α} {p : Decode α} (h : Follows q p) (n : Nat) :
    Follows (rows q n) (Decode.rows n p) := by
  have hfrom := follows_rowsFrom h n []
  simp only [List.reverse_nil, List.nil_append, id_map'] at hfrom
  exact hfrom

/-- A table is held against the bytes left in rows of a width, which is not zero. -/
theorem follows_roomFor (name : FourCc) (count : Nat) {width : Nat} (hwidth : 0 < width) :
    Follows (roomFor name count width) (Decode.roomFor name count width) := by
  have hp : Decode.roomFor name count width = Decode.left >>= fun left =>
      if left / width < count then Decode.refuse (.invalidData (.entryCount name count left))
      else pure () := by
    funext c
    show _ = (if c.rest.length / width < count then
      Decode.refuse (.invalidData (.entryCount name count c.rest.length)) else pure ()) c
    unfold Decode.roomFor
    dsimp only
    split <;> rfl
  rw [hp]
  exact follows_left.bind fun left =>
    .step (div_eq hwidth) (.ite (fun _ => .throw _) fun _ => .pure ())

theorem follows_table (name : FourCc) {width : Nat} (hwidth : 0 < width) {q : Scan α}
    {p : Decode α} (h : Follows q p) : Follows (table name width q) (Decode.table name width p) :=
  follows_u32.bind fun count => (follows_roomFor name count.toNat hwidth).bind fun _ =>
    follows_rows h count.toNat

end IsoMedia.Machine
