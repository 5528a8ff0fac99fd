import IsoMedia.Sample.Tables
import Mathlib.Algebra.Ring.Nat
import Mathlib.Data.List.Forall2
import Mathlib.Data.List.Induction

/-!
# Writing fields, and reading them back

`numberBytes` writes a number as big-endian bytes.  A computation `Reads` some bytes as a value if
it does so whatever follows them, so that the laws of reading compose: one field after the other
(`Decode.Reads.bind`), row after row (`Decode.reads_rows`), a whole table
(`Decode.parse_fullTable`).
-/

namespace IsoMedia

/-- The lowest `width` bytes of a number, the most significant byte first. -/
def numberBytes : Nat → Nat → List UInt8
  | 0, _ => []
  | width + 1, n => numberBytes width (n / 256) ++ [UInt8.ofNat n]

@[simp] theorem length_numberBytes (width n : Nat) : (numberBytes width n).length = width := by
  induction width generalizing n with
  | zero => rfl
  | succ width ih => simp [numberBytes, ih]

theorem bigEndian_concat (bs : List UInt8) (b : UInt8) :
    bigEndian (bs ++ [b]) = bigEndian bs * 256 + b.toNat := by
  simp [bigEndian]

theorem bigEndian_singleton (b : UInt8) : bigEndian [b] = b.toNat := Nat.zero_add _

theorem bigEndian_append (as bs : List UInt8) :
    bigEndian (as ++ bs) = bigEndian as * 256 ^ bs.length + bigEndian bs := by
  induction bs using List.reverseRecOn with
  | nil => simp [bigEndian]
  | append_singleton bs b ih =>
    rw [← List.append_assoc, bigEndian_concat, ih, bigEndian_concat, List.length_append,
      List.length_singleton, Nat.pow_succ, Nat.add_mul, Nat.mul_assoc, Nat.add_assoc]

/-- Of a number that is too large for the bytes the high part is lost. -/
theorem bigEndian_numberBytes_mod (width n : Nat) :
    bigEndian (numberBytes width n) = n % 256 ^ width := by
  induction width generalizing n with
  | zero => exact (Nat.mod_one n).symm
  | succ width ih =>
    have hsplit : n % 256 ^ (width + 1) = n % 256 + 256 * (n / 256 % 256 ^ width) := by
      rw [Nat.pow_succ', Nat.mod_mul]
    rw [numberBytes, bigEndian_concat, ih, UInt8.toNat_ofNat', hsplit]
    omega

theorem bigEndian_numberBytes {width n : Nat} (h : n < 256 ^ width) :
    bigEndian (numberBytes width n) = n := by
  rw [bigEndian_numberBytes_mod, Nat.mod_eq_of_lt h]

theorem numberBytes_bigEndian (bs : List UInt8) : numberBytes bs.length (bigEndian bs) = bs := by
  induction bs using List.reverseRecOn with
  | nil => rfl
  | append_singleton bs b ih =>
    have hb := b.toNat_lt
    have hlow : UInt8.ofNat (bigEndian bs * 256 + b.toNat) = b := by
      refine UInt8.toNat_inj.1 ?_
      rw [UInt8.toNat_ofNat']
      omega
    rw [List.length_append, List.length_singleton, numberBytes, bigEndian_concat, hlow,
      show (bigEndian bs * 256 + b.toNat) / 256 = bigEndian bs by omega, ih]

theorem bigEndian_lt (bs : List UInt8) : bigEndian bs < 256 ^ bs.length := by
  induction bs using List.reverseRecOn with
  | nil => exact Nat.one_pos
  | append_singleton bs b ih =>
    have hb := b.toNat_lt
    rw [bigEndian_concat, List.length_append, List.length_singleton, Nat.pow_succ]
    omega

/-- The version and the flags as they stand at the head of a box. -/
def VersionFlags.bytes (f : VersionFlags) : List UInt8 := f.version :: numberBytes 3 f.flags.toNat

@[simp] theorem VersionFlags.length_bytes (f : VersionFlags) : f.bytes.length = 4 := by
  simp [bytes]

/-- Four bytes are a version and flags. -/
theorem VersionFlags.exists_bytes {bs : List UInt8} (h : 4 ≤ bs.length) :
    ∃ (f : VersionFlags) (rest : List UInt8), f.flags.toNat < 2 ^ 24 ∧ bs = f.bytes ++ rest := by
  match bs, h with
  | version :: a :: b :: c :: rest, _ =>
    have hflags : bigEndian [a, b, c] < 256 ^ 3 := bigEndian_lt [a, b, c]
    have hword : (UInt32.ofNat (bigEndian [a, b, c])).toNat = bigEndian [a, b, c] :=
      UInt32.toNat_ofNat_of_lt' (show _ < 2 ^ 32 by omega)
    have hbytes : numberBytes 3 (bigEndian [a, b, c]) = [a, b, c] := numberBytes_bigEndian [a, b, c]
    refine ⟨⟨version, UInt32.ofNat (bigEndian [a, b, c])⟩, rest, by rw [hword]; omega, ?_⟩
    rw [bytes, hword, hbytes]
    rfl

namespace Decode

variable {α β : Type}

/-- Whatever follows the bytes, they are read as the value. -/
def Reads (p : Decode α) (bs : List UInt8) (a : α) : Prop :=
  ∀ rest pos, p ⟨bs ++ rest, pos⟩ = .ok (a, ⟨rest, pos + bs.length⟩)

theorem Reads.parse {p : Decode α} {bs : List UInt8} {a : α} (h : Reads p bs a)
    (rest : List UInt8) : p.parse (bs ++ rest) = .ok a := by
  unfold Decode.parse
  rw [StateT.run, h rest 0]

theorem Reads.parse_all {p : Decode α} {bs : List UInt8} {a : α} (h : Reads p bs a) :
    p.parse bs = .ok a := by
  have := h.parse []
  rwa [List.append_nil] at this

theorem Reads.last {p : Decode α} {bs : List UInt8} {a : α} (h : Reads p bs a) :
    Reads p [bs].flatten a := by
  rwa [List.flatten_cons, List.flatten_nil, List.append_nil]

theorem Reads.pure (a : α) : Reads (pure a) [] a := fun _ _ => rfl

/-- One field after the other; the fields stand in a list, so that the rest of them is the list's
tail. -/
theorem Reads.bind {p : Decode α} {f : α → Decode β} {bs : List UInt8} {fields : List (List UInt8)}
    {a : α} {b : β} (hp : Reads p bs a) (hf : Reads (f a) fields.flatten b) :
    Reads (p >>= f) (bs :: fields).flatten b := by
  intro rest pos
  rw [List.flatten_cons, List.append_assoc]
  show Except.bind (p ⟨bs ++ (fields.flatten ++ rest), pos⟩) _ = _
  rw [hp]
  refine (hf rest _).trans ?_
  rw [List.length_append, Nat.add_assoc]

theorem Reads.map {p : Decode α} {bs : List UInt8} {a : α} (h : Reads p bs a) (f : α → β) :
    Reads (f <$> p) bs (f a) := by
  intro rest pos
  show Except.bind (p ⟨bs ++ rest, pos⟩) _ = _
  rw [h]
  rfl

theorem Reads.returning {p : Decode α} {bs : List UInt8} {a : α} (h : Reads p bs a) (f : α → β) :
    Reads (p >>= fun a => Pure.pure (f a)) bs (f a) := by
  rw [bind_pure_comp]
  exact h.map f

theorem Reads.orRefuse {p : Decode α} {bs : List UInt8} {a : α} (h : Reads p bs a) (e : Error) :
    Reads (p.orRefuse e) bs a := by
  intro rest pos
  unfold Decode.orRefuse
  rw [h rest pos]

/-- What is read only where something is left. -/
theorem Reads.of_atEnd {p q : Decode α} {bs : List UInt8} {a : α} (hsome : bs ≠ [])
    (h : Reads q bs a) : Reads (atEnd >>= fun ended => if ended = true then p else q) bs a := by
  intro rest pos
  have hleft : (bs ++ rest).isEmpty = false := by
    cases bs with
    | nil => exact absurd rfl hsome
    | cons b bs => rfl
  show (if (bs ++ rest).isEmpty = true then p else q) ⟨bs ++ rest, pos⟩ = _
  rw [hleft]
  exact h rest pos

/-- Fields that are there under a condition, and those behind them. -/
theorem Reads.optional {c : Prop} [Decidable c] {p : Decode Unit} {f : Decode α} {bs : List UInt8}
    {fields : List (List UInt8)} {a : α} (hp : c → Reads p bs ()) (hnil : ¬ c → bs = [])
    (hf : Reads f fields.flatten a) :
    Reads (if c then p >>= fun _ => f else f) (bs :: fields).flatten a := by
  split
  · exact (hp ‹c›).bind hf
  · rw [hnil ‹¬ c›]
    exact hf

theorem reads_bytes (bs : List UInt8) : Reads (bytes bs.length) bs bs := by
  intro rest pos
  unfold bytes
  rw [List.take_left, List.drop_left]
  exact if_pos rfl

theorem reads_skip {bs : List UInt8} {n : Nat} (h : bs.length = n) : Reads (skip n) bs () := by
  subst h
  exact (reads_bytes bs).map fun _ => ()

theorem reads_number {bs : List UInt8} {n : Nat} (h : bs.length = n) :
    Reads (number n) bs (bigEndian bs) := by
  subst h
  exact (reads_bytes bs).map bigEndian

theorem reads_u8 (b : UInt8) : Reads u8 [b] b := by
  have hnumber : Reads (number 1) [b] (bigEndian [b]) := reads_number rfl
  have h := hnumber.map UInt8.ofNat
  rwa [bigEndian_singleton, UInt8.ofNat_toNat] at h

theorem reads_u16 {bs : List UInt8} (h : bs.length = 2) :
    Reads u16 bs (UInt16.ofNat (bigEndian bs)) :=
  (reads_number h).map UInt16.ofNat

theorem reads_halfWord (n : UInt16) : Reads u16 (numberBytes 2 n.toNat) n := by
  have h := reads_u16 (length_numberBytes 2 n.toNat)
  rwa [bigEndian_numberBytes (by simpa using n.toNat_lt), UInt16.ofNat_toNat] at h

theorem reads_i16 {bs : List UInt8} (h : bs.length = 2) :
    Reads i16 bs (UInt16.ofNat (bigEndian bs)).toInt16 :=
  (reads_u16 h).map UInt16.toInt16

theorem reads_word {bs : List UInt8} (h : bs.length = 4) :
    Reads u32 bs (UInt32.ofNat (bigEndian bs)) :=
  (reads_number h).map UInt32.ofNat

theorem reads_signedWord {bs : List UInt8} (h : bs.length = 4) :
    Reads i32 bs (UInt32.ofNat (bigEndian bs)).toInt32 :=
  (reads_word h).map UInt32.toInt32

theorem reads_u32 (n : UInt32) : Reads u32 (numberBytes 4 n.toNat) n := by
  have h := reads_word (length_numberBytes 4 n.toNat)
  rwa [bigEndian_numberBytes (by simpa using n.toNat_lt), UInt32.ofNat_toNat] at h

theorem reads_i32 (n : Int32) : Reads i32 (numberBytes 4 n.toUInt32.toNat) n := by
  have h := (reads_u32 n.toUInt32).map UInt32.toInt32
  rwa [Int32.toInt32_toUInt32] at h

theorem reads_u64 (n : UInt64) : Reads u64 (numberBytes 8 n.toNat) n := by
  have h := (reads_number (length_numberBytes 8 n.toNat)).map UInt64.ofNat
  rwa [bigEndian_numberBytes (by simpa using n.toNat_lt), UInt64.ofNat_toNat] at h

theorem reads_i64 (n : Int64) : Reads i64 (numberBytes 8 n.toUInt64.toNat) n := by
  have h := (reads_u64 n.toUInt64).map UInt64.toInt64
  rwa [Int64.toInt64_toUInt64] at h

theorem reads_versionFlags {bs : List UInt8} (h : bs.length = 4) :
    Reads versionFlags bs
      ⟨(UInt32.ofNat (bigEndian bs) >>> 24).toUInt8,
        UInt32.ofNat (bigEndian bs) &&& 0x00FFFFFF⟩ :=
  (reads_word h).map fun v =>
    VersionFlags.mk (v >>> 24).toUInt8 (v &&& 0x00FFFFFF)

/-- A version and flags of three bytes are read back. -/
theorem reads_fullHead {f : VersionFlags} (h : f.flags.toNat < 2 ^ 24) :
    Reads versionFlags f.bytes f := by
  obtain ⟨version, flags⟩ := f
  have hversion := version.toNat_lt
  have hflags : flags.toNat < 2 ^ 24 := h
  have hword : bigEndian (VersionFlags.bytes ⟨version, flags⟩) =
      version.toNat * 2 ^ 24 + flags.toNat := by
    show bigEndian ([version] ++ numberBytes 3 flags.toNat) = _
    rw [bigEndian_append, bigEndian_singleton, bigEndian_numberBytes h, length_numberBytes]
    rfl
  have hnumber : (UInt32.ofNat (version.toNat * 2 ^ 24 + flags.toNat)).toNat =
      version.toNat * 2 ^ 24 + flags.toNat :=
    UInt32.toNat_ofNat_of_lt' (show _ < 2 ^ 32 by omega)
  have hhigh : (UInt32.ofNat (version.toNat * 2 ^ 24 + flags.toNat) >>> 24).toUInt8 = version := by
    refine UInt8.toNat_inj.1 ?_
    rw [UInt32.toNat_toUInt8, UInt32.toNat_shiftRight, hnumber]
    show (version.toNat * 2 ^ 24 + flags.toNat) >>> 24 % 2 ^ 8 = _
    rw [Nat.shiftRight_eq_div_pow]
    omega
  have hlow : UInt32.ofNat (version.toNat * 2 ^ 24 + flags.toNat) &&& 0x00FFFFFF = flags := by
    refine UInt32.toNat_inj.1 ?_
    rw [UInt32.toNat_and, hnumber]
    show (version.toNat * 2 ^ 24 + flags.toNat) &&& (2 ^ 24 - 1) = _
    rw [Nat.and_two_pow_sub_one_eq_mod]
    omega
  have hread := reads_versionFlags (VersionFlags.length_bytes ⟨version, flags⟩)
  rwa [hword, hhigh, hlow] at hread

theorem reads_fourCc (f : FourCc) : Reads fourCc f.bytes f := fun _ _ => rfl

/-! ### What reaches to the end -/

/-- The bytes are read as the value if `inner` follows them and then nothing more. -/
def ReadsBefore (inner : List UInt8) (p : Decode α) (bs : List UInt8) (a : α) : Prop :=
  ∀ pos, ∃ c, p ⟨bs ++ inner, pos⟩ = .ok (a, c)

theorem ReadsBefore.parse {inner : List UInt8} {p : Decode α} {bs : List UInt8} {a : α}
    (h : ReadsBefore inner p bs a) : p.parse (bs ++ inner) = .ok a := by
  obtain ⟨c, hc⟩ := h 0
  unfold Decode.parse
  rw [StateT.run, hc]

/-- What is left, whatever it is made into. -/
theorem readsBefore_rest (inner : List UInt8) (f : List UInt8 → β) :
    ReadsBefore inner (do return f (← rest)) [] (f inner) := fun pos => ⟨⟨inner, pos⟩, rfl⟩

/-- What is read whatever follows it is read before anything. -/
theorem Reads.readsBefore {p : Decode α} {bs : List UInt8} {a : α} (h : Reads p bs a)
    (inner : List UInt8) : ReadsBefore inner p bs a := fun pos => ⟨_, h inner pos⟩

/-- What is read whatever follows it may reach to the end. -/
theorem Reads.upToEnd {p : Decode α} {bs : List UInt8} {a : α} (h : Reads p bs a) :
    ReadsBefore bs p [] a := by
  intro pos
  have hread := h [] pos
  rw [List.append_nil] at hread
  exact ⟨_, hread⟩

theorem Reads.before {inner : List UInt8} {p : Decode α} {f : α → Decode β} {bs : List UInt8}
    {fields : List (List UInt8)} {a : α} {b : β} (hp : Reads p bs a)
    (hf : ReadsBefore inner (f a) fields.flatten b) :
    ReadsBefore inner (p >>= f) (bs :: fields).flatten b := by
  intro pos
  obtain ⟨c, hc⟩ := hf (pos + bs.length)
  refine ⟨c, ?_⟩
  rw [List.flatten_cons, List.append_assoc]
  show Except.bind (p ⟨bs ++ (fields.flatten ++ inner), pos⟩) _ = _
  rw [hp]
  exact hc

theorem ReadsBefore.returning {inner : List UInt8} {p : Decode α} {bs : List UInt8} {a : α}
    (h : ReadsBefore inner p bs a) (f : α → β) :
    ReadsBefore inner (p >>= fun a => Pure.pure (f a)) bs (f a) := by
  intro pos
  obtain ⟨c, hc⟩ := h pos
  refine ⟨c, ?_⟩
  show Except.bind (p ⟨bs ++ inner, pos⟩) _ = _
  rw [hc]
  rfl

theorem ReadsBefore.last {inner : List UInt8} {p : Decode α} {bs : List UInt8} {a : α}
    (h : ReadsBefore inner p bs a) : ReadsBefore inner p [bs].flatten a := by
  rwa [List.flatten_cons, List.flatten_nil, List.append_nil]

/-- Bytes cut into fields of the given widths. -/
def cut : List Nat → List UInt8 → List (List UInt8)
  | [], _ => []
  | width :: widths, bs => bs.take width :: cut widths (bs.drop width)

/-- Nothing is lost if the widths come to the length of the bytes. -/
theorem flatten_cut (widths : List Nat) {bs : List UInt8} (h : bs.length = widths.sum) :
    (cut widths bs).flatten = bs := by
  induction widths generalizing bs with
  | nil => exact (List.eq_nil_of_length_eq_zero h).symm
  | cons width widths ih =>
    rw [List.sum_cons] at h
    rw [cut, List.flatten_cons, ih (by rw [List.length_drop]; omega), List.take_append_drop]

/-! ### Rows and tables -/

theorem reads_rowsFrom {row : Decode α} {bss : List (List UInt8)} {as : List α}
    (h : List.Forall₂ (Reads row) bss as) (acc : List α) :
    Reads (rowsFrom row as.length acc) bss.flatten (acc.reverse ++ as) := by
  induction h generalizing acc with
  | nil =>
    intro rest pos
    rw [List.append_nil]
    rfl
  | @cons bs a bss as ha _ ih =>
    intro rest pos
    rw [List.flatten_cons, List.append_assoc, List.length_cons, rowsFrom, ha]
    refine (ih (a :: acc) rest _).trans ?_
    simp [Nat.add_assoc]

/-- As many rows as there are values are read as those values. -/
theorem reads_rows {row : Decode α} {write : α → List UInt8} {as : List α}
    (h : ∀ a ∈ as, Reads row (write a) a) :
    Reads (rows as.length row) (as.flatMap write) as := by
  have hrows : List.Forall₂ (Reads row) (as.map write) as :=
    List.forall₂_map_left_iff.2 (List.forall₂_same.2 h)
  exact reads_rowsFrom hrows []

/-- The check of a declared number of entries, and what follows it where it is left. -/
theorem bind_roomFor (name : FourCc) {width : Nat} (hwidth : 0 < width) (count : Nat)
    (k : Unit → Decode β) (bs : List UInt8) (pos : Nat) :
    (roomFor name count width >>= k) ⟨bs, pos⟩ =
      if count * width ≤ bs.length then k () ⟨bs, pos⟩
      else malformed (.entryCount name count bs.length) := by
  show Except.bind (roomFor name count width ⟨bs, pos⟩) _ = _
  unfold roomFor
  dsimp only
  by_cases hroom : count * width ≤ bs.length
  · rw [if_neg (Nat.not_lt.2 ((Nat.le_div_iff_mul_le hwidth).2 hroom)), if_pos hroom]
    rfl
  · rw [if_pos ((Nat.div_lt_iff_lt_mul hwidth).2 (Nat.lt_of_not_le hroom)), if_neg hroom]
    rfl

/-- There is room for entries that are there. -/
theorem Reads.room {p : Decode α} {bs : List UInt8} {a : α} (h : Reads p bs a) (name : FourCc)
    {count width : Nat} (hwidth : 0 < width) (hbytes : count * width ≤ bs.length) :
    Reads (roomFor name count width >>= fun _ => p) bs a := by
  intro rest pos
  have hroom : count * width ≤ (bs ++ rest).length := by
    rw [List.length_append]
    omega
  rw [bind_roomFor name hwidth, if_pos hroom]
  exact h rest pos

/-- The bytes of a table: a version and flags of four bytes, the number of rows, and the rows. -/
def tableBytes (full : List UInt8) (write : α → List UInt8) (as : List α) : List UInt8 :=
  [full, numberBytes 4 as.length, as.flatMap write].flatten

theorem length_flatMap_rows {write : α → List β} {width : Nat}
    (h : ∀ a, (write a).length = width) (as : List α) :
    (as.flatMap write).length = as.length * width := by
  rw [List.length_flatMap, List.map_congr_left fun a _ => h a, List.map_const',
    List.sum_replicate_nat]

theorem mul_le_length_flatMap {write : α → List β} {width : Nat} {as : List α}
    (h : ∀ a ∈ as, width ≤ (write a).length) : as.length * width ≤ (as.flatMap write).length := by
  induction as with
  | nil => exact Nat.le_of_eq (Nat.zero_mul width)
  | cons a as ih =>
    rw [List.forall_mem_cons] at h
    have htail := ih h.2
    have hhead := h.1
    rw [List.flatMap_cons, List.length_append, List.length_cons, Nat.succ_mul]
    omega

theorem reads_count {n : Nat} (h : n < 2 ^ 32) : Reads u32 (numberBytes 4 n) (UInt32.ofNat n) := by
  have hread := reads_u32 (UInt32.ofNat n)
  rwa [UInt32.toNat_ofNat_of_lt' h] at hread

/-- Behind their number rows are read back that are at least as wide as is held against the bytes
left. -/
theorem reads_table (name : FourCc) {width : Nat} {row : Decode α} {write : α → List UInt8}
    (hwidth : 0 < width) {as : List α} (hlength : ∀ a ∈ as, width ≤ (write a).length)
    (hrow : ∀ a ∈ as, Reads row (write a) a) (has : as.length < 2 ^ 32) :
    Reads (table name width row) [numberBytes 4 as.length, as.flatMap write].flatten as := by
  refine (reads_count has).bind ?_
  rw [UInt32.toNat_ofNat_of_lt' has]
  exact ((reads_rows hrow).room name hwidth (mul_le_length_flatMap hlength)).last

/-- A table is read as its rows. -/
theorem parse_fullTable (name : FourCc) {width : Nat} {row : Decode α} {write : α → List UInt8}
    (hwidth : 0 < width) (hlength : ∀ a, (write a).length = width) {full : List UInt8}
    (hfull : full.length = 4) {as : List α} (hrow : ∀ a ∈ as, Reads row (write a) a)
    (has : as.length < 2 ^ 32) :
    (fullTable name width row).parse (tableBytes full write as) = .ok as := by
  have htable := reads_table name hwidth (fun a _ => Nat.le_of_eq (hlength a).symm) hrow has
  exact ((reads_versionFlags hfull).bind (f := fun _ => table name width row) htable).parse_all

end Decode

end IsoMedia
