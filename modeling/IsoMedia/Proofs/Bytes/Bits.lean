import IsoMedia.Bytes.Bits
import IsoMedia.Proofs.Machine.Word
import Mathlib.Algebra.Order.BigOperators.Group.List
import Mathlib.Algebra.Order.Ring.Nat
import Mathlib.Tactic.Ring

/-!
# Bytes as one string of bits

The bits of bytes stand one after the other, the most significant bit of each byte first
(`bitsOfBytes`).  A `BitCursor` has a part of them still before it (`BitCursor.unread`).

* `BitCursor.read_eq` : a read takes its number off the front of the unread bits.
* `BitCursor.reads_eq` : one read after the other cuts the unread bits into pieces.
* `BitCursor.skip_of_lt`, `BitCursor.skip_halts`, `BitCursor.skip_wraps` : where a skip goes, as its
  distance is a word or none.
* `BitCursor.singly_eq` : where as many reads of a single bit go.
-/

namespace IsoMedia

/-! ### Bits and numbers -/

/-- The bits of bytes. -/
def bitsOfBytes (bs : List UInt8) : List Bool := bs.flatMap fun b => bitsOfNumber 8 b.toNat

/-- The number that bits spell. -/
def numberOfBits (bits : List Bool) : Nat := bits.foldl (fun n b => n * 2 + b.toNat) 0

theorem length_bitsOfNumber (width n : Nat) : (bitsOfNumber width n).length = width := by
  induction width with
  | zero => rfl
  | succ width ih => rw [bitsOfNumber, List.length_cons, ih]

/-- Without its highest bits a number still has the lower ones. -/
theorem drop_bitsOfNumber (k width n : Nat) :
    (bitsOfNumber width n).drop k = bitsOfNumber (width - k) n := by
  induction k generalizing width with
  | zero => rfl
  | succ k ih =>
    cases width with
    | zero => rw [Nat.zero_sub, bitsOfNumber, List.drop_nil]
    | succ width => rw [bitsOfNumber, List.drop_succ_cons, ih, Nat.add_sub_add_right]

/-- Its highest bits are those of the number shifted down to them. -/
theorem take_bitsOfNumber {k width : Nat} (h : k ≤ width) (n : Nat) :
    (bitsOfNumber width n).take k = bitsOfNumber k (n >>> (width - k)) := by
  induction k generalizing width with
  | zero => rfl
  | succ k ih =>
    cases width with
    | zero => exact absurd h (Nat.not_succ_le_zero k)
    | succ width =>
      have hk : k ≤ width := Nat.le_of_succ_le_succ h
      rw [bitsOfNumber, List.take_succ_cons, ih hk, bitsOfNumber, Nat.add_sub_add_right,
        Nat.testBit_shiftRight, Nat.sub_add_cancel hk]

theorem foldl_numberOfBits (acc : Nat) (bits : List Bool) :
    bits.foldl (fun n b => n * 2 + b.toNat) acc = acc * 2 ^ bits.length + numberOfBits bits := by
  induction bits generalizing acc with
  | nil => simp [numberOfBits]
  | cons b bits ih =>
    rw [numberOfBits, List.foldl_cons, List.foldl_cons, ih, ih (0 * 2 + b.toNat), List.length_cons]
    ring

theorem numberOfBits_cons (b : Bool) (bits : List Bool) :
    numberOfBits (b :: bits) = b.toNat * 2 ^ bits.length + numberOfBits bits := by
  rw [numberOfBits, List.foldl_cons, foldl_numberOfBits, Nat.zero_mul, Nat.zero_add]

theorem numberOfBits_append (bits bits' : List Bool) :
    numberOfBits (bits ++ bits') = numberOfBits bits * 2 ^ bits'.length + numberOfBits bits' := by
  rw [numberOfBits, List.foldl_append, foldl_numberOfBits]
  rfl

theorem numberOfBits_lt (bits : List Bool) : numberOfBits bits < 2 ^ bits.length := by
  induction bits with
  | nil => exact Nat.one_pos
  | cons b bits ih =>
    have hb := Nat.mul_le_mul_right (2 ^ bits.length) (Bool.toNat_le b)
    rw [numberOfBits_cons, List.length_cons, Nat.pow_succ]
    omega

theorem numberOfBits_bitsOfNumber (width n : Nat) :
    numberOfBits (bitsOfNumber width n) = n % 2 ^ width := by
  induction width with
  | zero => exact (Nat.mod_one n).symm
  | succ width ih =>
    rw [bitsOfNumber, numberOfBits_cons, ih, length_bitsOfNumber, Nat.toNat_testBit, Nat.mod_pow_succ]
    ring

theorem length_bitsOfBytes (bs : List UInt8) : (bitsOfBytes bs).length = 8 * bs.length := by
  induction bs with
  | nil => rfl
  | cons b bs ih =>
    rw [bitsOfBytes, List.flatMap_cons, List.length_append, length_bitsOfNumber, ← bitsOfBytes, ih,
      List.length_cons]
    omega

/-- The bits from a byte on start with those of the byte. -/
theorem drop_bitsOfBytes {bs : List UInt8} {place : Nat} {b : UInt8} (h : bs[place]? = some b) :
    (bitsOfBytes bs).drop (8 * place) =
      bitsOfNumber 8 b.toNat ++ (bitsOfBytes bs).drop (8 * (place + 1)) := by
  induction bs generalizing place with
  | nil => cases h
  | cons b' bs ih =>
    have hcons : bitsOfBytes (b' :: bs) = bitsOfNumber 8 b'.toNat ++ bitsOfBytes bs := rfl
    have hlength := length_bitsOfNumber 8 b'.toNat
    cases place with
    | zero =>
      obtain rfl : b' = b := Option.some.inj h
      rw [hcons, List.drop_zero, List.drop_left' hlength]
    | succ place =>
      have hplace : 8 * (place + 1) = 8 + 8 * place := by omega
      have hnext : 8 * (place + 1 + 1) = 8 + 8 * (place + 1) := by omega
      rw [hcons, hplace, hnext, ← List.drop_drop, ← List.drop_drop, List.drop_left' hlength]
      exact ih h

namespace BitCursor

variable {c : BitCursor} {n : Nat}

/-! ### Places -/

/-- How many bits are already read. -/
def passed (c : BitCursor) : Nat := 8 * c.place + c.used

/-- The place behind so many bits. -/
def behind (bytes : ByteArray) (passed : Nat) : BitCursor := ⟨bytes, passed / 8, passed % 8⟩

/-- The place so many bits further on. -/
def advance (c : BitCursor) (n : Nat) : BitCursor := behind c.bytes (c.passed + n)

/-- The bits that are not read. -/
def unread (c : BitCursor) : List Bool := (bitsOfBytes c.bytes.data.toList).drop c.passed

/-- The place lies in the bits or at their end, and its byte is not read to the end. -/
structure Within (c : BitCursor) : Prop where
  used_lt : c.used < 8
  passed_le : c.passed ≤ 8 * c.bytes.size

theorem within_first (bytes : ByteArray) : (first bytes).Within :=
  ⟨Nat.zero_lt_succ 7, Nat.zero_le _⟩

theorem passed_behind (bytes : ByteArray) (passed : Nat) : (behind bytes passed).passed = passed :=
  Nat.div_add_mod passed 8

theorem within_behind {bytes : ByteArray} {passed : Nat} (h : passed ≤ 8 * bytes.size) :
    (behind bytes passed).Within :=
  ⟨Nat.mod_lt passed (by decide), (passed_behind bytes passed).trans_le h⟩

theorem Within.behind_passed (hc : c.Within) : behind c.bytes c.passed = c := by
  obtain ⟨bytes, place, used⟩ := c
  have hused : used < 8 := hc.used_lt
  have hplace : (8 * place + used) / 8 = place := by omega
  have hrest : (8 * place + used) % 8 = used := by omega
  rw [behind, passed, hplace, hrest]

theorem length_unread (c : BitCursor) : c.unread.length = 8 * c.bytes.size - c.passed := by
  rw [unread, List.length_drop, length_bitsOfBytes]
  rfl

theorem left_eq (c : BitCursor) : c.left = c.unread.length := by
  rw [length_unread, left, passed]
  omega

theorem unread_behind (bytes : ByteArray) (passed : Nat) :
    (behind bytes passed).unread = (bitsOfBytes bytes.data.toList).drop passed := by
  rw [unread, passed_behind]
  rfl

theorem unread_first (bytes : ByteArray) : (first bytes).unread = bitsOfBytes bytes.data.toList :=
  List.drop_zero

theorem unread_advance (c : BitCursor) (n : Nat) : (c.advance n).unread = c.unread.drop n := by
  rw [advance, unread_behind, unread, List.drop_drop]

theorem left_advance (c : BitCursor) (n : Nat) : (c.advance n).left = c.left - n := by
  rw [left_eq, left_eq, unread_advance, List.length_drop]

theorem advance_advance (c : BitCursor) (n m : Nat) :
    (c.advance n).advance m = c.advance (n + m) := by
  rw [advance, advance, passed_behind, advance, Nat.add_assoc]
  rfl

theorem Within.advance (hc : c.Within) (h : n ≤ c.left) : (c.advance n).Within := by
  have hpassed := hc.passed_le
  rw [left_eq, length_unread] at h
  exact within_behind (by omega)

theorem Within.advance_zero (hc : c.Within) : c.advance 0 = c := hc.behind_passed

/-! ### Reading -/

/-- Some bits of a byte are a part of its bits. -/
theorem slice_eq (b : UInt8) {used n : Nat} (h : used + n ≤ 8) :
    slice b used n = numberOfBits (((bitsOfNumber 8 b.toNat).drop used).take n) := by
  rw [drop_bitsOfNumber, take_bitsOfNumber (by omega), numberOfBits_bitsOfNumber, slice,
    Nat.one_shiftLeft]

theorem length_rest (b : UInt8) (used : Nat) :
    ((bitsOfNumber 8 b.toNat).drop used).length = 8 - used := by
  rw [List.length_drop, length_bitsOfNumber]

theorem getElem?_of_lt {bytes : ByteArray} {place : Nat} (h : place < bytes.size) :
    bytes.data.toList[place]? = some (bytes.get! place) := by
  have hplace : place < bytes.data.size := h
  rw [Array.getElem?_toList, Array.getElem?_eq_getElem hplace]
  exact congrArg some (getElem!_pos bytes.data place hplace).symm

/-- What is unread of a byte comes first. -/
theorem unread_of_lt (hc : c.Within) (h : c.place < c.bytes.size) :
    c.unread = (bitsOfNumber 8 (c.bytes.get! c.place).toNat).drop c.used ++
      unread { c with place := c.place + 1, used := 0 } := by
  have hused := Nat.le_of_lt hc.used_lt
  rw [unread, passed, ← List.drop_drop, drop_bitsOfBytes (getElem?_of_lt h),
    List.drop_append_of_le_length (by rwa [length_bitsOfNumber])]
  rfl

/-- Bits that do not go beyond the byte are a part of it. -/
theorem numberOfBits_take_unread (hc : c.Within) (h : c.place < c.bytes.size)
    (hn : c.used + n ≤ 8) :
    numberOfBits (c.unread.take n) = slice (c.bytes.get! c.place) c.used n := by
  have hrest : n ≤ ((bitsOfNumber 8 (c.bytes.get! c.place).toNat).drop c.used).length := by
    rw [length_rest]
    omega
  rw [unread_of_lt hc h, List.take_append_of_le_length hrest, slice_eq _ hn]

theorem advance_of_lt (hn : c.used + n < 8) : c.advance n = { c with used := c.used + n } := by
  have hplace : (8 * c.place + c.used + n) / 8 = c.place := by omega
  have hused : (8 * c.place + c.used + n) % 8 = c.used + n := by omega
  rw [advance, behind, passed, hplace, hused]

theorem advance_of_eq (hn : c.used + n = 8) :
    c.advance n = { c with place := c.place + 1, used := 0 } := by
  have hplace : (8 * c.place + c.used + n) / 8 = c.place + 1 := by omega
  have hused : (8 * c.place + c.used + n) % 8 = 0 := by omega
  rw [advance, behind, passed, hplace, hused]

/-- The number of bits is that of the first ones put in front of the others. -/
theorem numberOfBits_take_add {m : Nat} (h : n + m ≤ c.unread.length) :
    numberOfBits (c.unread.take (n + m)) =
      numberOfBits (c.unread.take n) * 2 ^ m + numberOfBits ((c.advance n).unread.take m) := by
  have hlength : ((c.unread.drop n).take m).length = m := by
    rw [List.length_take, List.length_drop]
    omega
  rw [List.take_add, numberOfBits_append, hlength, unread_advance]

/-- What is collected is put behind the bits that are given. -/
theorem collect_eq (hc : c.Within) (h : n ≤ c.left) (acc : Nat) :
    collect n acc c = (acc * 2 ^ n + numberOfBits (c.unread.take n), c.advance n) := by
  -- Along the bytes; the rest of each is a part of the unread bits.
  fun_induction collect n acc c with
  | case1 n acc c hinside b here hshort =>
    have hn : c.used + n < 8 := Nat.add_lt_of_lt_sub' hshort
    rw [numberOfBits_take_unread hc hinside (Nat.le_of_lt hn), Nat.shiftLeft_eq, advance_of_lt hn]
  | case2 n acc c hinside b here hlong ih =>
    have hhere : c.used + here = 8 := Nat.add_sub_of_le (Nat.le_of_lt hc.used_lt)
    have hle : here ≤ n := Nat.le_of_not_lt hlong
    have hwithin := hc.advance (hle.trans h)
    have hmore : n - here ≤ (c.advance here).left := by
      rw [left_advance]
      exact Nat.sub_le_sub_right h here
    have hnumber : numberOfBits (c.unread.take n) = slice b c.used here * 2 ^ (n - here) +
        numberOfBits ((c.advance here).unread.take (n - here)) := by
      rw [← numberOfBits_take_unread hc hinside (Nat.le_of_eq hhere), ← numberOfBits_take_add,
        Nat.add_sub_cancel' hle]
      rwa [Nat.add_sub_cancel' hle, ← left_eq]
    have hpow : 2 ^ n = 2 ^ here * 2 ^ (n - here) := by
      rw [← Nat.pow_add, Nat.add_sub_cancel' hle]
    rw [← advance_of_eq hhere] at ih ⊢
    rw [ih hwithin hmore, hnumber, hpow, Nat.shiftLeft_eq, advance_advance, Nat.add_sub_cancel' hle]
    congr 1
    ring
  | case3 n acc c hend =>
    have hnone : n = 0 := by
      rw [left] at h
      omega
    rw [hnone, hc.advance_zero]
    simp [numberOfBits]

/-- **A read of at most a word takes its number off the front of the unread bits**, if there are as
many. -/
theorem read_eq (hc : c.Within) (hn : n ≤ 32) :
    c.read n = if n ≤ c.unread.length
      then .ok (UInt32.ofNat (numberOfBits (c.unread.take n)), c.advance n)
      else malformed (.bitsPastEnd n c.unread.length) := by
  rw [read, if_neg (Nat.not_lt.2 hn), left_eq]
  by_cases hleft : n ≤ c.unread.length
  · have hcollect := collect_eq hc (left_eq c ▸ hleft) 0
    rw [if_neg (Nat.not_lt.2 hleft), if_pos hleft, hcollect, Nat.zero_mul, Nat.zero_add]
  · rw [if_pos (Nat.lt_of_not_le hleft), if_neg hleft]

theorem readBit_eq (hc : c.Within) :
    c.readBit = if 1 ≤ c.unread.length
      then .ok (UInt32.ofNat (numberOfBits (c.unread.take 1)) == 1, c.advance 1)
      else malformed (.bitsPastEnd 1 c.unread.length) := by
  rw [readBit, read_eq hc (by decide)]
  split <;> rfl

/-! ### Reading on and on -/

end BitCursor

/-- Pieces of the given numbers of bits, cut off a string of bits one after the other, and what is left
of it.  A piece that is longer than what is left is not cut off. -/
def pieces : List Nat → List Bool → List (Except Error UInt32) × List Bool
  | [], bits => ([], bits)
  | n :: ns, bits =>
    if n ≤ bits.length then
      let more := pieces ns (bits.drop n)
      (.ok (UInt32.ofNat (numberOfBits (bits.take n))) :: more.1, more.2)
    else
      let more := pieces ns bits
      (malformed (.bitsPastEnd n bits.length) :: more.1, more.2)

/-- Numbers of the given numbers of bits, one put behind the other. -/
def joined : (acc : Nat) → List Nat → List UInt32 → Nat
  | acc, n :: ns, v :: vs => joined (acc * 2 ^ n + v.toNat) ns vs
  | acc, _, _ => acc

namespace BitCursor

variable {c : BitCursor} {n : Nat} {ns : List Nat}

/-- One read after the other.  After one that fails the next starts at the same place. -/
def reads : List Nat → BitCursor → List (Except Error UInt32) × BitCursor
  | [], c => ([], c)
  | n :: ns, c =>
    match c.read n with
    | .ok (v, c') => (.ok v :: (reads ns c').1, (reads ns c').2)
    | .error e => (.error e :: (reads ns c).1, (reads ns c).2)

/-- **Reads cut pieces off the unread bits.** -/
theorem reads_eq (hc : c.Within) (hns : ∀ n ∈ ns, n ≤ 32) :
    (reads ns c).1 = (pieces ns c.unread).1 ∧ (reads ns c).2.unread = (pieces ns c.unread).2 ∧
      (reads ns c).2.bytes = c.bytes ∧ (reads ns c).2.Within := by
  induction ns generalizing c with
  | nil => exact ⟨rfl, rfl, rfl, hc⟩
  | cons n ns ih =>
    rw [List.forall_mem_cons] at hns
    have hread := read_eq hc hns.1
    by_cases hleft : n ≤ c.unread.length
    · obtain ⟨hvalues, hrest, hsame, hwithin⟩ := ih (hc.advance (left_eq c ▸ hleft)) hns.2
      rw [if_pos hleft] at hread
      rw [reads, hread, pieces, if_pos hleft, ← unread_advance]
      exact ⟨congrArg _ hvalues, hrest, hsame, hwithin⟩
    · obtain ⟨hvalues, hrest, hsame, hwithin⟩ := ih hc hns.2
      rw [if_neg hleft] at hread
      rw [reads, hread, pieces, if_neg hleft]
      exact ⟨congrArg _ hvalues, hrest, hsame, hwithin⟩

/-- At most 32 bits make a word. -/
theorem toNat_ofNat_take (hn : n ≤ 32) (bits : List Bool) :
    (UInt32.ofNat (numberOfBits (bits.take n))).toNat = numberOfBits (bits.take n) := by
  rw [UInt32.toNat_ofNat', Nat.mod_eq_of_lt]
  refine (numberOfBits_lt _).trans_le (Nat.pow_le_pow_right (by decide) ?_)
  exact (List.length_take_le n bits).trans hn

/-- If the reads together ask for no more than is left, each of them succeeds. -/
theorem reads_of_sum_le (hc : c.Within) (hsum : ns.sum ≤ 32) (hleft : ns.sum ≤ c.unread.length) :
    ∃ vs : List UInt32, reads ns c = (vs.map .ok, c.advance ns.sum) ∧
      ∀ acc, joined acc ns vs = acc * 2 ^ ns.sum + numberOfBits (c.unread.take ns.sum) := by
  induction ns generalizing c with
  | nil =>
    refine ⟨[], by rw [List.sum_nil, hc.advance_zero]; rfl, fun acc => ?_⟩
    simp [joined, numberOfBits]
  | cons n ns ih =>
    rw [List.sum_cons] at hsum hleft ⊢
    have hn : n ≤ c.unread.length := by omega
    have hread := read_eq hc (by omega : n ≤ 32)
    rw [if_pos hn] at hread
    obtain ⟨vs, hreads, hjoined⟩ := ih (hc.advance (left_eq c ▸ hn)) (by omega)
      (by rw [unread_advance, List.length_drop]; omega)
    refine ⟨UInt32.ofNat (numberOfBits (c.unread.take n)) :: vs, ?_, fun acc => ?_⟩
    · rw [reads, hread]
      dsimp only
      rw [hreads, advance_advance]
      rfl
    rw [joined, hjoined, toNat_ofNat_take (by omega), numberOfBits_take_add hleft, Nat.pow_add]
    ring

/-- Reads that all succeed together ask for no more than is left. -/
theorem sum_le_of_reads (hc : c.Within) (hns : ∀ n ∈ ns, n ≤ 32)
    (hok : ∀ r ∈ (reads ns c).1, ∃ v, r = .ok v) : ns.sum ≤ c.unread.length := by
  induction ns generalizing c with
  | nil => exact Nat.zero_le _
  | cons n ns ih =>
    rw [List.forall_mem_cons] at hns
    have hread := read_eq hc hns.1
    by_cases hleft : n ≤ c.unread.length
    · rw [if_pos hleft] at hread
      rw [reads, hread, List.forall_mem_cons] at hok
      have hrest := ih (hc.advance (left_eq c ▸ hleft)) hns.2 hok.2
      rw [unread_advance, List.length_drop] at hrest
      rw [List.sum_cons]
      omega
    · rw [if_neg hleft] at hread
      rw [reads, hread, List.forall_mem_cons] at hok
      obtain ⟨v, hv⟩ := hok.1
      cases hv

/-- **To read bits at once or in several parts is the same.**  It succeeds alike, and comes to the same
place; the parts put behind each other are what is read at once. -/
theorem read_sum (hc : c.Within) (hsum : ns.sum ≤ 32) :
    ((∃ r, c.read ns.sum = .ok r) ↔ ∀ r ∈ (reads ns c).1, ∃ v, r = .ok v) ∧
    ∀ v c', c.read ns.sum = .ok (v, c') →
      ∃ vs : List UInt32, reads ns c = (vs.map .ok, c') ∧ v.toNat = joined 0 ns vs := by
  have hns : ∀ n ∈ ns, n ≤ 32 := fun n hn =>
    (List.single_le_sum (fun _ _ => Nat.zero_le _) n hn).trans hsum
  have hread := read_eq hc hsum
  by_cases hleft : ns.sum ≤ c.unread.length
  · obtain ⟨vs, hreads, hjoined⟩ := reads_of_sum_le hc hsum hleft
    rw [if_pos hleft] at hread
    refine ⟨iff_of_true ⟨_, hread⟩ ?_, fun v c' hv => ?_⟩
    · rw [hreads]
      rintro r hr
      obtain ⟨v, -, rfl⟩ := List.mem_map.1 hr
      exact ⟨v, rfl⟩
    · rw [hread] at hv
      obtain ⟨rfl, rfl⟩ := Prod.mk.inj (Except.ok.inj hv)
      refine ⟨vs, hreads, ?_⟩
      rw [hjoined, toNat_ofNat_take hsum, Nat.zero_mul, Nat.zero_add]
  · rw [if_neg hleft] at hread
    refine ⟨iff_of_false ?_ fun hok => hleft (sum_le_of_reads hc hns hok), fun v c' hv => ?_⟩
    · rintro ⟨r, hr⟩
      rw [hread] at hr
      cases hr
    · rw [hread] at hv
      cases hv

/-! ### Passing over bits -/

/-- As many reads of a single bit. -/
def singly : Nat → BitCursor → Except Error BitCursor
  | 0, c => .ok c
  | n + 1, c => do
    let (_, c) ← c.readBit
    singly n c

theorem singly_eq (hc : c.Within) (h : n ≤ c.left) : singly n c = .ok (c.advance n) := by
  induction n generalizing c with
  | zero => rw [singly, hc.advance_zero]
  | succ n ih =>
    have hone : 1 ≤ c.left := Nat.le_of_add_left_le h
    have hread := readBit_eq hc
    rw [if_pos (left_eq c ▸ hone)] at hread
    rw [singly, hread]
    refine (ih (hc.advance hone) ?_).trans ?_
    · rw [left_advance]
      omega
    · rw [advance_advance, Nat.add_comm]

theorem skip_of_left_lt (o : Overflow) {n : UInt32} (h : c.left < n.toNat) :
    c.skip o n = Machine.of (malformed .skipPastEnd) := if_pos h

/-- Where the distance is a word, a skip passes over the bits in every build. -/
theorem skip_of_lt (hc : c.Within) (o : Overflow) {n : UInt32} (h : n.toNat ≤ c.left)
    (hword : c.used + n.toNat < 2 ^ 32) : c.skip o n = pure (c.advance n.toNat) := by
  have hused := hc.used_lt
  have hplace : (8 * c.place + c.used + n.toNat) / 8 = c.place + (c.used + n.toNat) / 8 := by omega
  have hbits : (8 * c.place + c.used + n.toNat) % 8 = (c.used + n.toNat) % 8 := by omega
  rw [skip, if_neg (Nat.not_lt.2 h), o.add_eq hword, pure_bind, advance, behind, passed, hplace, hbits]

/-- Where it is none, a machine that checks sums halts. -/
theorem skip_halts {n : UInt32} (h : n.toNat ≤ c.left) (hword : 2 ^ 32 ≤ c.used + n.toNat) :
    c.skip .halts n = Machine.halt .overflow := by
  rw [skip, if_neg (Nat.not_lt.2 h), Overflow.add, Machine.add_eq_halt hword]
  rfl

/-- Where it is cut down to a word, a skip goes back in the byte. -/
theorem skip_wraps (hc : c.Within) {n : UInt32} (h : n.toNat ≤ c.left)
    (hword : 2 ^ 32 ≤ c.used + n.toNat) :
    c.skip .wraps n = pure { c with used := c.used - (2 ^ 32 - n.toNat) } := by
  have hused := hc.used_lt
  have hn := n.toNat_lt
  have hwrapped : (c.used + n.toNat) % 2 ^ 32 = c.used - (2 ^ 32 - n.toNat) := by
    rw [Nat.mod_eq_sub_mod hword, Nat.mod_eq_of_lt (by omega)]
    omega
  have hwhole : (c.used - (2 ^ 32 - n.toNat)) / 8 = 0 := by omega
  have hbits : (c.used - (2 ^ 32 - n.toNat)) % 8 = c.used - (2 ^ 32 - n.toNat) := by omega
  rw [skip, if_neg (Nat.not_lt.2 h), Overflow.wraps_add, pure_bind, hwrapped, hwhole, hbits, Nat.add_zero]

/-! ### Calls of any kind -/

/-- What a cursor can be asked for. -/
inductive Call where
  | read (n : Nat)
  | readBit
  | skip (n : UInt32)

/-- The place after a call, unless that halts.  A call that fails leaves it. -/
def after (o : Overflow) (c : BitCursor) : Call → Except Machine.Fault BitCursor
  | .read n => match c.read n with
    | .ok (_, c') => .ok c'
    | .error _ => .ok c
  | .readBit => match c.readBit with
    | .ok (_, c') => .ok c'
    | .error _ => .ok c
  | .skip n => match (c.skip o n).run with
    | .ok (.ok c') => .ok c'
    | .ok (.error _) => .ok c
    | .error fault => .error fault

theorem Within.of_read (hc : c.Within) {v : UInt32} {c' : BitCursor} (h : c.read n = .ok (v, c')) :
    c'.bytes = c.bytes ∧ c'.Within := by
  by_cases hn : n ≤ 32
  · rw [read_eq hc hn] at h
    split at h
    · cases h
      exact ⟨rfl, hc.advance (left_eq c ▸ ‹_›)⟩
    · cases h
  · rw [read, if_pos (Nat.lt_of_not_le hn)] at h
    cases h

theorem Within.of_skip (hc : c.Within) {o : Overflow} {n : UInt32} {c' : BitCursor}
    (h : c.skip o n = pure c') : c'.bytes = c.bytes ∧ c'.Within := by
  rcases Nat.lt_or_ge c.left n.toNat with hleft | hleft
  · rw [skip_of_left_lt o hleft] at h
    cases h
  · rcases Nat.lt_or_ge (c.used + n.toNat) (2 ^ 32) with hword | hword
    · rw [skip_of_lt hc o hleft hword] at h
      cases h
      exact ⟨rfl, hc.advance hleft⟩
    · cases o with
      | halts =>
        rw [skip_halts hleft hword] at h
        cases h
      | wraps =>
        rw [skip_wraps hc hleft hword] at h
        cases h
        exact ⟨rfl, (Nat.sub_le _ _).trans_lt hc.used_lt,
          (Nat.add_le_add_left (Nat.sub_le _ _) _).trans hc.passed_le⟩

theorem Within.after (hc : c.Within) {o : Overflow} {call : Call} {c' : BitCursor}
    (h : c.after o call = .ok c') : c'.bytes = c.bytes ∧ c'.Within := by
  cases call with
  | read n =>
    simp only [BitCursor.after] at h
    split at h
    · cases h
      exact hc.of_read ‹_›
    · cases h
      exact ⟨rfl, hc⟩
  | readBit =>
    simp only [BitCursor.after] at h
    split at h
    · rename_i v next hread
      cases h
      obtain ⟨⟨bit, there⟩, hbit, hthere⟩ := bind_eq_ok_iff.1 hread
      cases hthere
      exact hc.of_read hbit
    · cases h
      exact ⟨rfl, hc⟩
  | skip n =>
    simp only [BitCursor.after] at h
    split at h
    · cases h
      exact hc.of_skip ‹_›
    · cases h
      exact ⟨rfl, hc⟩
    · cases h

/-- The place after calls, if none of them halts. -/
def afterAll (o : Overflow) (calls : List Call) (c : BitCursor) : Except Machine.Fault BitCursor :=
  calls.foldlM (after o) c

/-- Whatever is called, the place stays in the bits. -/
theorem Within.afterAll (hc : c.Within) {o : Overflow} {calls : List Call} {c' : BitCursor}
    (h : c.afterAll o calls = .ok c') : c'.bytes = c.bytes ∧ c'.Within := by
  induction calls generalizing c with
  | nil =>
    cases h
    exact ⟨rfl, hc⟩
  | cons call calls ih =>
    rw [BitCursor.afterAll, List.foldlM_cons] at h
    cases hafter : c.after o call with
    | error fault =>
      rw [hafter] at h
      cases h
    | ok next =>
      rw [hafter] at h
      obtain ⟨hbytes, hwithin⟩ := hc.after hafter
      obtain ⟨hbytes', hwithin'⟩ := ih hwithin h
      exact ⟨hbytes'.trans hbytes, hwithin'⟩

end BitCursor

end IsoMedia
