import IsoMedia.Proofs.Bytes.Bits
import IsoMedia.Proofs.Machine.Buffer

/-!
# Reading bits on a machine

Bits are taken from one byte after the other, by shifts and masks of words, and put behind the bits that
were taken before.  No step of this halts as long as the number of bits is a word (`takeBits_eq`), and so
a machine reads as a `BitCursor` does.

* `reads_bitString` : reads cut pieces off the string of bits, and parts of a piece make up the piece.
* `skip_singly_iff` : a skip passes over the bits that as many reads of a single bit do, unless the
  distance from the start of the byte is no word.
-/

namespace IsoMedia.Machine

variable {c : BitCursor} {n : Nat}

def mul (width a b : Nat) : Machine Nat :=
  if a * b < 2 ^ width then return a * b else halt .overflow

theorem mul_eq {width a b : Nat} (h : a * b < 2 ^ width) : mul width a b = pure (a * b) := if_pos h

/-! ### What is left -/

/-- The number of unread bits. -/
def bitsLeft (c : BitCursor) : Machine Nat :=
  if c.bytes.size ≤ c.place then return 0
  else do
    let bytes ← sub c.bytes.size c.place
    let bits ← mul 64 bytes 8
    sub bits c.used

theorem bitsLeft_eq (hc : c.Within) (hsize : c.bytes.size < 2 ^ 60) :
    bitsLeft c = pure c.unread.length := by
  have hused := hc.used_lt
  rw [bitsLeft, ← BitCursor.left_eq, BitCursor.left]
  by_cases hend : c.bytes.size ≤ c.place
  · rw [if_pos hend, Nat.sub_eq_zero_of_le hend, Nat.zero_mul, Nat.zero_sub]
  · rw [if_neg hend, sub_eq (by omega), pure_bind, mul_eq (by omega), pure_bind, sub_eq (by omega)]

/-! ### Taking bits -/

/-- Some bits of the current byte, put behind the bits that were taken before. -/
def takePart (taken result : Nat) (c : BitCursor) : Machine Nat := do
  let available ← sub 8 c.used
  let shift ← sub available taken
  let ones ← shiftLeft 32 1 taken
  let mask ← sub ones 1
  let byte ← item c.bytes.data.toList c.place
  let part ← shiftRight 8 byte.toNat shift
  let room ← shiftLeft 32 result taken
  return room ||| (part &&& mask % 2 ^ 8)

/-- The bits of one byte after the other, as many as are wanted. -/
def takeBits (wanted result : Nat) (c : BitCursor) : Machine (Nat × BitCursor) :=
  if _more : 0 < wanted then do
    let taken := min wanted (8 - c.used)
    let result ← takePart taken result c
    let _used ← add 8 c.used taken
    let _wanted ← sub wanted taken
    if _whole : 8 ≤ c.used + taken then do
      let _place ← add 64 c.place 1
      takeBits (wanted - taken) result { c with place := c.place + 1, used := 0 }
    else takeBits (wanted - taken) result { c with used := c.used + taken }
  else return (result, c)
termination_by 2 * wanted + c.used / 8

theorem takePart_eq (hc : c.Within) {taken result : Nat} (htaken : 0 < taken)
    (hbyte : c.used + taken ≤ 8) (hleft : taken ≤ c.unread.length)
    (hresult : result * 2 ^ taken < 2 ^ 32) :
    takePart taken result c =
      pure (result * 2 ^ taken + numberOfBits (c.unread.take taken)) := by
  have hplace : c.place < c.bytes.size := by
    rw [BitCursor.length_unread, BitCursor.passed] at hleft
    omega
  have hones : 1 * 2 ^ taken ≤ 2 ^ 8 := by
    rw [Nat.one_mul]
    exact Nat.pow_le_pow_right (by decide) (by omega)
  have hone : 1 ≤ 1 * 2 ^ taken := by
    rw [Nat.one_mul]
    exact Nat.one_le_two_pow
  have hmask : (1 * 2 ^ taken - 1) % 2 ^ 8 = 2 ^ taken - 1 := by
    rw [Nat.one_mul] at hones ⊢
    exact Nat.mod_eq_of_lt (by omega)
  have hnumber : numberOfBits (c.unread.take taken) =
      (c.bytes.get! c.place).toNat / 2 ^ (8 - c.used - taken) % 2 ^ taken := by
    rw [BitCursor.numberOfBits_take_unread hc hplace hbyte, BitCursor.slice,
      Nat.shiftRight_eq_div_pow, Nat.one_shiftLeft]
  have hlow := Nat.mod_lt ((c.bytes.get! c.place).toNat / 2 ^ (8 - c.used - taken))
    (Nat.two_pow_pos taken)
  rw [takePart, sub_eq (by omega), pure_bind, sub_eq (by omega), pure_bind,
    shiftLeft_eq (by omega) (by omega), pure_bind, sub_eq hone, pure_bind,
    item_eq (BitCursor.getElem?_of_lt hplace), pure_bind, shiftRight_eq (by omega), pure_bind,
    shiftLeft_eq (by omega) hresult, pure_bind, hmask, Nat.and_two_pow_sub_one_eq_mod, hnumber,
    Nat.mul_comm, Nat.two_pow_add_eq_or_of_lt hlow]

/-- **Taking bits does not halt**, and puts the unread bits behind those that were taken before. -/
theorem takeBits_eq (hc : c.Within) (hsize : c.bytes.size < 2 ^ 60) {result : Nat} (hn : n ≤ 32)
    (hleft : n ≤ c.unread.length) (hresult : result < 2 ^ (32 - n)) :
    takeBits n result c =
      pure (result * 2 ^ n + numberOfBits (c.unread.take n), c.advance n) := by
  -- On how many bits are wanted; each byte leaves fewer.
  induction n using Nat.strongRecOn generalizing result c with
  | _ n ih =>
    rw [takeBits]
    split
    · rename_i hmore
      have hused := hc.used_lt
      have hplace : c.place < c.bytes.size := by
        rw [BitCursor.length_unread, BitCursor.passed] at hleft
        omega
      obtain ⟨taken, htaken⟩ : ∃ taken, taken = min n (8 - c.used) := ⟨_, rfl⟩
      have hpositive : 0 < taken := by omega
      have hle : taken ≤ n := by omega
      have hbyte : c.used + taken ≤ 8 := by omega
      have hpart : numberOfBits (c.unread.take taken) < 2 ^ taken :=
        (numberOfBits_lt _).trans_le
          (Nat.pow_le_pow_right (by decide) (List.length_take_le taken c.unread))
      have hnext : result * 2 ^ taken + numberOfBits (c.unread.take taken) <
          2 ^ (32 - (n - taken)) := by
        have hroom : 32 - (n - taken) = 32 - n + taken := by omega
        calc result * 2 ^ taken + numberOfBits (c.unread.take taken)
          _ < (result + 1) * 2 ^ taken := by
            rw [Nat.succ_mul]
            exact Nat.add_lt_add_left hpart _
          _ ≤ 2 ^ (32 - n) * 2 ^ taken := Nat.mul_le_mul_right _ hresult
          _ = 2 ^ (32 - (n - taken)) := by rw [hroom, Nat.pow_add]
      have hword : result * 2 ^ taken < 2 ^ 32 := by
        refine (Nat.le_add_right _ _).trans_lt (hnext.trans_le ?_)
        exact Nat.pow_le_pow_right (by decide) (Nat.sub_le _ _)
      have hwithin := hc.advance (BitCursor.left_eq c ▸ hle.trans hleft)
      have hmore : n - taken ≤ (c.advance taken).unread.length := by
        rw [BitCursor.unread_advance, List.length_drop]
        exact Nat.sub_le_sub_right hleft taken
      have hrest := ih (n - taken) (by omega) hwithin hsize (by omega) hmore hnext
      have hsum : taken + (n - taken) = n := Nat.add_sub_cancel' hle
      have hvalue : (result * 2 ^ taken + numberOfBits (c.unread.take taken)) * 2 ^ (n - taken) +
          numberOfBits ((c.advance taken).unread.take (n - taken)) =
            result * 2 ^ n + numberOfBits (c.unread.take n) := by
        have hall := BitCursor.numberOfBits_take_add (hsum.trans_le hleft)
        have hpow := Nat.pow_add 2 taken (n - taken)
        rw [hsum] at hall hpow
        rw [hall, hpow]
        ring
      rw [hvalue, BitCursor.advance_advance, hsum] at hrest
      dsimp only
      rw [← htaken, takePart_eq hc hpositive hbyte (hle.trans hleft) hword, pure_bind,
        add_eq (by omega), pure_bind, sub_eq hle, pure_bind]
      split
      · rename_i hwhole
        have height : c.used + taken = 8 := Nat.le_antisymm hbyte hwhole
        rw [add_eq (by omega), pure_bind, ← BitCursor.advance_of_eq height, hrest]
      · rename_i hshort
        rw [← BitCursor.advance_of_lt (Nat.lt_of_not_le hshort), hrest]
    · rename_i hnone
      obtain rfl : n = 0 := Nat.eq_zero_of_not_pos hnone
      rw [hc.advance_zero]
      simp [numberOfBits]

/-! ### Reading -/

/-- Read `n` bits as one number. -/
def readBits (n : Nat) (c : BitCursor) : Machine (Except Error UInt32 × BitCursor) :=
  if 32 < n then return (.error (.invalidArgument (.tooManyBits n)), c)
  else do
    let left ← bitsLeft c
    if left < n then return (malformed (.bitsPastEnd n left), c)
    else
      let (v, c) ← takeBits n 0 c
      return (.ok (UInt32.ofNat v), c)

/-- One read after the other. -/
def readEach : List Nat → BitCursor → Machine (List (Except Error UInt32) × BitCursor)
  | [], c => return ([], c)
  | n :: ns, c => do
    let (value, c) ← readBits n c
    let (values, c) ← readEach ns c
    return (value :: values, c)

theorem readBits_eq (hc : c.Within) (hsize : c.bytes.size < 2 ^ 60) (hn : n ≤ 32) :
    readBits n c = pure (match c.read n with
      | .ok (v, c') => (.ok v, c')
      | .error e => (.error e, c)) := by
  rw [readBits, if_neg (Nat.not_lt.2 hn), bitsLeft_eq hc hsize, pure_bind, BitCursor.read_eq hc hn]
  by_cases hleft : n ≤ c.unread.length
  · rw [if_neg (Nat.not_lt.2 hleft), if_pos hleft,
      takeBits_eq hc hsize hn hleft (Nat.two_pow_pos _), pure_bind, Nat.zero_mul, Nat.zero_add]
  · rw [if_pos (Nat.lt_of_not_le hleft), if_neg hleft]

theorem readEach_eq (hc : c.Within) (hsize : c.bytes.size < 2 ^ 60) {ns : List Nat}
    (hns : ∀ n ∈ ns, n ≤ 32) : readEach ns c = pure (c.reads ns) := by
  induction ns generalizing c with
  | nil => rfl
  | cons n ns ih =>
    rw [List.forall_mem_cons] at hns
    rw [readEach, readBits_eq hc hsize hns.1, pure_bind, BitCursor.reads]
    cases hread : c.read n with
    | error e =>
      dsimp only
      rw [ih hc hsize hns.2, pure_bind]
    | ok r =>
      obtain ⟨v, c'⟩ := r
      obtain ⟨hbytes, hwithin⟩ := hc.of_read hread
      dsimp only
      rw [ih hwithin (hbytes ▸ hsize) hns.2, pure_bind]

/-- **A machine reads a string of bits.**  Reads cut pieces off it, the most significant bit of each first.
After any reads the next one takes its number off the front of what is left, or takes nothing if that is
too short; and to read bits at once or in several parts is the same. -/
theorem reads_bitString {bytes : ByteArray} (hsize : bytes.size < 2 ^ 60) {ns : List Nat}
    (hns : ∀ n ∈ ns, n ≤ 32) :
    ∃ c : BitCursor,
      readEach ns (.first bytes) = pure ((pieces ns (bitsOfBytes bytes.data.toList)).1, c) ∧
      BitCursor.reads ns (.first bytes) = ((pieces ns (bitsOfBytes bytes.data.toList)).1, c) ∧
      c.unread = (pieces ns (bitsOfBytes bytes.data.toList)).2 ∧ c.left = c.unread.length ∧
      (∀ n ≤ 32,
        (n ≤ c.left → (c.advance n).left = c.left - n ∧ (c.advance n).unread = c.unread.drop n ∧
          c.read n = .ok (UInt32.ofNat (numberOfBits (c.unread.take n)), c.advance n) ∧
          readBits n c =
            pure (.ok (UInt32.ofNat (numberOfBits (c.unread.take n))), c.advance n)) ∧
        (c.left < n → c.read n = malformed (.bitsPastEnd n c.left) ∧
          readBits n c = pure (malformed (.bitsPastEnd n c.left), c))) ∧
      ∀ parts : List Nat, parts.sum ≤ 32 →
        ((∃ r, c.read parts.sum = .ok r) ↔ ∀ r ∈ (c.reads parts).1, ∃ v, r = .ok v) ∧
        ∀ v c', c.read parts.sum = .ok (v, c') →
          ∃ vs : List UInt32, c.reads parts = (vs.map .ok, c') ∧ v.toNat = joined 0 parts vs := by
  have hfirst := BitCursor.within_first bytes
  obtain ⟨hvalues, hrest, hsame, hwithin⟩ := BitCursor.reads_eq hfirst hns
  rw [BitCursor.unread_first] at hvalues hrest
  have hreads : BitCursor.reads ns (.first bytes) =
      ((pieces ns (bitsOfBytes bytes.data.toList)).1, (BitCursor.reads ns (.first bytes)).2) :=
    Prod.ext hvalues rfl
  have hsize' : (BitCursor.reads ns (.first bytes)).2.bytes.size < 2 ^ 60 := hsame ▸ hsize
  refine ⟨_, (readEach_eq hfirst hsize hns).trans (congrArg pure hreads), hreads, hrest,
    BitCursor.left_eq _, fun n hn => ⟨fun hle => ?_, fun hlt => ?_⟩,
    fun parts hparts => BitCursor.read_sum hwithin hparts⟩
  · have hread := BitCursor.read_eq hwithin hn
    rw [if_pos (BitCursor.left_eq _ ▸ hle)] at hread
    refine ⟨BitCursor.left_advance _ n, BitCursor.unread_advance _ n, hread, ?_⟩
    rw [readBits_eq hwithin hsize' hn, hread]
  · have hread := BitCursor.read_eq hwithin hn
    rw [← BitCursor.left_eq, if_neg (Nat.not_le.2 hlt)] at hread
    refine ⟨hread, ?_⟩
    rw [readBits_eq hwithin hsize' hn, hread]

/-- Sixteen bits, read in parts of which one spans two bytes and one is too long. -/
theorem oddWidths_read :
    ∃ c : BitCursor,
      readEach [3, 9, 20] (.first ⟨#[0xB1, 0x55]⟩) =
        pure ([.ok 5, .ok 277, malformed (.bitsPastEnd 20 4)], c) ∧
      c.unread = [false, true, false, true] ∧
      ∃ c', c.read 4 = .ok (5, c') ∧ ∃ vs : List UInt32,
        c.reads [1, 3] = (vs.map .ok, c') ∧ joined 0 [1, 3] vs = 5 := by
  obtain ⟨c, hmachine, -, hrest, hleft, hnext, hparts⟩ :=
    @reads_bitString ⟨#[0xB1, 0x55]⟩ (by decide) [3, 9, 20] (by decide)
  have hpieces : pieces [3, 9, 20] (bitsOfBytes [0xB1, 0x55]) =
      ([.ok 5, .ok 277, malformed (.bitsPastEnd 20 4)], [false, true, false, true]) := rfl
  rw [hpieces] at hmachine hrest
  have hread := ((hnext 4 (by decide)).1 (by rw [hleft, hrest]; decide)).2.2.1
  have hvalue : UInt32.ofNat (numberOfBits (c.unread.take 4)) = 5 := by
    rw [hrest]
    rfl
  rw [hvalue] at hread
  obtain ⟨vs, hvs, hjoined⟩ := (hparts [1, 3] (by decide)).2 5 _ hread
  exact ⟨c, hmachine, hrest, _, hread, vs, hvs, hjoined.symm⟩

/-! ### Passing over bits -/

/-- Pass over `n` bits. -/
def skipBits (n : UInt32) (c : BitCursor) : Machine (Except Error Unit × BitCursor) := do
  let left ← bitsLeft c
  if left < n.toNat then return (malformed .skipPastEnd, c)
  else
    let total ← add 32 c.used n.toNat
    let whole ← div total 8
    let place ← add 64 c.place whole
    return (.ok (), { c with place, used := total % 8 })

theorem skipBits_of_lt (hc : c.Within) (hsize : c.bytes.size < 2 ^ 60) {n : UInt32}
    (h : c.left < n.toNat) : skipBits n c = pure (malformed .skipPastEnd, c) := by
  rw [BitCursor.left_eq] at h
  rw [skipBits, bitsLeft_eq hc hsize, pure_bind, if_pos h]

theorem skipBits_of_le (hc : c.Within) (hsize : c.bytes.size < 2 ^ 60) {n : UInt32}
    (h : n.toNat ≤ c.left) :
    skipBits n c = if c.used + n.toNat < 2 ^ 32 then pure (.ok (), c.advance n.toNat)
      else halt .overflow := by
  have hpassed := hc.passed_le
  have hleft := h
  rw [BitCursor.left_eq] at h
  rw [BitCursor.left, BitCursor.passed] at *
  rw [skipBits, bitsLeft_eq hc hsize, pure_bind, if_neg (Nat.not_lt.2 h)]
  by_cases hword : c.used + n.toNat < 2 ^ 32
  · have hplace : (8 * c.place + c.used + n.toNat) / 8 = c.place + (c.used + n.toNat) / 8 := by omega
    have hused : (8 * c.place + c.used + n.toNat) % 8 = (c.used + n.toNat) % 8 := by omega
    rw [if_pos hword, add_eq hword, pure_bind, div_eq (by decide), pure_bind, add_eq (by omega),
      pure_bind, BitCursor.advance, BitCursor.behind, BitCursor.passed, hplace, hused]
  · rw [if_neg hword, add_eq_halt (Nat.not_lt.1 hword)]
    rfl

/-- The only skip that fails is one over more bits than there are. -/
theorem skip_eq_error_iff (hc : c.Within) (o : Overflow) (n : UInt32) :
    c.skip o n = of (malformed .skipPastEnd) ↔ c.left < n.toNat := by
  refine ⟨fun h => ?_, BitCursor.skip_of_left_lt o⟩
  by_contra hleft
  have hleft := Nat.le_of_not_lt hleft
  rcases Nat.lt_or_ge (c.used + n.toNat) (2 ^ 32) with hword | hword
  · rw [BitCursor.skip_of_lt hc o hleft hword] at h
    cases h
  · cases o with
    | halts =>
      rw [BitCursor.skip_halts hleft hword] at h
      cases h
    | wraps =>
      rw [BitCursor.skip_wraps hc hleft hword] at h
      cases h

/-- A skip comes to a place if there are bits enough, unless it halts. -/
theorem exists_skip_iff (hc : c.Within) (o : Overflow) (n : UInt32) :
    (∃ there, c.skip o n = pure there) ↔
      n.toNat ≤ c.left ∧ (o = .halts → c.used + n.toNat < 2 ^ 32) := by
  rcases Nat.lt_or_ge c.left n.toNat with hleft | hleft
  · rw [BitCursor.skip_of_left_lt o hleft]
    exact iff_of_false nofun fun h => absurd h.1 (Nat.not_le.2 hleft)
  · rcases Nat.lt_or_ge (c.used + n.toNat) (2 ^ 32) with hword | hword
    · exact iff_of_true ⟨_, BitCursor.skip_of_lt hc o hleft hword⟩ ⟨hleft, fun _ => hword⟩
    · cases o with
      | halts =>
        rw [BitCursor.skip_halts hleft hword]
        exact iff_of_false nofun fun h => absurd (h.2 rfl) (Nat.not_lt.2 hword)
      | wraps => exact iff_of_true ⟨_, BitCursor.skip_wraps hc hleft hword⟩ ⟨hleft, nofun⟩

/-- A skip is as many reads of a single bit as long as the distance is a word. -/
theorem skip_eq_singly_iff (hc : c.Within) (o : Overflow) {n : UInt32} (h : n.toNat ≤ c.left) :
    c.skip o n = of (c.singly n.toNat) ↔ c.used + n.toNat < 2 ^ 32 := by
  rw [BitCursor.singly_eq hc h]
  rcases Nat.lt_or_ge (c.used + n.toNat) (2 ^ 32) with hword | hword
  · exact iff_of_true (BitCursor.skip_of_lt hc o h hword) hword
  · refine iff_of_false (fun hsame => ?_) (Nat.not_lt.2 hword)
    cases o with
    | halts =>
      rw [BitCursor.skip_halts h hword] at hsame
      cases hsame
    | wraps =>
      rw [BitCursor.skip_wraps hc h hword, ← of_ok] at hsame
      injection hsame with hsame
      have hpassed := congrArg BitCursor.passed (Except.ok.inj hsame)
      rw [BitCursor.advance, BitCursor.passed_behind, BitCursor.passed, BitCursor.passed] at hpassed
      dsimp only at hpassed
      omega

/-- **A skip that is possible passes over the bits that as many reads of a single bit do, as long as the
distance from the start of its byte is a word of 32 bits.**  Where it is none a build that checks its sums
halts, and one that cuts them down to a word leads back in the byte.  This takes no less than half a
gigabyte. -/
theorem skip_singly_iff {bytes : ByteArray} (hsize : bytes.size < 2 ^ 60) {o : Overflow}
    {calls : List BitCursor.Call} {c : BitCursor}
    (hcalls : (BitCursor.first bytes).afterAll o calls = .ok c) (n : UInt32) :
    (c.skip o n = of (malformed .skipPastEnd) ↔ c.left < n.toNat) ∧
    ((∃ there, c.skip o n = pure there) ↔
      n.toNat ≤ c.left ∧ (o = .halts → c.used + n.toNat < 2 ^ 32)) ∧
    (c.left < n.toNat → skipBits n c = pure (malformed .skipPastEnd, c)) ∧
    (n.toNat ≤ c.left →
      c.singly n.toNat = .ok (c.advance n.toNat) ∧
      (c.skip o n = of (c.singly n.toNat) ↔ c.used + n.toNat < 2 ^ 32) ∧
      (c.used + n.toNat < 2 ^ 32 → skipBits n c = pure (.ok (), c.advance n.toNat)) ∧
      (2 ^ 32 ≤ c.used + n.toNat → skipBits n c = halt .overflow ∧
        (o = .halts → c.skip o n = halt .overflow) ∧
        (o = .wraps → c.skip o n = pure { c with used := c.used - (2 ^ 32 - n.toNat) })) ∧
      (bytes.size < 2 ^ 29 → c.used + n.toNat < 2 ^ 32)) := by
  obtain ⟨hbytes, hc⟩ := (BitCursor.within_first bytes).afterAll hcalls
  have hsame : c.bytes.size = bytes.size := congrArg ByteArray.size hbytes
  have hsize' : c.bytes.size < 2 ^ 60 := hsame ▸ hsize
  refine ⟨skip_eq_error_iff hc o n, exists_skip_iff hc o n, skipBits_of_lt hc hsize',
    fun hle => ⟨BitCursor.singly_eq hc hle, skip_eq_singly_iff hc o hle, fun hword => ?_,
      fun hword => ⟨?_, ?_, ?_⟩, fun hsmall => ?_⟩⟩
  · rw [skipBits_of_le hc hsize' hle, if_pos hword]
  · rw [skipBits_of_le hc hsize' hle, if_neg (Nat.not_lt.2 hword)]
  · rintro rfl
    exact BitCursor.skip_halts hle hword
  · rintro rfl
    exact BitCursor.skip_wraps hc hle hword
  · have hpassed := hc.passed_le
    rw [BitCursor.left_eq, BitCursor.length_unread] at hle
    rw [BitCursor.passed] at hle hpassed
    omega

/-- After one bit of half a gigabyte of zeros, a skip over all the others halts, or leads back to the
start. -/
theorem hugeRun_startsOver :
    ∃ c, (∀ o, (BitCursor.first (Buffer.zeros (2 ^ 29))).afterAll o [.readBit] = .ok c) ∧
      c.left = 2 ^ 32 - 1 ∧
      c.singly (2 ^ 32 - 1) = .ok (.behind (Buffer.zeros (2 ^ 29)) (2 ^ 32)) ∧
      c.skip .halts 0xFFFFFFFF = halt .overflow ∧
      c.skip .wraps 0xFFFFFFFF = pure (.first (Buffer.zeros (2 ^ 29))) ∧
      skipBits 0xFFFFFFFF c = halt .overflow := by
  obtain ⟨bytes, hbytes⟩ : ∃ bytes, bytes = Buffer.zeros (2 ^ 29) := ⟨_, rfl⟩
  have hsize : bytes.size = 2 ^ 29 := hbytes ▸ Buffer.size_zeros _
  rw [← hbytes]
  have hone : BitCursor.advance (.first bytes) 1 = ⟨bytes, 0, 1⟩ :=
    BitCursor.advance_of_lt (Nat.lt_of_sub_eq_succ rfl)
  have hread := BitCursor.readBit_eq (BitCursor.within_first bytes)
  have hmore : 1 ≤ 8 * bytes.data.toList.length := by
    show 1 ≤ 8 * bytes.size
    omega
  rw [BitCursor.unread_first, length_bitsOfBytes, if_pos hmore, hone] at hread
  have hplace (o : Overflow) : (BitCursor.first bytes).afterAll o [.readBit] = .ok ⟨bytes, 0, 1⟩ := by
    rw [BitCursor.afterAll, List.foldlM_cons, BitCursor.after, hread]
    rfl
  have hn : (0xFFFFFFFF : UInt32).toNat = 2 ^ 32 - 1 := by decide
  have hleft : BitCursor.left ⟨bytes, 0, 1⟩ = 2 ^ 32 - 1 := by
    rw [BitCursor.left, hsize]
    dsimp only
    omega
  have hend : BitCursor.advance ⟨bytes, 0, 1⟩ (2 ^ 32 - 1) = .behind bytes (2 ^ 32) := by
    refine congrArg (BitCursor.behind bytes) ?_
    rw [BitCursor.passed]
    dsimp only
    omega
  have hstart : (1 : Nat) - (2 ^ 32 - (2 ^ 32 - 1)) = 0 := by omega
  have hpossible (o : Overflow) :=
    (@skip_singly_iff bytes (by omega) o [.readBit] _ (hplace o) 0xFFFFFFFF).2.2.2
  rw [hn, hleft, hend] at hpossible
  dsimp only at hpossible
  rw [hstart] at hpossible
  obtain ⟨hsingly, -, -, hchecked, -⟩ := hpossible .halts (Nat.le_refl _)
  obtain ⟨-, -, -, hcut, -⟩ := hpossible .wraps (Nat.le_refl _)
  obtain ⟨hhalt, hskip, -⟩ := hchecked (by omega)
  obtain ⟨-, -, hback⟩ := hcut (by omega)
  exact ⟨_, hplace, hleft, hsingly, hskip rfl, hback rfl, hhalt⟩

end IsoMedia.Machine
