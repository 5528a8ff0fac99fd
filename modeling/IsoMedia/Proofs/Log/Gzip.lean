import IsoMedia.Log.Gzip
import IsoMedia.Proofs.Bytes.Bits

/-!
# Unpacking what was packed

`Gzip.unpack?` reads a file in the gzip format that holds one block of fixed codes in which nothing is
repeated, and checks the checksum and the length at its end.  It gives back what `Gzip.pack` was given
(`Gzip.unpack?_pack`).
-/

namespace IsoMedia.Gzip

/-- The lowest `width` bits of a number, the least significant one first. -/
def lowFirst : (width n : Nat) → List Bool
  | 0, _ => []
  | width + 1, n => (n % 2 == 1) :: lowFirst width (n / 2)

/-- The bits of bytes, the least significant bit of each byte first. -/
def bitsLowFirst (bs : List UInt8) : List Bool := bs.flatMap fun b => lowFirst 8 b.toNat

/-- The symbol whose fixed code stands first, and the bits behind it.  Symbols below 256 are bytes, 256
is the end, and those above it tell how much is repeated. -/
def symbol? (bits : List Bool) : Option (Nat × List Bool) :=
  let short := numberOfBits (bits.take 7)
  let middle := numberOfBits (bits.take 8)
  if bits.length < 7 then none
  else if short < 24 then some (256 + short, bits.drop 7)
  else if bits.length < 8 then none
  else if middle < 192 then some (middle - 48, bits.drop 8)
  else if middle < 200 then some (middle + 88, bits.drop 8)
  else if bits.length < 9 then none
  else some (numberOfBits (bits.take 9) - 256, bits.drop 9)

theorem length_of_symbol? {bits rest : List Bool} {s : Nat} (h : symbol? bits = some (s, rest)) :
    rest.length < bits.length := by
  have hdrop {k n : Nat} (hk : 0 < k) (hlong : ¬ bits.length < k)
      (h : some (n, bits.drop k) = some (s, rest)) : rest.length < bits.length := by
    obtain ⟨-, rfl⟩ := Prod.mk.inj (Option.some.inj h)
    rw [List.length_drop]
    omega
  unfold symbol? at h
  dsimp only at h
  split at h
  · cases h
  · split at h
    · exact hdrop (by decide) ‹_› h
    · split at h
      · cases h
      · split at h
        · exact hdrop (by decide) ‹_› h
        · split at h
          · exact hdrop (by decide) ‹_› h
          · split at h
            · cases h
            · exact hdrop (by decide) ‹_› h

/-- The bytes up to the end of a block, and the bits behind it. -/
def bytes? (bits : List Bool) : Option (List UInt8 × List Bool) :=
  match _first : symbol? bits with
  | none => none
  | some (s, rest) =>
    if s = 256 then some ([], rest)
    else if s < 256 then (bytes? rest).map fun (bs, behind) => (UInt8.ofNat s :: bs, behind)
    else none
termination_by bits.length
decreasing_by exact length_of_symbol? _first

/-- The content of a block, which is the last one.  Less than a byte is left behind it. -/
def unblock? : List Bool → Option (List UInt8)
  | true :: true :: false :: bits => do
    let (bs, behind) ← bytes? bits
    if behind.length < 8 then some bs else none
  | _ => none

/-- What a file in the gzip format holds. -/
def unpack? (file : ByteArray) : Option ByteArray := do
  let body ← header.isPrefixOf? file.data.toList
  let place := body.length - 8
  let bs ← unblock? (bitsLowFirst (body.take place))
  if body.drop place = trailer bs then some ⟨bs.toArray⟩ else none

/-! ### Bits in bytes -/

theorem ofLowFirst_lt (bits : List Bool) : ofLowFirst bits < 2 ^ bits.length := by
  induction bits with
  | nil => exact Nat.one_pos
  | cons b bits ih =>
    have hb := Bool.toNat_le b
    rw [ofLowFirst, List.length_cons, Nat.pow_succ]
    omega

/-- Bits that do not fill a number are followed by clear ones. -/
theorem lowFirst_ofLowFirst {width : Nat} {bits : List Bool} (h : bits.length ≤ width) :
    lowFirst width (ofLowFirst bits) = bits ++ List.replicate (width - bits.length) false := by
  induction width generalizing bits with
  | zero =>
    obtain rfl := List.eq_nil_of_length_eq_zero (Nat.le_zero.1 h)
    rfl
  | succ width ih =>
    cases bits with
    | nil =>
      rw [ofLowFirst, lowFirst]
      have hrest := @ih [] (Nat.zero_le _)
      exact congrArg (false :: ·) hrest
    | cons b bits =>
      have hb := Bool.toNat_le b
      have hhalf : (b.toNat + 2 * ofLowFirst bits) / 2 = ofLowFirst bits := by omega
      have hbit : ((b.toNat + 2 * ofLowFirst bits) % 2 == 1) = b := by
        rw [Nat.add_mul_mod_self_left]
        cases b <;> rfl
      rw [ofLowFirst, lowFirst, hhalf, hbit, ih (Nat.le_of_succ_le_succ h), List.length_cons,
        Nat.add_sub_add_right]
      rfl

/-- Bits are found again in the bytes that they fill, with less than a byte of clear bits behind them. -/
theorem bitsLowFirst_bytesOfBits (bits : List Bool) :
    ∃ n < 8, bitsLowFirst (bytesOfBits bits) = bits ++ List.replicate n false := by
  fun_induction bytesOfBits bits with
  | case1 bits hmore ih =>
    obtain ⟨n, hn, hrest⟩ := ih
    have hlength : (bits.take 8).length ≤ 8 := List.length_take_le _ _
    have hbyte : (UInt8.ofNat (ofLowFirst (bits.take 8))).toNat = ofLowFirst (bits.take 8) := by
      rw [UInt8.toNat_ofNat']
      exact Nat.mod_eq_of_lt ((ofLowFirst_lt _).trans_le (Nat.pow_le_pow_right (by decide) hlength))
    rw [bitsLowFirst, List.flatMap_cons, ← bitsLowFirst, hbyte, lowFirst_ofLowFirst hlength, hrest]
    by_cases hfull : 8 ≤ bits.length
    · refine ⟨n, hn, ?_⟩
      rw [List.length_take_of_le hfull, Nat.sub_self, List.replicate_zero, List.append_nil,
        ← List.append_assoc, List.take_append_drop]
    · -- The last byte is not full, and nothing is left for another one.
      have hall := Nat.le_of_lt (Nat.lt_of_not_le hfull)
      have hpositive := List.length_pos_iff.2 hmore
      rw [List.drop_of_length_le hall, bytesOfBits, dif_neg (not_not.2 rfl), List.nil_append] at hrest
      refine ⟨8 - bits.length, by omega, ?_⟩
      rw [List.drop_of_length_le hall, List.nil_append, ← hrest, List.take_of_length_le hall]
      exact List.append_nil _
  | case2 bits hnone =>
    obtain rfl := not_not.1 hnone
    exact ⟨0, by decide, rfl⟩

/-! ### Codes -/

/-- The number that the first bits of a code spell. -/
theorem numberOfBits_take_code {k width n : Nat} (hk : k ≤ width) (hn : n < 2 ^ width)
    (rest : List Bool) :
    numberOfBits ((bitsOfNumber width n ++ rest).take k) = n / 2 ^ (width - k) := by
  have hlength : k ≤ (bitsOfNumber width n).length := by rwa [length_bitsOfNumber]
  rw [List.take_append_of_le_length hlength, take_bitsOfNumber hk, numberOfBits_bitsOfNumber,
    Nat.shiftRight_eq_div_pow]
  refine Nat.mod_eq_of_lt (Nat.div_lt_of_lt_mul ?_)
  rwa [← Nat.pow_add, Nat.sub_add_cancel hk]

/-- The code of a byte is taken off the front of whatever follows it. -/
theorem symbol?_code (b : UInt8) (rest : List Bool) : symbol? (code b ++ rest) = some (b.toNat, rest) := by
  have hb := b.toNat_lt
  unfold code
  split
  · have hcode : 0x30 + b.toNat < 2 ^ 8 := by omega
    have hlength := length_bitsOfNumber 8 (0x30 + b.toNat)
    have hshort := numberOfBits_take_code (k := 7) (by decide) hcode rest
    have hmiddle := numberOfBits_take_code (k := 8) (by decide) hcode rest
    unfold symbol?
    dsimp only
    rw [hshort, hmiddle, List.length_append, hlength, List.drop_left' hlength,
      if_neg (by omega), if_neg (by omega), if_neg (by omega), if_pos (by omega)]
    simp
  · have hcode : 0x100 + b.toNat < 2 ^ 9 := by omega
    have hlength := length_bitsOfNumber 9 (0x100 + b.toNat)
    have hshort := numberOfBits_take_code (k := 7) (by decide) hcode rest
    have hmiddle := numberOfBits_take_code (k := 8) (by decide) hcode rest
    have hlong := numberOfBits_take_code (k := 9) (by decide) hcode rest
    unfold symbol?
    dsimp only
    rw [hshort, hmiddle, hlong, List.length_append, hlength, List.drop_left' hlength,
      if_neg (by omega), if_neg (by omega), if_neg (by omega), if_neg (by omega), if_neg (by omega),
      if_neg (by omega)]
    simp

theorem symbol?_endCode (rest : List Bool) : symbol? (endCode ++ rest) = some (256, rest) := rfl

theorem bytes?_codes (bs : List UInt8) (rest : List Bool) :
    bytes? (bs.flatMap code ++ endCode ++ rest) = some (bs, rest) := by
  induction bs with
  | nil =>
    rw [List.flatMap_nil, List.nil_append, bytes?]
    split
    · rename_i hsymbol
      cases (symbol?_endCode rest).symm.trans hsymbol
    · rename_i hsymbol
      cases (symbol?_endCode rest).symm.trans hsymbol
      exact if_pos rfl
  | cons b bs ih =>
    have hb := b.toNat_lt
    have hfirst := symbol?_code b (bs.flatMap code ++ endCode ++ rest)
    rw [← List.append_assoc, ← List.append_assoc] at hfirst
    rw [List.flatMap_cons, bytes?]
    split
    · rename_i hsymbol
      cases hfirst.symm.trans hsymbol
    · rename_i hsymbol
      cases hfirst.symm.trans hsymbol
      rw [if_neg (by omega), if_pos (by omega), ih, UInt8.ofNat_toNat]
      rfl

theorem unblock?_bytesOfBits (bs : List UInt8) :
    unblock? (bitsLowFirst (bytesOfBits (block bs))) = some bs := by
  obtain ⟨n, hn, hbits⟩ := bitsLowFirst_bytesOfBits (block bs)
  have hbytes := bytes?_codes bs (List.replicate n false)
  rw [hbits, block, List.cons_append, List.cons_append, List.cons_append, unblock?, hbytes]
  exact if_pos ((List.length_replicate).trans_lt hn)

theorem length_littleEndian (width n : Nat) : (littleEndian width n).length = width := by
  induction width generalizing n with
  | zero => rfl
  | succ width ih => rw [littleEndian, List.length_cons, ih]

theorem length_trailer (bs : List UInt8) : (trailer bs).length = 8 := by
  rw [trailer, List.length_append, length_littleEndian, length_littleEndian]

/-- **What was packed is unpacked.** -/
theorem unpack?_pack (content : ByteArray) : unpack? (pack content) = some content := by
  obtain ⟨bs, hbs⟩ : ∃ bs, bs = content.data.toList := ⟨_, rfl⟩
  have hheader (behind : List UInt8) : header.isPrefixOf? (header ++ behind) = some behind := rfl
  have hplace (stream : List UInt8) : (stream ++ trailer bs).length - 8 = stream.length := by
    rw [List.length_append, length_trailer, Nat.add_sub_cancel]
  unfold unpack? pack
  dsimp only
  rw [← hbs, List.append_assoc, hheader, Option.bind_eq_bind, Option.bind_some, hplace,
    List.take_left, List.drop_left, unblock?_bytesOfBits, Option.bind_some, if_pos rfl, hbs]

end IsoMedia.Gzip
