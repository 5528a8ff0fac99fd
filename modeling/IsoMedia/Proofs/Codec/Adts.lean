import IsoMedia.Codec.Aac
import IsoMedia.Proofs.Bytes.Fields
import IsoMedia.Proofs.Machine.Word

/-!
# What an ADTS header says

An ADTS header is a string of bits, the most significant bit of each byte first, and `Adts.ofBytes`
cuts its fields out of it.  `AudioConfig.saidOf` collects what a header that was written for a
configuration and a payload says there.

* `AudioConfig.ofBytes_header` : every field of a written header.
* `AudioConfig.adtsHeader_of_sample` : every build writes the same header of a frame that is at hand.
* `AudioConfig.adtsHeader_eq_pure_iff` : for which configurations and payloads a header is written.
* `AudioConfig.adtsHeader_faithful_iff` : a written header repeats the channels of its configuration if
  their number has three bits, and the length of the frame if that is a word.  Where it is none a build
  halts, or writes what is left of it.
-/

namespace IsoMedia.Aac

/-- The number that `width` bits spell, from the bit with the given number on. -/
def bitsAt (bs : List UInt8) (start width : Nat) : Nat :=
  bigEndian bs / 2 ^ (8 * bs.length - start - width) % 2 ^ width

/-- The fields of a header without a checksum. -/
structure Adts where
  syncword : Nat
  /-- 0 for MPEG-4 and 1 for MPEG-2. -/
  version : Nat
  layer : Nat
  /-- 1 if there is no checksum. -/
  protectionAbsent : Nat
  /-- The object type less one. -/
  profile : Nat
  rateIndex : Nat
  privateBit : Nat
  channels : Nat
  original : Nat
  home : Nat
  copyrightBit : Nat
  copyrightStart : Nat
  /-- The number of bytes of the frame, those of the header included. -/
  frameLength : Nat
  bufferFullness : Nat
  /-- How many raw data blocks follow the first one. -/
  moreBlocks : Nat
deriving DecidableEq

/-- The fields in the order of the standard. -/
def Adts.ofBytes (bs : List UInt8) : Adts where
  syncword := bitsAt bs 0 12
  version := bitsAt bs 12 1
  layer := bitsAt bs 13 2
  protectionAbsent := bitsAt bs 15 1
  profile := bitsAt bs 16 2
  rateIndex := bitsAt bs 18 4
  privateBit := bitsAt bs 22 1
  channels := bitsAt bs 23 3
  original := bitsAt bs 26 1
  home := bitsAt bs 27 1
  copyrightBit := bitsAt bs 28 1
  copyrightStart := bitsAt bs 29 1
  frameLength := bitsAt bs 30 13
  bufferFullness := bitsAt bs 43 11
  moreBlocks := bitsAt bs 54 2

/-- The header of an MPEG-4 frame of one raw data block and of variable rate, with no checksum and none
of the single bits set. -/
def Adts.plain (profile rateIndex channels frameLength : Nat) : Adts where
  syncword := 0xFFF
  version := 0
  layer := 0
  protectionAbsent := 1
  profile := profile
  rateIndex := rateIndex
  privateBit := 0
  channels := channels
  original := 0
  home := 0
  copyrightBit := 0
  copyrightStart := 0
  frameLength := frameLength
  bufferFullness := 0x7FF
  moreBlocks := 0

namespace AudioConfig

/-- The header repeats the configuration, and tells the length of the frame of the payload. -/
structure Faithful (c : AudioConfig) (payload : UInt64) (header : Adts) : Prop where
  syncword : header.syncword = 0xFFF
  profile : header.profile = c.objectType.toNat - 1
  rateIndex : header.rateIndex = c.rateIndex.toNat
  channels : header.channels = c.channelConfig.toNat
  frameLength : header.frameLength = payload.toNat + 7

/-- What a header says that was written for a configuration and a payload. -/
def saidOf (c : AudioConfig) (payload : UInt64) : Adts :=
  .plain (c.objectType.toNat - 1) c.rateIndex.toNat (c.channelConfig.toNat % 8)
    ((payload.toNat + 7) % 2 ^ 64)

variable {c : AudioConfig} {o : Overflow} {payload : UInt64} {bs header : List UInt8} {length : Nat}

/-! ### The bytes of a header -/

/-- Bits put in front of lower ones. -/
theorem toNat_shiftLeft_or {a b : UInt8} {k : Nat} (hk : k < 8) (ha : a.toNat * 2 ^ k < 256)
    (hb : b.toNat < 2 ^ k) : (a <<< UInt8.ofNat k ||| b).toNat = a.toNat * 2 ^ k + b.toNat := by
  have hshift : (UInt8.ofNat k).toNat % 8 = k := by
    rw [UInt8.toNat_ofNat']
    omega
  rw [UInt8.toNat_or, UInt8.toNat_shiftLeft, hshift, Nat.shiftLeft_eq, Nat.mod_eq_of_lt ha,
    Nat.mul_comm, Nat.two_pow_add_eq_or_of_lt hb]

/-- The third byte: the profile, the rate index, a private bit and the highest bit of the channels. -/
theorem toNat_thirdByte {profile rate channels : UInt8} (hprofile : profile.toNat < 4)
    (hrate : rate.toNat < 16) :
    (profile <<< 6 ||| rate <<< 2 ||| (channels >>> 2 &&& 0x01)).toNat =
      profile.toNat * 64 + rate.toNat * 4 + channels.toNat / 4 % 2 := by
  have hhigh : (channels >>> 2 &&& 0x01).toNat = channels.toNat / 4 % 2 := by
    rw [UInt8.toNat_and, UInt8.toNat_shiftRight]
    exact (Nat.and_one_is_mod _).trans (congrArg (· % 2) (Nat.shiftRight_eq_div_pow _ 2))
  have hlow : (rate <<< 2 ||| (channels >>> 2 &&& 0x01)).toNat =
      rate.toNat * 4 + channels.toNat / 4 % 2 := by
    rw [← hhigh]
    exact toNat_shiftLeft_or (k := 2) (by omega) (by omega) (by omega)
  -- From the right: what is put in front starts above the number that is there already.
  rw [UInt8.or_assoc, Nat.add_assoc, ← hlow]
  exact toNat_shiftLeft_or (k := 6) (by omega) (by omega) (by omega)

/-- The fourth byte: the other bits of the channels, four that are not set, and the highest bits of the
length. -/
theorem toNat_fourthByte (channels : UInt8) (length : UInt64) :
    ((channels &&& 0x03) <<< 6 ||| (length >>> 11 &&& 0x03).toUInt8).toNat =
      channels.toNat % 4 * 64 + length.toNat / 2048 % 4 := by
  have hchannels : (channels &&& 0x03).toNat = channels.toNat % 4 := by
    rw [UInt8.toNat_and]
    exact Nat.and_two_pow_sub_one_eq_mod _ 2
  have hlength : (length >>> 11 &&& 0x03).toUInt8.toNat = length.toNat / 2048 % 4 := by
    rw [UInt64.toNat_toUInt8, UInt64.toNat_and, UInt64.toNat_shiftRight]
    have hbits : length.toNat >>> 11 &&& 3 = length.toNat / 2048 % 4 := by
      rw [Nat.shiftRight_eq_div_pow]
      exact Nat.and_two_pow_sub_one_eq_mod _ 2
    exact (congrArg (· % 2 ^ 8) hbits).trans (Nat.mod_eq_of_lt (by omega))
  rw [← hchannels, ← hlength]
  exact toNat_shiftLeft_or (k := 6) (by omega) (by omega) (by omega)

theorem toNat_fifthByte (length : UInt64) :
    (length >>> 3 &&& 0xFF).toUInt8.toNat = length.toNat / 8 % 256 := by
  rw [UInt64.toNat_toUInt8, UInt64.toNat_and, UInt64.toNat_shiftRight]
  have hbits : length.toNat >>> 3 &&& 255 = length.toNat / 8 % 256 := by
    rw [Nat.shiftRight_eq_div_pow]
    exact Nat.and_two_pow_sub_one_eq_mod _ 8
  exact (congrArg (· % 2 ^ 8) hbits).trans (Nat.mod_eq_of_lt (by omega))

/-- The sixth byte: the lowest bits of the length, and bits that are all set. -/
theorem toNat_sixthByte (length : UInt64) :
    (((length &&& 0x07) <<< 5).toUInt8 ||| 0x1F).toNat = length.toNat % 8 * 32 + 31 := by
  have hlow : ((length &&& 0x07) <<< 5).toUInt8.toNat = length.toNat % 8 * 32 := by
    rw [UInt64.toNat_toUInt8, UInt64.toNat_shiftLeft, UInt64.toNat_and]
    have hbits : length.toNat &&& 7 = length.toNat % 8 := Nat.and_two_pow_sub_one_eq_mod _ 3
    show (length.toNat &&& 7) <<< 5 % 2 ^ 64 % 2 ^ 8 = _
    rw [hbits, Nat.shiftLeft_eq]
    omega
  rw [UInt8.toNat_or, hlow, show length.toNat % 8 * 32 = 2 ^ 5 * (length.toNat % 8) by omega]
  exact (Nat.two_pow_add_eq_or_of_lt (by decide) _).symm

/-! ### Written headers -/

/-- A header can tell the rates that have an index, and the first four object types. -/
theorem inexpressible?_eq_none_iff :
    c.inexpressible? = none ↔
      c.rateIndex.toNat ≤ 12 ∧ 1 ≤ c.objectType.toNat ∧ c.objectType.toNat ≤ 4 := by
  have hrate : 12 < c.rateIndex ↔ 12 < c.rateIndex.toNat := UInt8.lt_iff_toNat_lt
  have hlow : c.objectType < 1 ↔ c.objectType.toNat < 1 := UInt8.lt_iff_toNat_lt
  have hhigh : 4 < c.objectType ↔ 4 < c.objectType.toNat := UInt8.lt_iff_toNat_lt
  simp only [inexpressible?, hrate, hlow, hhigh]
  split
  · exact ⟨nofun, fun h => by omega⟩
  · split
    · exact ⟨nofun, fun h => by omega⟩
    · exact ⟨fun _ => by omega, fun _ => rfl⟩

/-- A header tells the lengths that have thirteen bits. -/
theorem header_eq_ok_iff : (∃ header, c.header length = .ok header) ↔ length ≤ 0x1FFF := by
  unfold AudioConfig.header
  split
  · exact ⟨nofun, fun h => by omega⟩
  · exact ⟨fun _ => by omega, fun _ => ⟨_, rfl⟩⟩

/-- A frame that is at hand has the same header in every build. -/
theorem adtsHeader_of_sample (o : Overflow) (c : AudioConfig) {sample : List UInt8}
    (h : sample.length + 7 < 2 ^ 64) :
    c.adtsHeader o (UInt64.ofNat sample.length) = Machine.of (c.headerFor sample) := by
  have hlength : (UInt64.ofNat sample.length).toNat = sample.length :=
    UInt64.toNat_ofNat_of_lt' (Nat.lt_of_le_of_lt (Nat.le_add_right _ 7) h)
  unfold adtsHeader headerFor
  rw [hlength]
  cases c.inexpressible? with
  | some what => rfl
  | none =>
    dsimp only
    rw [o.add_eq h]
    rfl

/-- A build writes a header for what is left of the length, unless the sum halts it. -/
theorem adtsHeader_eq_pure_iff :
    c.adtsHeader o payload = pure header ↔ c.inexpressible? = none ∧
      (o = .halts → payload.toNat + 7 < 2 ^ 64) ∧
        c.header ((payload.toNat + 7) % 2 ^ 64) = .ok header := by
  unfold adtsHeader
  cases c.inexpressible? with
  | some what => exact ⟨nofun, fun h => nomatch h.1⟩
  | none =>
    simp only [Machine.bind_eq_pure_iff, Overflow.add_eq_pure_iff, Machine.of_eq_pure_iff, true_and]
    constructor
    · rintro ⟨_, ⟨hword, rfl⟩, hheader⟩
      exact ⟨hword, hheader⟩
    · rintro ⟨hword, hheader⟩
      exact ⟨_, ⟨hword, rfl⟩, hheader⟩

/-- The only step that halts a build is the sum. -/
theorem adtsHeader_eq_halt_iff {fault : Machine.Fault} :
    c.adtsHeader o payload = Machine.halt fault ↔ fault = .overflow ∧ o = .halts ∧
      c.inexpressible? = none ∧ 2 ^ 64 ≤ payload.toNat + 7 := by
  unfold adtsHeader
  cases c.inexpressible? with
  | some what =>
    refine iff_of_false (fun h => ?_) fun h => ?_
    · cases h
    · cases h.2.2.1
  | none =>
    dsimp only
    rcases Nat.lt_or_ge (payload.toNat + 7) (2 ^ 64) with hword | hword
    · rw [o.add_eq hword, pure_bind]
      refine iff_of_false (fun h => ?_) fun h => absurd h.2.2.2 (Nat.not_le.2 hword)
      cases h
    · cases o with
      | halts =>
        rw [Overflow.add, Machine.add_eq_halt hword]
        refine ⟨fun h => ⟨?_, rfl, rfl, hword⟩, fun h => h.1 ▸ rfl⟩
        cases h
        rfl
      | wraps =>
        rw [Overflow.wraps_add, pure_bind]
        refine iff_of_false (fun h => ?_) fun h => ?_
        · cases h
        · cases h.2.1

/-- The bytes of a written header as numbers. -/
theorem bytes_of_header (hnone : c.inexpressible? = none) (h : c.header length = .ok header) :
    ∃ third fourth fifth sixth, header = [0xFF, 0xF1, third, fourth, fifth, sixth, 0xFC] ∧
      third.toNat =
        (c.objectType.toNat - 1) * 64 + c.rateIndex.toNat * 4 + c.channelConfig.toNat / 4 % 2 ∧
      fourth.toNat = c.channelConfig.toNat % 4 * 64 + length / 2048 % 4 ∧
      fifth.toNat = length / 8 % 256 ∧ sixth.toNat = length % 8 * 32 + 31 := by
  obtain ⟨hrate, hone, hfour⟩ := inexpressible?_eq_none_iff.1 hnone
  have hlength := header_eq_ok_iff.1 ⟨header, h⟩
  have hprofile : (c.objectType - 1).toNat = c.objectType.toNat - 1 :=
    UInt8.toNat_sub_of_le _ _ (UInt8.le_iff_toNat_le.2 hone)
  have hword : (UInt64.ofNat length).toNat = length := UInt64.toNat_ofNat_of_lt' (by
    show length < 2 ^ 64
    omega)
  -- Only one branch writes a header, and the bytes that are not constants are those named.
  unfold AudioConfig.header at h
  split at h
  · cases h
  · obtain rfl := Except.ok.inj h
    refine ⟨_, _, _, _, rfl, ?_, ?_, ?_, ?_⟩
    · rw [toNat_thirdByte (by omega) (by omega), hprofile]
    · rw [toNat_fourthByte, hword]
    · rw [toNat_fifthByte, hword]
    · rw [toNat_sixthByte, hword]

/-- The fields that are packed into the middle of a header. -/
theorem ofBytes_packed {third fourth fifth sixth : UInt8} {profile rate channels length : Nat}
    (hprofile : profile < 4) (hrate : rate < 16) (hlength : length < 2 ^ 13)
    (hthird : third.toNat = profile * 64 + rate * 4 + channels / 4 % 2)
    (hfourth : fourth.toNat = channels % 4 * 64 + length / 2048 % 4)
    (hfifth : fifth.toNat = length / 8 % 256) (hsixth : sixth.toNat = length % 8 * 32 + 31) :
    Adts.ofBytes [0xFF, 0xF1, third, fourth, fifth, sixth, 0xFC] =
      .plain profile rate (channels % 8) length := by
  have hbits : ∀ start width, bitsAt [0xFF, 0xF1, third, fourth, fifth, sixth, 0xFC] start width =
      ((((((0xFF * 256 + 0xF1) * 256 + third.toNat) * 256 + fourth.toNat) * 256 + fifth.toNat) * 256
        + sixth.toNat) * 256 + 0xFC) / 2 ^ (56 - start - width) % 2 ^ width := fun _ _ => rfl
  simp only [Adts.ofBytes, Adts.plain, hbits, Adts.mk.injEq, Nat.reduceSub, Nat.reducePow]
  refine ⟨?_, ?_, ?_, ?_, ?_, ?_, ?_, ?_, ?_, ?_, ?_, ?_, ?_, ?_, ?_⟩ <;> omega

/-- **Every field of a written header.** -/
theorem ofBytes_header (h : c.adtsHeader o payload = pure header) :
    Adts.ofBytes header = c.saidOf payload := by
  obtain ⟨hnone, -, hheader⟩ := adtsHeader_eq_pure_iff.1 h
  obtain ⟨hrate, hone, hfour⟩ := inexpressible?_eq_none_iff.1 hnone
  have hlength := header_eq_ok_iff.1 ⟨header, hheader⟩
  obtain ⟨third, fourth, fifth, sixth, rfl, hthird, hfourth, hfifth, hsixth⟩ :=
    bytes_of_header hnone hheader
  exact ofBytes_packed (by omega) (by omega) (Nat.lt_succ_of_le hlength) hthird hfourth hfifth
    hsixth

/-- What is said is what was asked for, but for the upper bits of two numbers. -/
theorem faithful_saidOf_iff :
    c.Faithful payload (c.saidOf payload) ↔
      c.channelConfig.toNat < 8 ∧ payload.toNat + 7 < 2 ^ 64 := by
  constructor
  · rintro ⟨-, -, -, hchannels, hlength⟩
    simp only [saidOf, Adts.plain] at hchannels hlength
    omega
  · rintro ⟨hchannels, hlength⟩
    exact ⟨rfl, rfl, rfl, Nat.mod_eq_of_lt hchannels, Nat.mod_eq_of_lt hlength⟩

/-! ### Configurations that were read -/

theorem index_of_rateFor {index : UInt8} {cursor : BitCursor} {r : UInt32 × BitCursor}
    (h : rateFor index cursor = .ok r) : index = explicitRateIndex ∨ index.toNat ≤ 12 := by
  unfold rateFor at h
  split at h
  · exact .inl ‹_›
  · split at h
    · rename_i rate hrate
      have hlt : index.toNat < rates.length := (List.getElem?_eq_some_iff.1 hrate).1
      exact .inr (Nat.le_of_lt_succ hlt)
    · cases h

/-- The rate index of a configuration that was read stands for a rate, or for a rate of its own. -/
theorem rateIndex_of_ofBytes (h : ofBytes bs = .ok c) :
    c.rateIndex = explicitRateIndex ∨ c.rateIndex.toNat ≤ 12 := by
  simp only [ofBytes, bind_eq_ok_iff] at h
  obtain ⟨short, -, h⟩ := h
  split at h
  · simp only [bind_eq_ok_iff] at h
    obtain ⟨long, -, type, -, index, -, rate, hrate, channels, -, hc⟩ := h
    obtain rfl := Except.ok.inj hc
    exact index_of_rateFor hrate
  · simp only [bind_eq_ok_iff] at h
    obtain ⟨type, -, index, -, rate, hrate, channels, -, hc⟩ := h
    obtain rfl := Except.ok.inj hc
    exact index_of_rateFor hrate

/-- **A header is written for the configurations that have a rate index and one of the first four object
types, unless the frame is too long.  It says what the configuration says and how long the frame is,
except that of the channels it keeps three bits, and of the length a word of 64 bits.**  A build that
checks its sums halts instead where the length is no word. -/
theorem adtsHeader_faithful_iff (h : ofBytes bs = .ok c) (o : Overflow) (payload : UInt64) :
    ((∃ header, c.adtsHeader o payload = pure header) ↔
      c.rateIndex ≠ explicitRateIndex ∧ 1 ≤ c.objectType.toNat ∧ c.objectType.toNat ≤ 4 ∧
        (o = .halts → payload.toNat + 7 < 2 ^ 64) ∧ (payload.toNat + 7) % 2 ^ 64 ≤ 0x1FFF) ∧
    (∀ fault, c.adtsHeader o payload = Machine.halt fault ↔ fault = .overflow ∧ o = .halts ∧
      (c.rateIndex ≠ explicitRateIndex ∧ 1 ≤ c.objectType.toNat ∧ c.objectType.toNat ≤ 4) ∧
        2 ^ 64 ≤ payload.toNat + 7) ∧
    ∀ header, c.adtsHeader o payload = pure header →
      header.length = 7 ∧ Adts.ofBytes header = c.saidOf payload ∧
        (c.Faithful payload (Adts.ofBytes header) ↔
          c.channelConfig.toNat < 8 ∧ payload.toNat + 7 < 2 ^ 64) := by
  have hrate : c.rateIndex.toNat ≤ 12 ↔ c.rateIndex ≠ explicitRateIndex := by
    refine ⟨fun hle heq => ?_, fun hne => (rateIndex_of_ofBytes h).resolve_left hne⟩
    rw [heq] at hle
    exact absurd hle (by decide)
  refine ⟨?_, fun fault => ?_, fun header hheader => ?_⟩
  · simp only [adtsHeader_eq_pure_iff, exists_and_left, header_eq_ok_iff,
      inexpressible?_eq_none_iff, hrate, and_assoc]
  · rw [adtsHeader_eq_halt_iff, inexpressible?_eq_none_iff, hrate]
  · have hsaid := ofBytes_header hheader
    refine ⟨?_, hsaid, by rw [hsaid, faithful_saidOf_iff]⟩
    obtain ⟨hnone, -, hok⟩ := adtsHeader_eq_pure_iff.1 hheader
    obtain ⟨third, fourth, fifth, sixth, rfl, -⟩ := bytes_of_header hnone hok
    rfl

/-- Eight channels, by a number that has four bits. -/
def eightChannels : AudioConfig := ⟨2, 4, 44100, 8⟩

/-- Two channels. -/
def stereo : AudioConfig := ⟨2, 4, 44100, 2⟩

/-- In every build the number 8 of channels is written as 0.  The length of a frame that is too long for
a word halts a build, or is written as 6. -/
theorem eightChannels_lost :
    ofBytes [0x12, 0x40] = .ok eightChannels ∧
    (∀ o, eightChannels.adtsHeader o 100 = pure [0xFF, 0xF1, 0x50, 0x00, 0x0D, 0x7F, 0xFC]) ∧
    (Adts.ofBytes [0xFF, 0xF1, 0x50, 0x00, 0x0D, 0x7F, 0xFC]).channels = 0 ∧
    ¬ eightChannels.Faithful 100 (Adts.ofBytes [0xFF, 0xF1, 0x50, 0x00, 0x0D, 0x7F, 0xFC]) ∧
    ofBytes [0x12, 0x10] = .ok stereo ∧
    stereo.adtsHeader .halts 0xFFFFFFFFFFFFFFFF = Machine.halt .overflow ∧
    stereo.adtsHeader .wraps 0xFFFFFFFFFFFFFFFF =
      pure [0xFF, 0xF1, 0x50, 0x80, 0x00, 0xDF, 0xFC] ∧
    (Adts.ofBytes [0xFF, 0xF1, 0x50, 0x80, 0x00, 0xDF, 0xFC]).frameLength = 6 ∧
    stereo.Faithful 100 (Adts.ofBytes [0xFF, 0xF1, 0x50, 0x80, 0x0D, 0x7F, 0xFC]) := by
  have height : ofBytes [0x12, 0x40] = .ok eightChannels := by cbv
  have hstereo : ofBytes [0x12, 0x10] = .ok stereo := by cbv
  have hwritten (o : Overflow) : eightChannels.adtsHeader o 100 =
      pure [0xFF, 0xF1, 0x50, 0x00, 0x0D, 0x7F, 0xFC] := by
    cases o <;> rfl
  obtain ⟨-, hlost, hlostIff⟩ := (adtsHeader_faithful_iff height .halts 100).2.2 _ (hwritten _)
  obtain ⟨-, hwrapped, -⟩ :=
    (adtsHeader_faithful_iff hstereo .wraps 0xFFFFFFFFFFFFFFFF).2.2 _ rfl
  obtain ⟨-, -, hkeptIff⟩ := (adtsHeader_faithful_iff hstereo .halts 100).2.2 _ rfl
  have hhalts := ((adtsHeader_faithful_iff hstereo .halts 0xFFFFFFFFFFFFFFFF).2.1 .overflow).2
    ⟨rfl, rfl, by decide, by decide⟩
  refine ⟨height, hwritten, congrArg Adts.channels hlost, fun hfaithful => ?_, hstereo, hhalts, rfl,
    congrArg Adts.frameLength hwrapped, hkeptIff.2 (by decide)⟩
  exact absurd (hlostIff.1 hfaithful).1 (by decide)

end AudioConfig

end IsoMedia.Aac
