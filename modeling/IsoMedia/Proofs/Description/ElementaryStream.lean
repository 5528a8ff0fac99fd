import IsoMedia.Description.ElementaryStream
import IsoMedia.Proofs.Bytes.Fields

/-!
# Writing stream descriptors, and reading them back

`ElementaryStream.bytes` writes a stream descriptor.  Beside what is kept of it a descriptor has
fields that are passed over, and its lengths may be written in more bytes than they need; all this
is its `Layout`.  Whatever the layout, the descriptor is read back as it was written
(`ElementaryStream.written_descriptor_read`).
-/

namespace IsoMedia.ElementaryStream

/-! ### Writing -/

/-- The lowest seven bits of a number for each of `width` bytes, the most significant ones first.
Every byte but the last has its high bit set. -/
def lengthBytes : Nat → Nat → List UInt8
  | 0, _ => []
  | 1, n => [UInt8.ofNat (n % 128)]
  | width + 2, n =>
    UInt8.ofNat (128 + n / 128 ^ (width + 1) % 128) :: lengthBytes (width + 1) n

/-- What a stream descriptor is written with beside what is kept of it. -/
structure Layout where
  /-- The version and the flags. -/
  full : Vector UInt8 4
  /-- How many bytes the length of each of the three descriptors takes. -/
  streamWidth : Nat
  decoderWidth : Nat
  infoWidth : Nat
  /-- The stream that this one depends on. -/
  dependsOn : Option (Vector UInt8 2)
  address : Option (List UInt8)
  clock : Option (Vector UInt8 2)
  priority : Fin 32
  /-- The two bits behind the stream type. -/
  direction : Fin 4
  bufferSize : Vector UInt8 3

/-- A length takes one to four bytes, and that of an address takes one. -/
structure Layout.Sound (l : Layout) : Prop where
  stream : 1 ≤ l.streamWidth ∧ l.streamWidth ≤ 4
  decoder : 1 ≤ l.decoderWidth ∧ l.decoderWidth ≤ 4
  info : 1 ≤ l.infoWidth ∧ l.infoWidth ≤ 4
  address : ∀ a ∈ l.address, a.length ≤ 255

/-- The bits that announce the optional fields, and the priority. -/
def flagBits (dependsOn address clock : Bool) (priority : Fin 32) : UInt8 :=
  (if dependsOn then 0x80 else 0) ||| (if address then 0x40 else 0) |||
    (if clock then 0x20 else 0) ||| UInt8.ofNat priority

def Layout.flags (l : Layout) : UInt8 :=
  flagBits l.dependsOn.isSome l.address.isSome l.clock.isSome l.priority

def wordBytes : Option (Vector UInt8 2) → List UInt8
  | none => []
  | some word => word.toList

def addressBytes : Option (List UInt8) → List UInt8
  | none => []
  | some address => [[UInt8.ofNat address.length], address].flatten

/-- The optional fields that are there. -/
def Layout.optionalBytes (l : Layout) : List UInt8 :=
  [wordBytes l.dependsOn, addressBytes l.address, wordBytes l.clock].flatten

/-- A tag, and a length in `width` bytes. -/
def headBytes (tag : UInt8) (width length : Nat) : List UInt8 :=
  [[tag], lengthBytes width length].flatten

def descriptorBytes (tag : UInt8) (width : Nat) (content : List UInt8) : List UInt8 :=
  [headBytes tag width content.length, content].flatten

variable (s : ElementaryStream) (l : Layout)

def infoBytes : List UInt8 :=
  match s.decoderInfo with
  | none => []
  | some info => descriptorBytes decoderInfoTag l.infoWidth info

/-- What the descriptor of the decoder holds. -/
def decoderBytes : List UInt8 :=
  [[s.objectType], [UInt8.ofNat (s.streamType.toNat * 4 + l.direction)], l.bufferSize.toList,
    numberBytes 4 s.maxBitrate.toNat, numberBytes 4 s.avgBitrate.toNat, s.infoBytes l].flatten

/-- What the descriptor of the stream holds. -/
def streamBytes : List UInt8 :=
  [numberBytes 2 s.streamId.toNat, [l.flags], l.optionalBytes,
    descriptorBytes decoderTag l.decoderWidth (s.decoderBytes l)].flatten

/-- The payload of the descriptor. -/
def bytes : List UInt8 :=
  [l.full.toList, descriptorBytes streamTag l.streamWidth (s.streamBytes l)].flatten

/-- The stream type takes six bits.  The configuration of the decoder, if there is one, is not
empty, and its length can be written; the lengths of the descriptors around it are not relied on. -/
structure Fits : Prop where
  streamType : s.streamType.toNat < 64
  info : ∀ info ∈ s.decoderInfo, 1 ≤ info.length ∧ info.length < 128 ^ l.infoWidth

/-! ### Reading -/

open Decode

variable {s l}

/-- A length in few enough bytes is read back behind the bits already read, padded or not. -/
theorem reads_lengthFrom {width turns : Nat} (hwidth : 1 ≤ width) (hturns : width ≤ turns)
    (acc n : Nat) :
    Reads (lengthFrom turns acc) (lengthBytes width n) (acc * 128 ^ width + n % 128 ^ width) := by
  induction width, n using lengthBytes.induct generalizing turns acc with
  | case1 => exact absurd hwidth (by decide)
  | case2 n =>
    obtain ⟨turns, rfl⟩ := Nat.exists_eq_add_of_le' hturns
    have hbyte : (UInt8.ofNat (n % 128)).toNat = n % 128 :=
      UInt8.toNat_ofNat_of_lt' (show n % 128 < 256 by omega)
    have hlast : UInt8.ofNat (n % 128) < 0x80 := by
      rw [UInt8.lt_iff_toNat_lt, hbyte]
      exact Nat.mod_lt n (by decide)
    have hread : Reads (lengthFrom (turns + 1) acc) [[UInt8.ofNat (n % 128)]].flatten
        (acc * 128 + n % 128) := by
      refine (reads_u8 _).bind ?_
      rw [if_pos hlast, hbyte, Nat.mod_mod]
      exact .pure _
    exact hread
  | case3 width n ih =>
    obtain ⟨turns, rfl⟩ := Nat.exists_eq_add_of_le' (Nat.le_trans hwidth hturns)
    have hbits : n / 128 ^ (width + 1) % 128 < 128 := Nat.mod_lt _ (by decide)
    have hbyte : (UInt8.ofNat (128 + n / 128 ^ (width + 1) % 128)).toNat =
        128 + n / 128 ^ (width + 1) % 128 :=
      UInt8.toNat_ofNat_of_lt' (show _ < 256 by omega)
    have hmore : ¬ UInt8.ofNat (128 + n / 128 ^ (width + 1) % 128) < 0x80 := by
      rw [UInt8.lt_iff_toNat_lt, hbyte]
      exact Nat.not_lt.2 (Nat.le_add_right _ _)
    have hvalue : (acc * 128 + n / 128 ^ (width + 1) % 128) * 128 ^ (width + 1) +
        n % 128 ^ (width + 1) = acc * 128 ^ (width + 2) + n % 128 ^ (width + 2) := by
      rw [Nat.pow_succ 128 (width + 1), Nat.mod_mul, Nat.add_mul, Nat.mul_assoc,
        Nat.mul_comm 128, Nat.mul_comm (128 ^ (width + 1)) (_ % 128)]
      omega
    have hrest := ih (Nat.le_add_left 1 width) (Nat.le_of_succ_le_succ hturns)
      (acc * 128 + n / 128 ^ (width + 1) % 128)
    rw [hvalue] at hrest
    have hread : Reads (lengthFrom (turns + 1) acc)
        [[UInt8.ofNat (128 + n / 128 ^ (width + 1) % 128)], lengthBytes (width + 1) n].flatten
        (acc * 128 ^ (width + 2) + n % 128 ^ (width + 2)) := by
      refine (reads_u8 _).bind ?_
      rw [if_neg hmore, hbyte, Nat.add_mod_left, Nat.mod_mod]
      exact hrest.last
    rwa [List.flatten_cons, List.flatten_singleton] at hread

example : lengthFrom 4 0 ⟨[0x80, 0x80, 0x82, 0x2C], 0⟩ = .ok (300, ⟨[], 4⟩) := rfl

/-- The flags announce the fields that are there. -/
theorem flagBits_spec : ∀ (dependsOn address clock : Bool) (priority : Fin 32),
    (flagBits dependsOn address clock priority &&& 0x80 ≠ 0 ↔ dependsOn = true) ∧
    (flagBits dependsOn address clock priority &&& 0x40 ≠ 0 ↔ address = true) ∧
    (flagBits dependsOn address clock priority &&& 0x20 ≠ 0 ↔ clock = true) := by
  decide

theorem reads_descriptorHead (tag : UInt8) {width : Nat} (h : 1 ≤ width ∧ width ≤ 4) (n : Nat) :
    Reads descriptorHead (headBytes tag width n) (tag, n % 128 ^ width) := by
  have hlength := reads_lengthFrom h.1 h.2 0 n
  rw [Nat.zero_mul, Nat.zero_add] at hlength
  exact (reads_u8 tag).bind (hlength.bind (.pure _))

theorem reads_optionalWord {word : Option (Vector UInt8 2)} (h : word.isSome = true) :
    Reads (skip 2) (wordBytes word) () := by
  cases word with
  | none => cases h
  | some word => exact reads_skip word.length_toList

theorem wordBytes_of_not_isSome {word : Option (Vector UInt8 2)} (h : ¬ word.isSome = true) :
    wordBytes word = [] := by
  rw [Option.not_isSome_iff_eq_none.1 h]
  rfl

theorem reads_address {address : Option (List UInt8)} (hlength : ∀ a ∈ address, a.length ≤ 255)
    (h : address.isSome = true) :
    Reads (u8 >>= fun length => skip length.toNat) (addressBytes address) () := by
  cases address with
  | none => cases h
  | some address =>
    refine (reads_u8 _).bind ?_
    rw [UInt8.toNat_ofNat_of_lt' (Nat.lt_succ_of_le (hlength address rfl))]
    exact (reads_skip rfl).last

theorem reads_optionalFields (hl : l.Sound) :
    Reads (optionalFields l.flags) l.optionalBytes () := by
  obtain ⟨hdependsOn, haddress, hclock⟩ :=
    flagBits_spec l.dependsOn.isSome l.address.isSome l.clock.isSome l.priority
  have hlast : Reads (if l.flags &&& 0x20 ≠ 0 then skip 2 else pure ()) (wordBytes l.clock) () := by
    split
    · exact reads_optionalWord (hclock.1 ‹_›)
    · rw [wordBytes_of_not_isSome (mt hclock.2 ‹_›)]
      exact .pure ()
  unfold optionalFields Layout.optionalBytes
  simp only [← bind_assoc]
  refine .optional (fun h => reads_optionalWord (hdependsOn.1 h))
    (fun h => wordBytes_of_not_isSome (mt hdependsOn.2 h)) ?_
  refine .optional (fun h => reads_address hl.address (haddress.1 h)) (fun h => ?_) hlast.last
  rw [Option.not_isSome_iff_eq_none.1 (mt haddress.2 h)]
  rfl

/-- The six bits of the stream type, without those behind them. -/
theorem shiftRight_streamType {type : UInt8} (h : type.toNat < 64) (direction : Fin 4) :
    UInt8.ofNat (type.toNat * 4 + direction) >>> 2 = type := by
  have hdirection := direction.isLt
  have hbyte : (UInt8.ofNat (type.toNat * 4 + direction)).toNat = type.toNat * 4 + direction :=
    UInt8.toNat_ofNat_of_lt' (show _ < 256 by omega)
  refine UInt8.toNat_inj.1 ?_
  rw [UInt8.toNat_shiftRight, hbyte]
  show (type.toNat * 4 + direction) >>> 2 = type.toNat
  rw [Nat.shiftRight_eq_div_pow]
  omega

/-- What is behind a descriptor without a configuration would be taken for one. -/
theorem reads_decoderInfoFields (hl : l.Sound) (h : s.Fits l) {trailing : List UInt8}
    (htrailing : s.decoderInfo = none → trailing = []) :
    ReadsBefore trailing decoderInfoFields (s.infoBytes l) s.decoderInfo := by
  unfold infoBytes decoderInfoFields
  have hfits := h.info
  cases hinfo : s.decoderInfo with
  | none =>
    rw [htrailing hinfo]
    exact fun pos => ⟨⟨[], pos⟩, rfl⟩
  | some info =>
    obtain ⟨hsome, hlength⟩ := hfits info hinfo
    refine Reads.readsBefore (.of_atEnd (by simp [descriptorBytes, headBytes]) ?_) trailing
    refine (reads_descriptorHead decoderInfoTag hl.info info.length).bind ?_
    rw [Nat.mod_eq_of_lt hlength]
    dsimp only
    rw [if_pos ⟨rfl, hsome⟩]
    exact ((reads_bytes info).orRefuse _).bind (.pure _)

theorem reads_fields (hl : l.Sound) (h : s.Fits l) {trailing : List UInt8}
    (htrailing : s.decoderInfo = none → trailing = []) :
    ReadsBefore trailing fields (s.bytes l) s := by
  unfold fields bytes streamBytes decoderBytes
  refine (reads_versionFlags l.full.length_toList).before (.last ?_)
  refine (reads_descriptorHead streamTag hl.stream _).before (.last ?_)
  -- The tag is the one that is asked for, so nothing is refused.
  dsimp only
  rw [if_neg (not_not_intro rfl)]
  refine (reads_halfWord s.streamId).before ((reads_u8 _).before
    ((reads_optionalFields hl).before (.last ?_)))
  refine (reads_descriptorHead decoderTag hl.decoder _).before (.last ?_)
  dsimp only
  rw [if_neg (not_not_intro rfl)]
  refine (reads_u8 _).before ((reads_u8 _).before ?_)
  rw [shiftRight_streamType h.streamType]
  refine (reads_skip l.bufferSize.length_toList).before ((reads_u32 _).before
    ((reads_u32 _).before (.last ?_)))
  exact (reads_decoderInfoFields hl h htrailing).returning _

/-- **A stream descriptor is read back as it was written, whichever of its optional fields are there
and however its lengths are padded.  More bytes may follow it if it has a configuration of the
decoder.** -/
theorem written_descriptor_read (s : ElementaryStream) (l : Layout) (trailing : List UInt8)
    (hl : l.Sound) (h : s.Fits l) (htrailing : s.decoderInfo = none → trailing = []) :
    ofPayload (s.bytes l ++ trailing) = .ok s :=
  (reads_fields hl h htrailing).parse

def configured : ElementaryStream := ⟨1, 0x40, 5, 128000, 96000, some [0x12, 0x10]⟩

def bare : ElementaryStream := ⟨2, 0x6B, 63, 0, 0, none⟩

/-- Every optional field, and lengths that are wider than need be. -/
def wide : Layout :=
  ⟨.replicate 4 0, 4, 2, 1, some #v[0, 2], some [0x78], some #v[0, 3], 31, 1, .replicate 3 0⟩

def narrow : Layout := ⟨#v[1, 2, 3, 4], 1, 1, 1, none, none, none, 0, 3, .replicate 3 7⟩

/-- One with two bytes behind it, and one without a configuration. -/
theorem configured_and_bare_read :
    ofPayload
        [0, 0, 0, 0, 3, 0x80, 0x80, 0x80, 0x1D, 0, 1, 0xFF, 0, 2, 1, 0x78, 0, 3, 4, 0x80, 0x11,
          0x40, 0x15, 0, 0, 0, 0, 1, 0xF4, 0, 0, 1, 0x77, 0, 5, 2, 0x12, 0x10, 9, 9] =
      .ok configured ∧
    ofPayload
        [1, 2, 3, 4, 3, 0x12, 0, 2, 0, 4, 0x0D, 0x6B, 0xFF, 7, 7, 7, 0, 0, 0, 0, 0, 0, 0, 0] =
      .ok bare := by
  have hwide : wide.Sound := ⟨by decide, by decide, by decide, by rintro _ ⟨⟩; decide⟩
  have hnarrow : narrow.Sound := ⟨by decide, by decide, by decide, nofun⟩
  have hconfigured : configured.Fits wide := ⟨by decide, by rintro _ ⟨⟩; decide⟩
  have hbare : bare.Fits narrow := ⟨by decide, nofun⟩
  have hbytes : configured.bytes wide ++ [9, 9] =
      [0, 0, 0, 0, 3, 0x80, 0x80, 0x80, 0x1D, 0, 1, 0xFF, 0, 2, 1, 0x78, 0, 3, 4, 0x80, 0x11, 0x40,
        0x15, 0, 0, 0, 0, 1, 0xF4, 0, 0, 1, 0x77, 0, 5, 2, 0x12, 0x10, 9, 9] := by decide
  have hbytes' : bare.bytes narrow ++ [] =
      [1, 2, 3, 4, 3, 0x12, 0, 2, 0, 4, 0x0D, 0x6B, 0xFF, 7, 7, 7, 0, 0, 0, 0, 0, 0, 0, 0] := by
    decide
  have hread := written_descriptor_read configured wide [9, 9] hwide hconfigured nofun
  have hread' := written_descriptor_read bare narrow [] hnarrow hbare fun _ => rfl
  rw [hbytes] at hread
  rw [hbytes'] at hread'
  exact ⟨hread, hread'⟩

end IsoMedia.ElementaryStream
