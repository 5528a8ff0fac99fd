import IsoMedia.Codec.Avc
import IsoMedia.Codec.Hevc
import IsoMedia.Proofs.Codec.AnnexB
import IsoMedia.Proofs.Journal

/-!
# Writing configuration records, and reading them back

A record holds a decoder configuration, and among its fields bits that no configuration keeps.
`Avc.Config.record` and `Hevc.Config.record` write a configuration, whatever those bits are.

* `Avc.Config.reads_record`, `Hevc.Config.ofBytes_record` : a written record is read as the configuration
  that it was written from, whatever follows it.
* `configuration_of_record` : this and the byte stream of the parameter sets, for both codecs.
-/

namespace IsoMedia

open AnnexB (PrefixWidth prefixed sample stream)

/-! ### Parts of records -/

/-- A byte with a number in the bits of the mask; the other bits do not matter. -/
def withLow (mask unread : UInt8) (n : Nat) : UInt8 := unread &&& ~~~mask ||| UInt8.ofNat n

theorem withLow_and {mask : UInt8} {k n : Nat} (hmask : mask.toNat = 2 ^ k - 1) (hn : n < 2 ^ k)
    (unread : UInt8) : withLow mask unread n &&& mask = UInt8.ofNat n := by
  have hlow : UInt8.ofNat n &&& mask = UInt8.ofNat n := by
    refine UInt8.toNat_inj.1 ?_
    have := Nat.mod_le n (2 ^ 8)
    rw [UInt8.toNat_and, hmask, Nat.and_two_pow_sub_one_eq_mod, UInt8.toNat_ofNat',
      Nat.mod_eq_of_lt (show n % 2 ^ 8 < 2 ^ k by omega)]
  have hother : unread &&& ~~~mask &&& mask = 0 := by
    rw [UInt8.and_assoc, UInt8.not_and_self, UInt8.and_zero]
  refine UInt8.toNat_inj.1 ?_
  rw [withLow, UInt8.toNat_and, UInt8.toNat_or, Nat.and_or_distrib_right, ← UInt8.toNat_and,
    hother, ← UInt8.toNat_and, hlow]
  exact Nat.zero_or _

theorem toNat_withLow_and {mask : UInt8} {k n : Nat} (hmask : mask.toNat = 2 ^ k - 1)
    (hn : n < 2 ^ k) (unread : UInt8) : (withLow mask unread n &&& mask).toNat = n := by
  have := mask.toNat_lt
  rw [withLow_and hmask hn, UInt8.toNat_ofNat', Nat.mod_eq_of_lt (by omega)]

/-- The width of lengths is written less one. -/
theorem toNat_lengthBits {width : Nat} (h : PrefixWidth width) (unread : UInt8) :
    (withLow 0x03 unread (width - 1) &&& 0x03).toNat + 1 = width := by
  obtain ⟨hone, hfour⟩ := h
  rw [toNat_withLow_and (k := 2) rfl (by omega)]
  omega

theorem Decode.reads_length {n : Nat} (h : n ≤ 65535) :
    Reads u16 (numberBytes 2 n) (UInt16.ofNat n) := by
  have hread := reads_u16 (length_numberBytes 2 n)
  rwa [bigEndian_numberBytes (by omega)] at hread

theorem toNat_length {n : Nat} (h : n ≤ 65535) : (UInt16.ofNat n).toNat = n :=
  UInt16.toNat_ofNat_of_lt' (show n < 2 ^ 16 by omega)

/-! ### H.264 -/

namespace Avc

/-- The bits of a record that no configuration keeps. -/
structure Unread where
  version : UInt8
  compatibility : UInt8
  /-- The byte whose low bits tell the width of lengths. -/
  width : UInt8
  /-- The byte whose low bits tell the number of SPS. -/
  count : UInt8

theorem reads_parameterSet (list : ParameterList) (index : Nat) {set : List UInt8}
    (h : 1 ≤ set.length ∧ set.length ≤ 65535) :
    Decode.Reads (parameterSet list index) (prefixed 2 set) set := by
  have hread : Decode.Reads (parameterSet list index)
      [numberBytes 2 set.length, set].flatten set := by
    refine ((Decode.reads_length h.2).orRefuse _).bind ?_
    rw [toNat_length h.2, if_neg (by omega)]
    exact ((Decode.reads_bytes set).orRefuse _).last
  rwa [List.flatten_cons, List.flatten_singleton] at hread

theorem reads_parameterSets (list : ParameterList) (index : Nat) {sets : List (List UInt8)}
    (h : ∀ set ∈ sets, 1 ≤ set.length ∧ set.length ≤ 65535) :
    Decode.Reads (parameterSets list sets.length index) (sample 2 sets) sets := by
  induction sets generalizing index with
  | nil => exact .pure []
  | cons set sets ih =>
    rw [List.forall_mem_cons] at h
    have hread : Decode.Reads (parameterSets list (sets.length + 1) index)
        [prefixed 2 set, sample 2 sets].flatten (set :: sets) :=
      (reads_parameterSet list index h.1).bind ((ih (index + 1) h.2).bind (.pure _))
    rwa [List.flatten_cons, List.flatten_singleton] at hread

namespace Config

/-- A record has room for the configuration. -/
structure Recordable (c : Config) : Prop where
  width : PrefixWidth c.lengthSize
  sps : c.sps.length ≤ 31
  pps : c.pps.length ≤ 255
  sets : ∀ set ∈ c.sps ++ c.pps, 1 ≤ set.length ∧ set.length ≤ 65535

/-- The record of a configuration. -/
def record (c : Config) (u : Unread) : List UInt8 :=
  [[u.version], [c.profile], [u.compatibility], [c.level],
    [withLow 0x03 u.width (c.lengthSize - 1)], [withLow 0x1F u.count c.sps.length],
    sample 2 c.sps, [UInt8.ofNat c.pps.length], sample 2 c.pps].flatten

variable {c : Config}

theorem seven_le_length_record (c : Config) (u : Unread) : 7 ≤ (c.record u).length := by
  simp [record]
  omega

theorem reads_record (h : c.Recordable) (u : Unread) : Decode.Reads fields (c.record u) c := by
  have hsps : (withLow 0x1F u.count c.sps.length &&& 0x1F).toNat = c.sps.length :=
    toNat_withLow_and (k := 5) rfl (Nat.lt_succ_of_le h.sps) _
  have hpps : (UInt8.ofNat c.pps.length).toNat = c.pps.length :=
    UInt8.toNat_ofNat_of_lt' (Nat.lt_succ_of_le h.pps)
  have hsets := List.forall_mem_append.1 h.sets
  unfold fields record
  refine (Decode.reads_u8 _).bind ((Decode.reads_u8 _).bind ((Decode.reads_u8 _).bind
    ((Decode.reads_u8 _).bind ((Decode.reads_u8 _).bind ((Decode.reads_u8 _).bind ?_)))))
  rw [toNat_lengthBits h.width, hsps]
  -- The number of PPS follows, so the record does not end behind the SPS.
  refine (reads_parameterSets .sps 0 hsets.1).bind (.of_atEnd (by simp) ?_)
  refine ((Decode.reads_u8 _).map UInt8.toNat).bind ?_
  rw [hpps]
  exact (reads_parameterSets .pps 0 hsets.2).bind (.pure _)

/-- A record is read as its configuration, whatever follows it. -/
theorem ofBytes_record (h : c.Recordable) (u : Unread) (rest : List UInt8) :
    ofBytes (c.record u ++ rest) = .ok c := by
  have hlength := seven_le_length_record c u
  unfold ofBytes
  rw [if_neg (by rw [List.length_append]; omega)]
  exact (reads_record h u).parse rest

end Config

theorem result_extraData {record : List UInt8} {c : Config} (h : Config.ofBytes record = .ok c) :
    (extraData record).result = .ok (stream (c.sps ++ c.pps), c.lengthSize) := by
  unfold extraData
  simp only [Checked.result_bind, Checked.result_ofExcept, h]
  rfl

end Avc

/-! ### H.265 -/

namespace Hevc

/-- The number of a kind. -/
def UnitType.toNumber : UnitType → UInt8
  | vps => 32
  | sps => 33
  | pps => 34
  | prefixSei => 39
  | suffixSei => 40
  | other n => n

/-- The kinds that a configuration may hold. -/
def UnitType.listed : List UnitType := [vps, sps, pps, prefixSei, suffixSei]

/-- The bits of a record that no configuration keeps. -/
structure Unread where
  version : UInt8
  /-- The byte whose low bits tell the profile. -/
  profile : UInt8
  /-- What stands between the profile and the level. -/
  compatibility : Vector UInt8 10
  /-- What stands between the level and the width of lengths. -/
  formats : Vector UInt8 8
  /-- The byte whose low bits tell the width of lengths. -/
  width : UInt8
  /-- The byte whose low bits tell the kind of the array of the given number. -/
  kind : Nat → UInt8

/-- An array of units of one kind, as it stands in a record. -/
def arrayBytes (unread : UInt8) (array : UnitType × List (List UInt8)) : List UInt8 :=
  [[withLow 0x3F unread array.1.toNumber.toNat], numberBytes 2 array.2.length,
    sample 2 array.2].flatten

/-- Arrays, the first of which has the number `index`. -/
def arraysBytes (unread : Nat → UInt8) : Nat → List (UnitType × List (List UInt8)) → List UInt8
  | _, [] => []
  | index, array :: arrays =>
    [arrayBytes (unread index) array, arraysBytes unread (index + 1) arrays].flatten

/-- A record has room for the array, and a number for its kind. -/
structure Listable (array : UnitType × List (List UInt8)) : Prop where
  kind : array.1 ∈ UnitType.listed
  count : array.2.length ≤ 65535
  units : ∀ nal ∈ array.2, nal.length ≤ 65535

theorem ofNumber_withLow {type : UnitType} (h : type ∈ UnitType.listed) (unread : UInt8) :
    UnitType.ofNumber (withLow 0x3F unread type.toNumber.toNat &&& 0x3F) = type := by
  have hsmall : type.toNumber.toNat < 2 ^ 6 ∧ UnitType.ofNumber type.toNumber = type := by
    revert type
    decide
  rw [withLow_and (k := 6) rfl hsmall.1, UInt8.ofNat_toNat, hsmall.2]

theorem reads_arrayUnit {nal : List UInt8} (h : nal.length ≤ 65535) :
    Decode.Reads arrayUnit (prefixed 2 nal) nal := by
  have hread : Decode.Reads arrayUnit [numberBytes 2 nal.length, nal].flatten nal := by
    refine (Decode.reads_length h).bind ?_
    rw [toNat_length h]
    exact (Decode.reads_bytes nal).last
  rwa [List.flatten_cons, List.flatten_singleton] at hread

theorem reads_unitArray (index : Nat) {array : UnitType × List (List UInt8)} (h : Listable array)
    (unread : UInt8) : Decode.Reads (unitArray index) (arrayBytes unread array) array := by
  obtain ⟨type, units⟩ := array
  obtain ⟨hkind, hcount, hunits⟩ := h
  have hrows : Decode.Reads (Decode.rows units.length arrayUnit) (sample 2 units) units :=
    Decode.reads_rows fun nal hnal => reads_arrayUnit (hunits nal hnal)
  have hcounted : Decode.Reads (do return (type, ← Decode.rows (← Decode.u16).toNat arrayUnit))
      [numberBytes 2 units.length, sample 2 units].flatten (type, units) := by
    refine (Decode.reads_length hcount).bind ?_
    rw [toNat_length hcount]
    exact hrows.bind (.pure _)
  unfold unitArray arrayBytes
  refine (Decode.reads_u8 _).bind ?_
  rw [ofNumber_withLow hkind]
  -- Every kind but those that are refused goes on to the units.
  cases type with
  | other n => exact absurd hkind (by simp [UnitType.listed])
  | _ => exact hcounted

theorem reads_unitArrays (unread : Nat → UInt8) (index : Nat)
    {arrays : List (UnitType × List (List UInt8))} (h : ∀ array ∈ arrays, Listable array) :
    Decode.Reads (unitArrays arrays.length index) (arraysBytes unread index arrays) arrays := by
  induction arrays generalizing index with
  | nil => exact .pure []
  | cons array arrays ih =>
    rw [List.forall_mem_cons] at h
    exact (reads_unitArray index h.1 _).bind ((ih (index + 1) h.2).bind (.pure _))

namespace Config

/-- A record has room for the configuration. -/
structure Recordable (c : Config) : Prop where
  profile : c.profile.toNat ≤ 31
  width : PrefixWidth c.lengthSize
  count : c.arrays.length ≤ 255
  arrays : ∀ array ∈ c.arrays, Listable array

/-- What stands before the number of arrays. -/
def head (c : Config) (u : Unread) : List UInt8 :=
  [[u.version], [withLow 0x1F u.profile c.profile.toNat], u.compatibility.toList, [c.level],
    u.formats.toList, [withLow 0x03 u.width (c.lengthSize - 1)]].flatten

/-- The record of a configuration. -/
def record (c : Config) (u : Unread) : List UInt8 :=
  [c.head u, [UInt8.ofNat c.arrays.length], arraysBytes u.kind 0 c.arrays].flatten

variable {c : Config}

theorem length_head (c : Config) (u : Unread) : (c.head u).length = 22 := by
  simp [head]

theorem twentyThree_le_length_record (c : Config) (u : Unread) : 23 ≤ (c.record u).length := by
  simp [record, length_head]
  omega

/-- The three bytes that are picked out of the head. -/
theorem getElem?_record (c : Config) (u : Unread) (rest : List UInt8) :
    (c.record u ++ rest)[1]? = some (withLow 0x1F u.profile c.profile.toNat) ∧
    (c.record u ++ rest)[12]? = some c.level ∧
    (c.record u ++ rest)[21]? = some (withLow 0x03 u.width (c.lengthSize - 1)) := by
  simp [record, head, List.getElem?_append]

theorem parse_arrays (h : c.Recordable) (u : Unread) (rest : List UInt8) :
    Decode.parse (do unitArrays (← Decode.u8).toNat 0) ((c.record u ++ rest).drop 22) =
      .ok c.arrays := by
  have hcount : (UInt8.ofNat c.arrays.length).toNat = c.arrays.length :=
    UInt8.toNat_ofNat_of_lt' (Nat.lt_succ_of_le h.count)
  have hread : Decode.Reads (do unitArrays (← Decode.u8).toNat 0)
      [[UInt8.ofNat c.arrays.length], arraysBytes u.kind 0 c.arrays].flatten c.arrays := by
    refine (Decode.reads_u8 _).bind ?_
    rw [hcount]
    exact (reads_unitArrays u.kind 0 h.arrays).last
  rw [record, List.flatten_cons, List.append_assoc, List.drop_left' (length_head c u)]
  exact hread.parse rest

/-- A record is read as its configuration, whatever follows it. -/
theorem ofBytes_record (h : c.Recordable) (u : Unread) (rest : List UInt8) :
    ofBytes (c.record u ++ rest) = .ok c := by
  -- The bytes of the head are picked by their places; only the arrays are read in order.
  have hlength := twentyThree_le_length_record c u
  obtain ⟨hprofile, hlevel, hwidth⟩ := getElem?_record c u rest
  have hprofileBits : withLow 0x1F u.profile c.profile.toNat &&& 0x1F = c.profile := by
    rw [withLow_and (k := 5) rfl (Nat.lt_succ_of_le h.profile), UInt8.ofNat_toNat]
  unfold ofBytes
  rw [if_neg (by rw [List.length_append]; omega), parse_arrays h u rest, hprofile, hlevel, hwidth]
  show Except.ok (Config.mk (withLow 0x1F u.profile c.profile.toNat &&& 0x1F) c.level
    ((withLow 0x03 u.width (c.lengthSize - 1) &&& 0x03).toNat + 1) c.arrays) = .ok c
  rw [hprofileBits, toNat_lengthBits h.width]

end Config

theorem result_extraData {record : List UInt8} {c : Config} (h : Config.ofBytes record = .ok c) :
    (extraData record).result = .ok (stream (c.arrays.flatMap Prod.snd), c.lengthSize) := by
  unfold extraData
  simp only [Checked.result_bind, Checked.result_ofExcept, h]
  rfl

end Hevc

/-! ### Both codecs -/

/-- **A record that was written for a configuration is read as that configuration, whatever the bits are
that it does not keep, and whatever follows the record; the byte stream that is made from it has the
parameter sets in their order, and comes with the width of lengths.** -/
theorem configuration_of_record :
    (∀ c : Avc.Config, c.Recordable → ∀ (u : Avc.Unread) (rest : List UInt8),
      7 ≤ (c.record u).length ∧ Avc.Config.ofBytes (c.record u ++ rest) = .ok c ∧
        (Avc.extraData (c.record u ++ rest)).result =
          .ok (stream (c.sps ++ c.pps), c.lengthSize)) ∧
    ∀ c : Hevc.Config, c.Recordable → ∀ (u : Hevc.Unread) (rest : List UInt8),
      23 ≤ (c.record u).length ∧ Hevc.Config.ofBytes (c.record u ++ rest) = .ok c ∧
        (Hevc.extraData (c.record u ++ rest)).result =
          .ok (stream (c.arrays.flatMap Prod.snd), c.lengthSize) := by
  refine ⟨fun c h u rest => ?_, fun c h u rest => ?_⟩
  · have hread := Avc.Config.ofBytes_record h u rest
    exact ⟨Avc.Config.seven_le_length_record c u, hread, Avc.result_extraData hread⟩
  · have hread := Hevc.Config.ofBytes_record h u rest
    exact ⟨Hevc.Config.twentyThree_le_length_record c u, hread, Hevc.result_extraData hread⟩

/-- An SPS and a PPS, and lengths of four bytes. -/
def Avc.baseline : Avc.Config := ⟨0x42, 0x1E, 4, [[0x67, 0x42, 0x00, 0x1E]], [[0x68, 0xCE]]⟩

/-- A VPS, an empty unit behind it, no SPS, and lengths of two bytes. -/
def Hevc.sparse : Hevc.Config := ⟨1, 93, 2, [(.vps, [[0x40, 0x01, 0x0C], []]), (.sps, [])]⟩

/-- All bits set that no configuration keeps, and a byte behind the record. -/
theorem baseline_and_sparse_read :
    Avc.Config.ofBytes
        [0xFF, 0x42, 0xFF, 0x1E, 0xFF, 0xE1, 0, 4, 0x67, 0x42, 0x00, 0x1E, 1, 0, 2, 0x68, 0xCE, 9] =
      .ok Avc.baseline ∧
    (Avc.extraData
        [0xFF, 0x42, 0xFF, 0x1E, 0xFF, 0xE1, 0, 4, 0x67, 0x42, 0x00, 0x1E, 1, 0, 2, 0x68, 0xCE,
          9]).result =
      .ok ([0, 0, 0, 1, 0x67, 0x42, 0x00, 0x1E, 0, 0, 0, 1, 0x68, 0xCE], 4) ∧
    Hevc.Config.ofBytes
        [0xFF, 0xE1, 0, 0, 0, 0, 0, 0, 0, 0, 0, 0, 93, 0, 0, 0, 0, 0, 0, 0, 0, 0xFD, 2, 0xE0, 0, 2,
          0, 3, 0x40, 0x01, 0x0C, 0, 0, 0xE1, 0, 0, 9] =
      .ok Hevc.sparse ∧
    (Hevc.extraData
        [0xFF, 0xE1, 0, 0, 0, 0, 0, 0, 0, 0, 0, 0, 93, 0, 0, 0, 0, 0, 0, 0, 0, 0xFD, 2, 0xE0, 0, 2,
          0, 3, 0x40, 0x01, 0x0C, 0, 0, 0xE1, 0, 0, 9]).result =
      .ok ([0, 0, 0, 1, 0x40, 0x01, 0x0C, 0, 0, 0, 1], 2) := by
  have hbaseline : Avc.baseline.Recordable := ⟨by decide, by decide, by decide, by decide⟩
  have hlistable : ∀ array ∈ Hevc.sparse.arrays, Hevc.Listable array := by
    intro array harray
    rcases List.mem_cons.1 harray with rfl | harray
    · exact ⟨by decide, by decide, by decide⟩
    · obtain rfl := List.mem_singleton.1 harray
      exact ⟨by decide, by decide, by decide⟩
  have hsparse : Hevc.sparse.Recordable := ⟨by decide, by decide, by decide, hlistable⟩
  obtain ⟨-, havc, havcExtra⟩ :=
    configuration_of_record.1 _ hbaseline ⟨0xFF, 0xFF, 0xFF, 0xFF⟩ [9]
  obtain ⟨-, hhevc, hhevcExtra⟩ := configuration_of_record.2 _ hsparse
    ⟨0xFF, 0xFF, .replicate 10 0, .replicate 8 0, 0xFF, fun _ => 0xFF⟩ [9]
  exact ⟨havc, havcExtra, hhevc, hhevcExtra⟩

end IsoMedia
