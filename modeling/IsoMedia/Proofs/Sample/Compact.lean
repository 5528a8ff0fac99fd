import IsoMedia.Proofs.Sample.Rows

/-!
# Compact tables and wide ones

The sizes of samples can be written in fields of 4, 8 or 16 bits or in words of 32 bits, and the places
of chunks in words of 32 or of 64 bits.  What fits into the narrow fields is read from both alike
(`compact_agrees_wide`): the fields of a compact table are the first ones of all that its packed bytes
hold (`FieldWidth.unpack_bits`), and those are the numbers that were packed, with nothing behind
them but what pads the last byte (`FieldWidth.exists_fields_pack`).
-/

namespace IsoMedia

/-- The widths that the fields of a compact table may have. -/
inductive FieldWidth where
  | half
  | byte
  | pair

namespace FieldWidth

def bits : FieldWidth → Nat
  | half => 4
  | byte => 8
  | pair => 16

/-- Two numbers in a byte, the first of them in its high half.  With the last of an odd number of them
stands `padding`. -/
def packHalves (padding : Fin 16) : List UInt32 → List UInt8
  | [] => []
  | [a] => [UInt8.ofNat (a.toNat * 16 + padding)]
  | a :: b :: ns => UInt8.ofNat (a.toNat * 16 + b.toNat) :: packHalves padding ns

/-- Numbers in fields of the width. -/
def pack (padding : Fin 16) : FieldWidth → List UInt32 → List UInt8
  | half, ns => packHalves padding ns
  | byte, ns => ns.flatMap fun n => numberBytes 1 n.toNat
  | pair, ns => ns.flatMap fun n => numberBytes 2 n.toNat

/-- How many bytes so many fields take. -/
def packed (w : FieldWidth) (count : Nat) : Nat := (count * w.bits + 7) / 8

/-- All fields in packed bytes, with the padding. -/
def fields : FieldWidth → List UInt8 → List UInt32
  | half, bs => bs.flatMap halves
  | byte, bs => bs.map UInt8.toUInt32
  | pair, bs => SampleSizes.pairs bs

theorem packedLength?_bits (w : FieldWidth) (count : Nat) :
    SampleSizes.packedLength? w.bits count = some (w.packed count) := by
  cases w with
  | half =>
    refine congrArg some ?_
    show (count + 1) / 2 = (count * 4 + 7) / 8
    omega
  | byte =>
    refine congrArg some ?_
    show count = (count * 8 + 7) / 8
    omega
  | pair =>
    refine congrArg some ?_
    show count * 2 = (count * 16 + 7) / 8
    omega

/-- There are no other widths. -/
theorem packedLength?_of_other {width : Nat} (h : ∀ w : FieldWidth, width ≠ w.bits) (count : Nat) :
    SampleSizes.packedLength? width count = none := by
  unfold SampleSizes.packedLength?
  split
  · exact absurd rfl (h half)
  · exact absurd rfl (h byte)
  · exact absurd rfl (h pair)
  · rfl

theorem bits_lt (w : FieldWidth) : w.bits < 256 := by
  cases w <;> decide

theorem packed_mono (w : FieldWidth) {count count' : Nat} (h : count ≤ count') :
    w.packed count ≤ w.packed count' :=
  Nat.div_le_div_right (Nat.add_le_add_right (Nat.mul_le_mul_right w.bits h) 7)

theorem length_pack (padding : Fin 16) (w : FieldWidth) (ns : List UInt32) :
    (w.pack padding ns).length = w.packed ns.length := by
  cases w with
  | half =>
    show (packHalves padding ns).length = (ns.length * 4 + 7) / 8
    fun_induction packHalves padding ns with
    | case1 => rfl
    | case2 => simp
    | case3 a b ns ih =>
      rw [List.length_cons, ih, List.length_cons, List.length_cons]
      omega
  | byte =>
    show (ns.flatMap fun n => numberBytes 1 n.toNat).length = (ns.length * 8 + 7) / 8
    rw [Decode.length_flatMap_rows fun _ => length_numberBytes 1 _]
    omega
  | pair =>
    show (ns.flatMap fun n => numberBytes 2 n.toNat).length = (ns.length * 16 + 7) / 8
    rw [Decode.length_flatMap_rows fun _ => length_numberBytes 2 _]
    omega

/-! ### Unpacking -/

theorem pairs_take (bs : List UInt8) (count : Nat) :
    SampleSizes.pairs (bs.take (count * 2)) = (SampleSizes.pairs bs).take count := by
  fun_induction SampleSizes.pairs bs generalizing count with
  | case1 a b bs ih =>
    cases count with
    | zero => rfl
    | succ count =>
      rw [List.take_succ_cons, ← ih, Nat.succ_mul]
      rfl
  | case2 bs hshort =>
    match bs, count with
    | [], _ => simp [SampleSizes.pairs]
    | [_], 0 => rfl
    | [_], _ + 1 => simp [Nat.succ_mul, SampleSizes.pairs]
    | _ :: _ :: _, _ => exact absurd rfl (hshort _ _ _)

theorem halves_take {bs : List UInt8} {count : Nat} (h : (count + 1) / 2 ≤ bs.length) :
    ((bs.take ((count + 1) / 2)).flatMap halves).take count = (bs.flatMap halves).take count := by
  have hlength : ((bs.take ((count + 1) / 2)).flatMap halves).length = (count + 1) / 2 * 2 := by
    rw [Decode.length_flatMap_rows length_halves, List.length_take_of_le h]
  calc ((bs.take ((count + 1) / 2)).flatMap halves).take count
      = ((bs.take ((count + 1) / 2)).flatMap halves ++
          (bs.drop ((count + 1) / 2)).flatMap halves).take count :=
        (List.take_append_of_le_length (by omega)).symm
    _ = (bs.flatMap halves).take count := by
        rw [← List.flatMap_append, List.take_append_drop]

/-- The fields of a table are the first ones of all that stand in its bytes and in what follows them. -/
theorem unpack_bits (w : FieldWidth) {count : Nat} {bs : List UInt8}
    (h : w.packed count ≤ bs.length) :
    SampleSizes.unpack w.bits count (bs.take (w.packed count)) = (w.fields bs).take count := by
  have hpacked := w.packedLength?_bits count
  cases w with
  | half =>
    rw [← Option.some.inj hpacked] at h ⊢
    exact halves_take h
  | byte =>
    rw [← Option.some.inj hpacked]
    exact List.map_take
  | pair =>
    rw [← Option.some.inj hpacked]
    exact pairs_take bs count

/-! ### Unpacking what was packed -/

/-- Fields that are found one by one are found all. -/
theorem fields_flatMap {w : FieldWidth} {write : UInt32 → List UInt8} (hnil : w.fields [] = [])
    (hcons : ∀ n bs, n.toNat < 2 ^ w.bits → w.fields (write n ++ bs) = n :: w.fields bs)
    {ns : List UInt32} (h : ∀ n ∈ ns, n.toNat < 2 ^ w.bits) : w.fields (ns.flatMap write) = ns := by
  induction ns with
  | nil => exact hnil
  | cons n ns ih =>
    rw [List.flatMap_cons, hcons n _ (h n List.mem_cons_self),
      ih fun m hm => h m (List.mem_cons_of_mem _ hm)]

/-- What is packed is found in the bytes, with nothing behind it but the padding. -/
theorem exists_fields_pack (w : FieldWidth) (padding : Fin 16) {ns : List UInt32}
    (h : ∀ n ∈ ns, n.toNat < 2 ^ w.bits) : ∃ rest, w.fields (w.pack padding ns) = ns ++ rest := by
  cases w with
  | half =>
    show ∃ rest, (packHalves padding ns).flatMap halves = ns ++ rest
    -- Two numbers go with each byte; the padding is behind a last one that has a byte for itself.
    fun_induction packHalves padding ns with
    | case1 => exact ⟨[], rfl⟩
    | case2 a =>
      have ha := h a (List.mem_singleton_self a)
      refine ⟨[UInt32.ofNat padding], ?_⟩
      rw [List.flatMap_singleton, halves_of_sum ha padding.isLt, UInt32.ofNat_toNat]
      rfl
    | case3 a b ns ih =>
      have ha := h a List.mem_cons_self
      have hb := h b (List.mem_cons_of_mem _ List.mem_cons_self)
      obtain ⟨rest, hrest⟩ := ih fun n hn => h n (List.mem_cons_of_mem _ (List.mem_cons_of_mem _ hn))
      refine ⟨rest, ?_⟩
      rw [List.flatMap_cons, hrest, halves_of_sum ha hb, UInt32.ofNat_toNat, UInt32.ofNat_toNat]
      rfl
  | byte =>
    refine ⟨[], (fields_flatMap rfl (fun n bs hn => ?_) h).trans (List.append_nil ns).symm⟩
    have hbyte : (UInt8.ofNat n.toNat).toNat = n.toNat := UInt8.toNat_ofNat_of_lt' hn
    show (UInt8.ofNat n.toNat).toUInt32 :: byte.fields bs = _
    rw [← UInt32.ofNat_uInt8ToNat, hbyte, UInt32.ofNat_toNat]
  | pair =>
    refine ⟨[], (fields_flatMap rfl (fun n bs hn => ?_) h).trans (List.append_nil ns).symm⟩
    have hpair : bigEndian (numberBytes 2 n.toNat) = n.toNat := bigEndian_numberBytes hn
    show UInt32.ofNat (bigEndian (numberBytes 2 n.toNat)) :: pair.fields bs = _
    rw [hpair, UInt32.ofNat_toNat]

end FieldWidth

namespace SampleSizes

variable {payload : List UInt8}

theorem needs_compactFields : Decode.Needs compactFields 12 := by
  obtain ⟨f, hf⟩ := Decode.versionFlags_eq
  rw [compactFields, hf, Decode.skip_eq, Decode.u8_eq, Decode.u32_eq]
  exact .field (fun _ => .field (fun _ => .field (fun _ => .field (fun _ => Decode.needs_zero _) _ 4)
    _ 1) _ 3) f 4

/-- Behind the head there are the fields, if it has a width that there is. -/
theorem compactFields_of_head {b : UInt8} (h : 12 ≤ payload.length) (hwidth : payload[7]? = some b) :
    compactFields ⟨payload, 0⟩ =
      (match packedLength? b.toNat (wordAt payload 8).toNat with
      | none => Decode.refuse (.invalidData (.compactFieldWidth b.toNat))
      | some need =>
        (Decode.bytes need).orRefuse
          (.invalidData (.compactTableShort (wordAt payload 8).toNat need)) >>= fun packed =>
            pure (SampleSizes.mk 0 (wordAt payload 8)
              (unpack b.toNat (wordAt payload 8).toNat packed).toArray))
        ⟨payload.drop 12, 12⟩ := by
  obtain ⟨f, hf⟩ := Decode.versionFlags_eq
  have hb : UInt8.ofNat (bigEndian (bytesAt payload 7 1)) = b := by
    rw [bytesAt_one hwidth, bigEndian_singleton, UInt8.ofNat_toNat]
  show compactFields ⟨payload.drop 0, 0⟩ = _
  rw [compactFields, hf, Decode.bind_fieldAt _ _ (by omega), Decode.skip_eq,
    Decode.bind_fieldAt _ _ (by omega), Decode.u8_eq, Decode.bind_fieldAt _ _ (by omega), hb,
    Decode.u32_eq, Decode.bind_fieldAt _ _ (by omega)]
  rfl

/-- A width that there is not is refused as such. -/
theorem ofCompact_of_otherWidth {b : UInt8} (h : 12 ≤ payload.length) (hwidth : payload[7]? = some b)
    (hother : ∀ w : FieldWidth, b.toNat ≠ w.bits) :
    ofCompact payload = .error (.invalidData (.compactFieldWidth b.toNat)) := by
  unfold ofCompact Decode.parse
  rw [StateT.run, compactFields_of_head h hwidth, FieldWidth.packedLength?_of_other hother]
  rfl

/-- The sizes behind a head are the fields that stand there, or they are refused by their number. -/
theorem ofCompact_of_width (w : FieldWidth) (h : 12 ≤ payload.length)
    (hwidth : payload[7]? = some (UInt8.ofNat w.bits)) :
    ofCompact payload =
      if 12 + w.packed (wordAt payload 8).toNat ≤ payload.length then
        .ok ⟨0, wordAt payload 8,
          ((w.fields (payload.drop 12)).take (wordAt payload 8).toNat).toArray⟩
      else .error (.invalidData (.compactTableShort (wordAt payload 8).toNat
        (w.packed (wordAt payload 8).toNat))) := by
  have hbits : (UInt8.ofNat w.bits).toNat = w.bits := UInt8.toNat_ofNat_of_lt' w.bits_lt
  unfold ofCompact Decode.parse
  rw [StateT.run, compactFields_of_head h hwidth, hbits, FieldWidth.packedLength?_bits]
  dsimp only
  rw [Decode.bind_bytes_orRefuse]
  by_cases hroom : 12 + w.packed (wordAt payload 8).toNat ≤ payload.length
  · have hpacked : w.packed (wordAt payload 8).toNat ≤ (payload.drop 12).length := by
      rw [List.length_drop]
      omega
    rw [if_pos hroom, if_pos hpacked, FieldWidth.unpack_bits w hpacked]
    rfl
  · have hpacked : ¬ w.packed (wordAt payload 8).toNat ≤ (payload.drop 12).length := by
      rw [List.length_drop]
      omega
    rw [if_neg hroom, if_neg hpacked]

/-- Accepted is what has fields of a width that there is, and as many of them as the head announces. -/
theorem exists_ofCompact_iff :
    (∃ s, ofCompact payload = .ok s) ↔
      ∃ w : FieldWidth, payload[7]? = some (UInt8.ofNat w.bits) ∧
        12 + w.packed (wordAt payload 8).toNat ≤ payload.length := by
  constructor
  · rintro ⟨s, hs⟩
    by_cases hhead : 12 ≤ payload.length
    · have hwidth : payload[7]? = some payload[7] := List.getElem?_eq_getElem (by omega)
      by_cases hother : ∀ w : FieldWidth, payload[7].toNat ≠ w.bits
      · rw [ofCompact_of_otherWidth hhead hwidth hother] at hs
        cases hs
      · obtain ⟨w, hw⟩ := not_forall_not.1 hother
        rw [← UInt8.ofNat_toNat (x := payload[7]), hw] at hwidth
        rw [ofCompact_of_width w hhead hwidth] at hs
        refine ⟨w, hwidth, ?_⟩
        by_contra hshort
        rw [if_neg hshort] at hs
        cases hs
    · obtain ⟨e, he⟩ := needs_compactFields.parse (Nat.lt_of_not_le hhead)
      rw [ofCompact, he] at hs
      cases hs
  · rintro ⟨w, hwidth, hroom⟩
    exact ⟨_, (ofCompact_of_width w (by omega) hwidth).trans (if_pos hroom)⟩

/-! ### What is written -/

/-- The sizes in fields of one width. -/
def compactBytes (w : FieldWidth) (padding : Fin 16) (full reserved : Nat) (ns : List UInt32) :
    List UInt8 :=
  [numberBytes 4 full, numberBytes 3 reserved, [UInt8.ofNat w.bits], numberBytes 4 ns.length,
    w.pack padding ns].flatten

/-- The sizes in words, behind a size for all of them that is zero. -/
def wideBytes (full : Nat) (ns : List UInt32) : List UInt8 :=
  [numberBytes 4 full, numberBytes 4 0, numberBytes 4 ns.length,
    ns.flatMap fun n => numberBytes 4 n.toNat].flatten

/-- The sizes one by one, as far as a word can count them. -/
def ofList (ns : List UInt32) : SampleSizes :=
  ⟨0, UInt32.ofNat ns.length, (ns.take (ns.length % 2 ^ 32)).toArray⟩

theorem ofCompact_compactBytes (w : FieldWidth) (padding : Fin 16) (full reserved : Nat)
    {ns : List UInt32} (h : ∀ n ∈ ns, n.toNat < 2 ^ w.bits) :
    ofCompact (compactBytes w padding full reserved ns) = .ok (ofList ns) := by
  have hlength : (compactBytes w padding full reserved ns).length = 12 + w.packed ns.length := by
    simp only [compactBytes, List.flatten_cons, List.flatten_nil, List.length_append,
      length_numberBytes, FieldWidth.length_pack, List.length_singleton, List.length_nil]
    omega
  have hwidth : (compactBytes w padding full reserved ns)[7]? = some (UInt8.ofNat w.bits) := by
    simp [compactBytes, List.getElem?_append]
  have hcount : wordAt (compactBytes w padding full reserved ns) 8 = UInt32.ofNat ns.length :=
    wordAt_flatten [numberBytes 4 full, numberBytes 3 reserved, [UInt8.ofNat w.bits]] ns.length
      [w.pack padding ns] (by simp)
  have hdrop : (compactBytes w padding full reserved ns).drop 12 = w.pack padding ns :=
    drop_flatten [numberBytes 4 full, numberBytes 3 reserved, [UInt8.ofNat w.bits],
      numberBytes 4 ns.length] _ (by simp)
  have hmod : ns.length % 2 ^ 32 ≤ ns.length := Nat.mod_le _ _
  obtain ⟨rest, hfields⟩ := w.exists_fields_pack padding h
  rw [ofCompact_of_width w (by omega) hwidth, hcount, hdrop, hfields, UInt32.toNat_ofNat',
    List.take_append_of_le_length hmod]
  refine if_pos ?_
  have := w.packed_mono hmod
  omega

theorem ofWide_wideBytes (full : Nat) (ns : List UInt32) :
    ofWide (wideBytes full ns) = .ok (ofList ns) := by
  have hfixed : wordAt (wideBytes full ns) 4 = 0 :=
    wordAt_flatten [numberBytes 4 full] 0 [numberBytes 4 ns.length, _] (by simp)
  have hcount : wordAt (wideBytes full ns) 8 = UInt32.ofNat ns.length :=
    wordAt_flatten [numberBytes 4 full, numberBytes 4 0] ns.length [_] (by simp)
  have hdrop : (wideBytes full ns).drop 12 = ns.flatMap fun n => numberBytes 4 n.toNat :=
    drop_flatten [numberBytes 4 full, numberBytes 4 0, numberBytes 4 ns.length] _ (by simp)
  have hhead : 12 ≤ (wideBytes full ns).length := by
    simp only [wideBytes, List.flatten_cons, List.length_append, length_numberBytes]
    omega
  have hrows : RowsAt ((wideBytes full ns).drop 12) 0 4 (fun bs => wordAt bs 0) ns := by
    rw [hdrop]
    refine rowsAt_flatMap (fun (n : UInt32) => length_numberBytes 4 n.toNat) fun n _ => ?_
    rw [wordAt_numberBytes, UInt32.ofNat_toNat]
  refine ofWide_eq_ok_iff.2 ⟨hfixed.symm, hcount.symm, ?_, (hrows.take _).of_drop hhead⟩
  rw [declared, if_pos hfixed, hcount, UInt32.toNat_ofNat']
  exact List.length_take_of_le (Nat.mod_le _ _)

theorem sizeAt_ofList {ns : List UInt32} (h : ns.length < 2 ^ 32) (i : Nat) :
    (ofList ns).sizeAt i =
      match ns[i]? with
      | some n => .ok n
      | none => malformed (.sampleWithoutSize i ns.length) := by
  have hall : ns.take (ns.length % 2 ^ 32) = ns := by
    rw [Nat.mod_eq_of_lt h, List.take_length]
  rw [ofList, hall]
  cases hi : ns[i]? with
  | none => simp [sizeAt, hi]
  | some n => simp [sizeAt, hi]

end SampleSizes

namespace ChunkOffsets

theorem ofNarrow_tableBytes (full : Nat) {os : List UInt64} (h : ∀ o ∈ os, o.toNat < 2 ^ 32) :
    ofNarrow (Decode.tableBytes (numberBytes 4 full) (fun o => numberBytes 4 o.toNat) os) =
      .ok (os.take (os.length % 2 ^ 32)) := by
  refine RowTable.narrowOffsets.ofPayload_tableBytes (length_numberBytes 4 full)
    (fun _ => length_numberBytes 4 _) fun (o : UInt64) ho => ?_
  show (wordAt (numberBytes 4 o.toNat) 0).toUInt64 = o
  rw [wordAt_numberBytes]
  refine UInt64.toNat_inj.1 ?_
  rw [UInt32.toNat_toUInt64, UInt32.toNat_ofNat_of_lt' (h o ho)]

theorem ofWide_tableBytes (full : Nat) (os : List UInt64) :
    ofWide (Decode.tableBytes (numberBytes 4 full) (fun o => numberBytes 8 o.toNat) os) =
      .ok (os.take (os.length % 2 ^ 32)) := by
  refine RowTable.wideOffsets.ofPayload_tableBytes (length_numberBytes 4 full)
    (fun _ => length_numberBytes 8 _) fun (o : UInt64) _ => ?_
  show UInt64.ofNat (bigEndian (bytesAt (numberBytes 8 o.toNat) 0 8)) = o
  rw [bytesAt_zero (length_numberBytes 8 _), bigEndian_numberBytes o.toNat_lt, UInt64.ofNat_toNat]

end ChunkOffsets

open SampleSizes in
/-- **What fits into narrow fields is read from them as it is read from wide ones**: sizes in fields
of any width, whatever pads the last byte, and the places of chunks in words of 32 bits.  Sizes in
fields of another width are refused, and so is a table with fewer bytes than its fields take. -/
theorem compact_agrees_wide :
    (∀ (w : FieldWidth) (padding : Fin 16) (full full' reserved : Nat) (ns : List UInt32),
      (∀ n ∈ ns, n.toNat < 2 ^ w.bits) →
        ∃ s, ofCompact (compactBytes w padding full reserved ns) = .ok s ∧
          ofWide (wideBytes full' ns) = .ok s ∧
          (ns.length < 2 ^ 32 → s.sampleCount.toNat = ns.length ∧
            ∀ i, s.sizeAt i =
              match ns[i]? with
              | some n => .ok n
              | none => malformed (.sampleWithoutSize i ns.length))) ∧
    (∀ (full full' : Nat) (os : List UInt64), (∀ o ∈ os, o.toNat < 2 ^ 32) →
      ∃ offsets,
        ChunkOffsets.ofNarrow
          (Decode.tableBytes (numberBytes 4 full) (fun o => numberBytes 4 o.toNat) os) =
            .ok offsets ∧
        ChunkOffsets.ofWide
          (Decode.tableBytes (numberBytes 4 full') (fun o => numberBytes 8 o.toNat) os) =
            .ok offsets ∧
        (os.length < 2 ^ 32 → offsets = os)) ∧
    (∀ payload : List UInt8,
      (∃ s, ofCompact payload = .ok s) ↔
        ∃ w : FieldWidth, payload[7]? = some (UInt8.ofNat w.bits) ∧
          12 + w.packed (wordAt payload 8).toNat ≤ payload.length) ∧
    (∀ (payload : List UInt8) (b : UInt8), 12 ≤ payload.length → payload[7]? = some b →
      (∀ w : FieldWidth, b.toNat ≠ w.bits) →
        ofCompact payload = .error (.invalidData (.compactFieldWidth b.toNat))) ∧
    ∀ (payload : List UInt8) (w : FieldWidth), 12 ≤ payload.length →
      payload[7]? = some (UInt8.ofNat w.bits) →
      payload.length < 12 + w.packed (wordAt payload 8).toNat →
        ofCompact payload = .error (.invalidData (.compactTableShort (wordAt payload 8).toNat
          (w.packed (wordAt payload 8).toNat))) := by
  refine ⟨fun w padding full full' reserved ns h => ?_, fun full full' os h => ?_,
    fun _ => exists_ofCompact_iff, fun _ _ hhead hwidth => ofCompact_of_otherWidth hhead hwidth,
    fun _ w hhead hwidth hshort => ?_⟩
  · exact ⟨ofList ns, ofCompact_compactBytes w padding full reserved h, ofWide_wideBytes full' ns,
      fun hlength => ⟨UInt32.toNat_ofNat_of_lt' hlength, sizeAt_ofList hlength⟩⟩
  · refine ⟨_, ChunkOffsets.ofNarrow_tableBytes full h, ChunkOffsets.ofWide_tableBytes full' os,
      fun hlength => ?_⟩
    rw [Nat.mod_eq_of_lt hlength, List.take_length]
  · exact (ofCompact_of_width w hhead hwidth).trans (if_neg (Nat.not_le.2 hshort))

open SampleSizes in
/-- Three sizes in two bytes, and in words. -/
theorem threeSizes_agree :
    (∀ n ∈ ([1, 15, 7] : List UInt32), n.toNat < 2 ^ FieldWidth.half.bits) ∧
    ∃ s, ofCompact [0, 0, 0, 0, 0, 0, 0, 4, 0, 0, 0, 3, 0x1F, 0x70] = .ok s ∧
      ofWide [0, 0, 0, 0, 0, 0, 0, 0, 0, 0, 0, 3, 0, 0, 0, 1, 0, 0, 0, 15, 0, 0, 0, 7] = .ok s ∧
      s.sizeAt 1 = .ok 15 ∧ s.sizeAt 3 = malformed (.sampleWithoutSize 3 3) := by
  have hfit : ∀ n ∈ ([1, 15, 7] : List UInt32), n.toNat < 2 ^ FieldWidth.half.bits := by
    simp [FieldWidth.bits]
  obtain ⟨s, hcompact, hwide, hsizes⟩ := compact_agrees_wide.1 .half 0 0 0 0 [1, 15, 7] hfit
  have hsizeAt := (hsizes (by decide)).2
  exact ⟨hfit, s, hcompact, hwide, hsizeAt 1, hsizeAt 3⟩

end IsoMedia
