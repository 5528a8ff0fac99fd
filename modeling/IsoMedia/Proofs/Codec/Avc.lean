import IsoMedia.Codec.Avc
import IsoMedia.Proofs.Codec.AnnexB

/-!
# H.264 samples

A sample is taken apart into the units that are not empty.  Whether it has parameter sets of its own
is found out while its units are written, so only those are known that stand before the first IDR
slice.

* `Avc.split_iff_written` : the samples that can be taken apart, and into what.
* `Avc.flatten_pieces` : extra data goes before the first IDR slice if none stands before that.
* `Avc.toAnnexB_eq_promised_iff` : this is what was promised unless parameter sets come late.
-/

namespace IsoMedia.Avc

open AnnexB (unit stream supplied promised)

/-- A unit is an IDR slice. -/
def isIdr (nal : List UInt8) : Bool := UnitType.ofUnit nal = .idrSlice

/-- A unit is a parameter set. -/
def isSet (nal : List UInt8) : Bool := UnitType.ofUnit nal = .sps ∨ UnitType.ofUnit nal = .pps

/-- No parameter set stands before the first IDR slice. -/
def lacksBefore (nals : List (List UInt8)) : Bool := !(nals.takeWhile (!isIdr ·)).any isSet

/-- The first parameter set stands behind the first IDR slice. -/
def SetsLate (nals : List (List UInt8)) : Prop :=
  ∃ before idr after, nals = before ++ idr :: after ∧ isIdr idr = true ∧
    (∀ nal ∈ before, isIdr nal = false ∧ isSet nal = false) ∧ ∃ nal ∈ after, isSet nal = true

variable {nal extra : List UInt8} {nals : List (List UInt8)}

theorem not_isSet_of_isIdr (h : isIdr nal = true) : isSet nal = false := by
  rw [isIdr, decide_eq_true_eq] at h
  simp [isSet, h]

/-! ### Taking a sample apart -/

theorem fits_iff {width : Nat} :
    AnnexB.Fits width (fun _ => .ok ()) nal ↔ nal.length < 2 ^ (8 * width) := by
  rw [Nat.pow_mul]
  exact ⟨fun h => h.length_lt, fun h => ⟨h, rfl⟩⟩

theorem filter_of_forall_pos (h : ∀ nal ∈ nals, 1 ≤ nal.length) : nals.filter (· ≠ []) = nals := by
  refine List.filter_eq_self.2 fun nal hnal => decide_eq_true ?_
  exact List.ne_nil_of_length_pos (h nal hnal)

theorem split_eq_ok_iff {width : Nat} (hwidth : AnnexB.PrefixWidth width) {data : List UInt8} :
    split width data = .ok nals ↔
      ∃ payloads, (∀ payload ∈ payloads, payload.length < 2 ^ (8 * width)) ∧
        data = AnnexB.sample width payloads ∧ nals = payloads.filter (· ≠ []) := by
  have hmap : split width data = .ok nals ↔
      ∃ payloads, AnnexB.split width (fun _ => .ok ()) data = .ok payloads ∧
        payloads.filter (· ≠ []) = nals := by
    unfold split
    cases AnnexB.split width (fun _ => .ok ()) data <;> simp [Except.map]
  simp only [hmap, AnnexB.split_eq_ok_iff hwidth, fits_iff, and_assoc, eq_comm (a := nals)]

/-- **A sample is taken apart exactly if it consists of payloads that stand behind their lengths, and
then into those payloads that are not empty, so that units that are not empty come out as they were
written.  A length has one byte to four.** -/
theorem split_iff_written (width : Nat) :
    (AnnexB.PrefixWidth width →
      (∀ data nals, split width data = .ok nals ↔
        ∃ payloads, (∀ payload ∈ payloads, payload.length < 2 ^ (8 * width)) ∧
          data = AnnexB.sample width payloads ∧ nals = payloads.filter (· ≠ [])) ∧
      ∀ nals, (∀ nal ∈ nals, 1 ≤ nal.length ∧ nal.length ≤ 2 ^ (8 * width) - 1) →
        split width (AnnexB.sample width nals) = .ok nals) ∧
    (¬ AnnexB.PrefixWidth width → ∀ data,
      split width data = .error (.invalidArgument (.nalPrefixWidth width))) := by
  refine ⟨fun hwidth => ⟨fun data nals => split_eq_ok_iff hwidth, fun nals h => ?_⟩,
    fun hwidth data => ?_⟩
  · -- Units that are not empty are themselves the payloads, and the only ones.
    have hlt : ∀ nal ∈ nals, nal.length < 2 ^ (8 * width) := fun nal hnal => by
      have := (h nal hnal).2
      have : 0 < 2 ^ (8 * width) := Nat.two_pow_pos _
      omega
    refine (split_eq_ok_iff hwidth).2 ⟨nals, hlt, rfl, ?_⟩
    exact (filter_of_forall_pos fun nal hnal => (h nal hnal).1).symm
  · unfold split AnnexB.split
    rw [dif_neg hwidth]
    rfl

/-- Nothing, and an IDR slice of two bytes behind it. -/
def paddedSlice : List UInt8 := AnnexB.sample 2 [[], [0x65, 0x88]]

/-- The empty frame is left out, half a length is no frame, and no length has five bytes. -/
theorem paddedSlice_split :
    AnnexB.PrefixWidth 2 ∧ split 2 paddedSlice = .ok [[0x65, 0x88]] ∧
      split 2 (AnnexB.sample 2 [[0x65, 0x88]]) = .ok [[0x65, 0x88]] ∧
      (∀ nals, split 2 [0] ≠ .ok nals) ∧
      ¬ AnnexB.PrefixWidth 5 ∧
      split 5 paddedSlice = .error (.invalidArgument (.nalPrefixWidth 5)) := by
  have hwidth : AnnexB.PrefixWidth 2 := by decide
  obtain ⟨hiff, hwritten⟩ := (split_iff_written 2).1 hwidth
  refine ⟨hwidth, (hiff _ _).2 ⟨[[], [0x65, 0x88]], by simp, rfl, rfl⟩, hwritten _ (by simp),
    fun nals hsplit => ?_, by decide, (split_iff_written 5).2 (by decide) _⟩
  obtain ⟨payloads, -, hdata, -⟩ := (hiff _ _).1 hsplit
  cases payloads with
  | nil => cases hdata
  | cons payload payloads =>
    have := congrArg List.length hdata
    simp at this
    omega

/-! ### One unit -/

theorem pieces_cons_of_isSet (h : isSet nal = true) (settled : Bool) :
    pieces extra settled (nal :: nals) = unit nal :: pieces extra true nals := by
  rw [isSet, decide_eq_true_eq] at h
  rcases h with h | h <;> rw [pieces, h]

theorem pieces_cons_of_isIdr (h : isIdr nal = true) (settled : Bool) :
    pieces extra settled (nal :: nals) =
      if settled then unit nal :: pieces extra true nals
      else extra :: unit nal :: pieces extra true nals := by
  rw [isIdr, decide_eq_true_eq] at h
  rw [pieces, h]

theorem pieces_cons_of_neither (hidr : isIdr nal = false) (hset : isSet nal = false)
    (settled : Bool) :
    pieces extra settled (nal :: nals) = unit nal :: pieces extra settled nals := by
  rw [isIdr, decide_eq_false_iff_not] at hidr
  rw [isSet, decide_eq_false_iff_not, not_or] at hset
  rw [pieces]
  split
  · exact absurd ‹_› hset.1
  · exact absurd ‹_› hset.2
  · exact absurd ‹_› hidr
  · rfl

/-! ### Any number of units -/

/-- Once a parameter set or the extra data was written, nothing is put between the units. -/
theorem flatten_pieces_settled (extra : List UInt8) (nals : List (List UInt8)) :
    (pieces extra true nals).flatten = stream nals := by
  induction nals with
  | nil => rfl
  | cons nal nals ih =>
    have hstep : pieces extra true (nal :: nals) = unit nal :: pieces extra true nals := by
      cases hset : isSet nal
      · cases hidr : isIdr nal
        · exact pieces_cons_of_neither hidr hset true
        · exact pieces_cons_of_isIdr hidr true
      · exact pieces_cons_of_isSet hset true
    rw [hstep, List.flatten_cons, ih]
    rfl

/-- **The extra data goes before the first IDR slice if no parameter set stands before that.** -/
theorem flatten_pieces (extra : List UInt8) (nals : List (List UInt8)) :
    (pieces extra false nals).flatten = supplied (lacksBefore nals) isIdr extra nals := by
  induction nals with
  | nil => rfl
  | cons nal nals ih =>
    cases hidr : isIdr nal with
    | true =>
      have hlacks : lacksBefore (nal :: nals) = true := by simp [lacksBefore, hidr]
      rw [pieces_cons_of_isIdr hidr, AnnexB.supplied_cons_of_starts hidr, hlacks]
      simp only [Bool.false_eq_true, if_false, if_true, List.flatten_cons,
        flatten_pieces_settled]
    | false =>
      rw [AnnexB.supplied_cons_of_not_starts hidr]
      cases hset : isSet nal with
      | true =>
        have hlacks : lacksBefore (nal :: nals) = false := by simp [lacksBefore, hidr, hset]
        rw [pieces_cons_of_isSet hset, List.flatten_cons, flatten_pieces_settled, hlacks,
          supplied, Bool.and_false]
        rfl
      | false =>
        have hlacks : lacksBefore (nal :: nals) = lacksBefore nals := by
          simp [lacksBefore, hidr, hset]
        rw [pieces_cons_of_neither hidr hset, List.flatten_cons, ih, hlacks]

/-- The first IDR slice divides a sample. -/
theorem lacksBefore_append {before after : List (List UInt8)} {idr : List UInt8}
    (hbefore : ∀ nal ∈ before, isIdr nal = false) (hidr : isIdr idr = true) :
    lacksBefore (before ++ idr :: after) = !before.any isSet := by
  rw [lacksBefore, List.takeWhile_append_of_pos fun nal hnal => by simp [hbefore nal hnal],
    List.takeWhile_cons_of_neg (by simp [hidr]), List.append_nil]

theorem lacksBefore_of_none (h : nals.any isSet = false) : lacksBefore nals = true := by
  rw [List.any_eq_false] at h
  rw [lacksBefore, Bool.not_eq_true', List.any_eq_false]
  exact fun nal hnal => h nal ((List.takeWhile_sublist _).subset hnal)

theorem setsLate_iff :
    SetsLate nals ↔
      nals.any isIdr = true ∧ lacksBefore nals = true ∧ nals.any isSet = true := by
  constructor
  · rintro ⟨before, idr, after, rfl, hidr, hbefore, set, hset, his⟩
    refine ⟨List.any_eq_true.2 ⟨idr, by simp, hidr⟩, ?_,
      List.any_eq_true.2 ⟨set, by simp [hset], his⟩⟩
    rw [lacksBefore_append (fun nal hnal => (hbefore nal hnal).1) hidr, Bool.not_eq_true',
      List.any_eq_false]
    exact fun nal hnal => by simp [(hbefore nal hnal).2]
  · rintro ⟨hany, hlacks, hsets⟩
    obtain ⟨idr, hfind⟩ := Option.isSome_iff_exists.1
      (List.find?_isSome.2 (List.any_eq_true.1 hany))
    obtain ⟨hidr, before, after, rfl, hbefore⟩ := List.find?_eq_some_iff_append.1 hfind
    replace hbefore : ∀ nal ∈ before, isIdr nal = false := fun nal hnal => by
      simpa using hbefore nal hnal
    rw [lacksBefore_append hbefore hidr, Bool.not_eq_true', List.any_eq_false] at hlacks
    replace hlacks : ∀ nal ∈ before, isSet nal = false := fun nal hnal => by
      simpa using hlacks nal hnal
    -- A parameter set stands neither before the slice nor in its place.
    obtain ⟨set, hset, his⟩ := List.any_eq_true.1 hsets
    refine ⟨before, idr, after, rfl, hidr, fun nal hnal => ⟨hbefore nal hnal, hlacks nal hnal⟩,
      set, ?_, his⟩
    rcases List.mem_append.1 hset with hset | hset
    · exact absurd his (by simp [hlacks set hset])
    · rcases List.mem_cons.1 hset with rfl | hset
      · exact absurd his (by simp [not_isSet_of_isIdr hidr])
      · exact hset

/-- **A sample fails if it cannot be taken apart.  Otherwise its units come out in order, with the
extra data before the first IDR slice if no parameter set stands before that; if there is extra data,
this is what was promised unless all parameter sets stand behind the first IDR slice.** -/
theorem toAnnexB_eq_promised_iff (width : Nat) (extra sample : List UInt8) :
    (∀ e, split width sample = .error e → toAnnexB width extra sample = .error e) ∧
    ∀ nals, split width sample = .ok nals →
      toAnnexB width extra sample = .ok (supplied (lacksBefore nals) isIdr extra nals) ∧
      (toAnnexB width extra sample = .ok (promised isIdr isSet extra nals) ↔
        extra = [] ∨ ¬ SetsLate nals) := by
  refine ⟨fun e he => by rw [toAnnexB, he]; rfl, fun nals hnals => ?_⟩
  have hout : toAnnexB width extra sample = .ok (supplied (lacksBefore nals) isIdr extra nals) := by
    rw [toAnnexB, hnals, ← flatten_pieces]
    rfl
  refine ⟨hout, ?_⟩
  rw [hout, Except.ok.injEq, promised, AnnexB.supplied_eq_iff, setsLate_iff]
  refine or_congr_right ⟨fun h ⟨hany, hlacks, hsets⟩ => ?_, fun h hany => ?_⟩
  · rw [h hany, hsets] at hlacks
    cases hlacks
  · cases hsets : nals.any isSet with
    | false => exact lacksBefore_of_none hsets
    | true => exact Bool.eq_false_iff.2 fun hlacks => h ⟨hany, hlacks, hsets⟩

/-- An IDR slice, and an SPS behind it. -/
def lateSet : List UInt8 := AnnexB.sample 2 [[0x65], [0x67]]

/-- An SPS and a PPS as a byte stream. -/
def twoSets : List UInt8 := stream [[0x67], [0x68]]

theorem split_lateSet : split 2 lateSet = .ok [[0x65], [0x67]] :=
  (split_eq_ok_iff (by decide)).2 ⟨[[0x65], [0x67]], by decide, rfl, rfl⟩

/-- Half a length. -/
theorem split_cutLength : split 2 [0] = .error (.invalidData (.readPastEnd 0 2 1)) := by
  have hfault : AnnexB.split 2 (fun _ => .ok ()) (AnnexB.sample 2 [] ++ [0]) = .error _ :=
    AnnexB.split_of_faultAt (by decide) nofun (.cutLength (by decide) (by decide))
  exact congrArg (Except.map _) hfault

/-- The extra data is put before a slice though the sample has an SPS. -/
theorem lateSet_supplied :
    toAnnexB 2 twoSets [0] = .error (.invalidData (.readPastEnd 0 2 1)) ∧
    toAnnexB 2 twoSets lateSet = .ok (twoSets ++ stream [[0x65], [0x67]]) ∧
    toAnnexB 2 twoSets lateSet ≠ .ok (promised isIdr isSet twoSets [[0x65], [0x67]]) := by
  have hlate : SetsLate [[0x65], [0x67]] :=
    ⟨[], [0x65], [[0x67]], rfl, rfl, nofun, [0x67], by simp, rfl⟩
  obtain ⟨hout, hiff⟩ := (toAnnexB_eq_promised_iff 2 twoSets lateSet).2 _ split_lateSet
  refine ⟨(toAnnexB_eq_promised_iff 2 twoSets [0]).1 _ split_cutLength, hout, fun h => ?_⟩
  rcases hiff.1 h with h | h
  · cases h
  · exact h hlate

end IsoMedia.Avc
