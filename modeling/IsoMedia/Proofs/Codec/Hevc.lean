import IsoMedia.Codec.Hevc
import IsoMedia.Proofs.Codec.AnnexB

/-!
# Parameter sets in H.265 samples

The extra data goes before the first random access picture of every sample, whatever else the sample
holds.

* `Hevc.flatten_pieces` : where the extra data goes.
* `Hevc.toAnnexB_sample` : written samples are converted as was promised unless they have both a
  random access picture and parameter sets of their own; all other bytes fail.
-/

namespace IsoMedia.Hevc

open AnnexB (PrefixWidth Fits sample unit stream supplied promised)

/-- A unit has at least its header of two bytes. -/
def longEnough (length : Nat) : Except Error Unit :=
  if length < 2 then malformed (.hevcUnitLength length) else .ok ()

/-- A unit is part of a random access picture. -/
def startsAccess (nal : List UInt8) : Bool := isRandomAccess (nal.headD 0)

/-- A unit is a parameter set. -/
def isSet (nal : List UInt8) : Bool := UnitType.ofHeader (nal.headD 0) ∈ [.vps, .sps, .pps]

variable {width : Nat} {nal : List UInt8}

theorem fits_longEnough_iff :
    Fits width longEnough nal ↔ nal.length < 256 ^ width ∧ 2 ≤ nal.length := by
  constructor
  · rintro ⟨hlength, haccepted⟩
    unfold longEnough at haccepted
    split at haccepted
    · cases haccepted
    · exact ⟨hlength, by omega⟩
  · rintro ⟨hlength, htwo⟩
    exact ⟨hlength, if_neg (by omega)⟩

/-- **The extra data goes before the first random access picture.** -/
theorem flatten_pieces (extra : List UInt8) (nals : List (List UInt8)) :
    (pieces extra nals).flatten = supplied true startsAccess extra nals := by
  induction nals with
  | nil => rfl
  | cons nal nals ih =>
    rw [pieces]
    split
    · rename_i hstarts
      rw [AnnexB.supplied_cons_of_starts hstarts]
      rfl
    · rename_i hstarts
      rw [AnnexB.supplied_cons_of_not_starts (Bool.eq_false_iff.2 hstarts), List.flatten_cons, ih]

/-- **Units of two bytes or more, written behind their lengths, come out in order, with the extra data
before the first random access picture; if there is extra data, this is what was promised unless the
sample has both a random access picture and parameter sets of its own.  A fault behind some units fails
the whole sample, and all bytes are such units with nothing or a fault behind them.** -/
theorem toAnnexB_sample (hwidth : PrefixWidth width) (extra : List UInt8) :
    (∀ nals, (∀ nal ∈ nals, nal.length < 256 ^ width ∧ 2 ≤ nal.length) →
      toAnnexB width extra (sample width nals) = .ok (supplied true startsAccess extra nals) ∧
      (toAnnexB width extra (sample width nals) = .ok (promised startsAccess isSet extra nals) ↔
        extra = [] ∨ ¬ (nals.any startsAccess = true ∧ nals.any isSet = true))) ∧
    (∀ nals rest e, (∀ nal ∈ nals, nal.length < 256 ^ width ∧ 2 ≤ nal.length) →
      AnnexB.FaultAt width longEnough (sample width nals).length rest e →
      toAnnexB width extra (sample width nals ++ rest) = .error e) ∧
    ∀ bs, ∃ nals rest, bs = sample width nals ++ rest ∧
      (∀ nal ∈ nals, nal.length < 256 ^ width ∧ 2 ≤ nal.length) ∧
      (rest = [] ∨ ∃ e, AnnexB.FaultAt width longEnough (sample width nals).length rest e) := by
  simp only [← fits_longEnough_iff]
  refine ⟨fun nals h => ?_, fun nals rest e h hfault => ?_,
    AnnexB.exists_sample hwidth.1 longEnough⟩
  · have hsplit : split width (sample width nals) = .ok nals := AnnexB.split_sample hwidth h
    have hout : toAnnexB width extra (sample width nals) =
        .ok (supplied true startsAccess extra nals) := by
      rw [toAnnexB, hsplit, ← flatten_pieces]
      rfl
    refine ⟨hout, ?_⟩
    rw [hout, Except.ok.injEq, promised, AnnexB.supplied_eq_iff, not_and, Bool.not_eq_true,
      @eq_comm _ true, Bool.not_eq_true']
  · have hsplit : split width (sample width nals ++ rest) = .error e :=
      AnnexB.split_of_faultAt hwidth h hfault
    rw [toAnnexB, hsplit]
    rfl

/-- A PPS, and an IDR picture behind it. -/
def ownSet : List (List UInt8) := [[0x44, 0x01], [0x26, 0x01]]

/-- The extra data is put before a picture though the sample has a PPS; a unit of one byte behind such
a sample fails it. -/
theorem ownSet_supplied :
    toAnnexB 2 (stream [[0x40, 0x01]]) (sample 2 ownSet) =
      .ok (stream [[0x44, 0x01], [0x40, 0x01], [0x26, 0x01]]) ∧
    toAnnexB 2 (stream [[0x40, 0x01]]) (sample 2 ownSet) ≠
      .ok (promised startsAccess isSet (stream [[0x40, 0x01]]) ownSet) ∧
    toAnnexB 2 (stream [[0x40, 0x01]]) (sample 2 ownSet ++ [0, 1, 0x26]) =
      .error (.invalidData (.hevcUnitLength 1)) := by
  have hfits : ∀ nal ∈ ownSet, nal.length < 256 ^ 2 ∧ 2 ≤ nal.length := by simp [ownSet]
  obtain ⟨hunits, hfault, -⟩ :=
    toAnnexB_sample (show PrefixWidth 2 by decide) (stream [[0x40, 0x01]])
  obtain ⟨hout, hiff⟩ := hunits ownSet hfits
  have hrefuses : longEnough (AnnexB.lengthAt 2 [0, 1, 0x26]) =
      .error (.invalidData (.hevcUnitLength 1)) := by
    rw [show AnnexB.lengthAt 2 [0, 1, 0x26] = 1 by decide]
    rfl
  refine ⟨hout, fun h => ?_, hfault ownSet _ _ hfits (.refused (by decide) hrefuses)⟩
  rcases hiff.1 h with h | h
  · cases h
  · exact h (by decide)

end IsoMedia.Hevc
