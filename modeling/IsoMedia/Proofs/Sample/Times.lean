import IsoMedia.Sample.Index
import Mathlib.Algebra.Ring.Nat

/-!
# When samples are decoded and shown

The runs of a table, written out, give one value for each sample.  `elapsed` sums up the deltas
before a sample and `offsetAt` picks its offset; the sample index has the same times
(`getElem?_decodeTimes`, `getElem?_compositionOffsets`).
-/

namespace IsoMedia

/-- The values of runs, one after the other. -/
def written {α : Type} (runs : List (Nat × α)) : List α :=
  runs.flatMap fun run => List.replicate run.1 run.2

theorem toList_spreadFrom {α : Type} (runs : List (Nat × α)) (n : Nat) (acc : Array α) :
    (spreadFrom runs n acc).toList = acc.toList ++ (written runs).take n := by
  induction runs generalizing n acc with
  | nil => simp [spreadFrom, written]
  | cons run runs ih =>
    obtain ⟨count, a⟩ := run
    have hwritten : written ((count, a) :: runs) = List.replicate count a ++ written runs := rfl
    rw [spreadFrom, hwritten, List.take_append]
    split
    · rename_i hn
      simp [List.take_replicate, Nat.min_eq_left hn, Nat.sub_eq_zero_of_le hn]
    · rename_i hn
      have hall : (List.replicate count a).take n = List.replicate count a :=
        List.take_of_length_le (by simp; omega)
      rw [ih, hall, List.length_replicate, Array.toList_append, Array.toList_replicate,
        List.append_assoc]

/-- Where the runs end, the filler goes on. -/
theorem toList_spread {α : Type} (runs : List (Nat × α)) (filler : α) (n : Nat) :
    (spread runs filler n).toList =
      (List.range n).map fun k => (written runs)[k]?.getD filler := by
  have hgiven := toList_spreadFrom runs n #[]
  unfold spread
  dsimp only
  rw [Array.toList_append, Array.toList_replicate, ← Array.length_toList, hgiven]
  apply List.ext_getElem
  · simp only [List.nil_append, List.length_append, List.length_take, List.length_replicate,
      List.length_map, List.length_range]
    omega
  · intro k hk hk'
    have hk : k < n := by simpa using hk'
    by_cases hin : k < (written runs).length
    · have hmin : k < min n (written runs).length := by omega
      simp [hin, hmin]
    · have hmin : ¬ k < min n (written runs).length := by omega
      simp [List.getElem_append, hin, hmin]

theorem getElem?_spread {α : Type} (runs : List (Nat × α)) (filler : α) {n k : Nat} (hk : k < n) :
    (spread runs filler n)[k]? = some ((written runs)[k]?.getD filler) := by
  rw [← Array.getElem?_toList, toList_spread, List.getElem?_map, List.getElem?_range hk]
  rfl

namespace TimeRun

/-- How long the sample of the given number lasts; beyond the runs the last delta goes on. -/
def deltaAt (runs : List TimeRun) (sample : Nat) : Nat :=
  (written (runs.map fun r => (r.count.toNat, r.delta.toNat)))[sample]?.getD (lastDelta runs)

/-- How long the samples before the given one last together. -/
def elapsed (runs : List TimeRun) (sample : Nat) : Nat :=
  ((List.range sample).map (deltaAt runs)).sum

end TimeRun

/-- How much later than it is decoded the sample of the given number is shown. -/
def OffsetRun.offsetAt (runs : List OffsetRun) (sample : Nat) : Int :=
  (written (runs.map fun r => (r.count.toNat, r.offset.toInt)))[sample]?.getD 0

/-! ### Decoding times -/

/-- A time, and the times after it by the given deltas, each kept among the time stamps. -/
def stamps : Int → List Nat → List Int
  | _, [] => []
  | t, d :: ds => t :: stamps (clampTime (t + d)) ds

theorem foldl_stamps (ds : List Nat) (times : Array Int) (t : Int) :
    (ds.foldl (fun (times, t) d => (times.push t, clampTime (t + (d : Int)))) (times, t)).1.toList =
      times.toList ++ stamps t ds := by
  induction ds generalizing times t with
  | nil => simp [stamps]
  | cons d ds ih =>
    rw [List.foldl_cons, ih, Array.toList_push, stamps, List.append_assoc]
    rfl

theorem clampTime_add {t d : Int} (ht : 0 ≤ t) (hd : 0 ≤ d) :
    clampTime (clampTime t + d) = clampTime (t + d) := by
  unfold clampTime leastTime greatestTime
  omega

/-- To stay among the time stamps at every step is the same as to do so in the end. -/
theorem getElem?_stamps (ds : List Nat) {t : Int} (ht : 0 ≤ t) {k : Nat} (hk : k < ds.length) :
    (stamps (clampTime t) ds)[k]? = some (clampTime (t + (ds.take k).sum)) := by
  induction ds generalizing t k with
  | nil => simp at hk
  | cons d ds ih =>
    rw [stamps]
    cases k with
    | zero => simp
    | succ k =>
      rw [clampTime_add ht (Int.natCast_nonneg d), List.getElem?_cons_succ,
        ih (by omega) (by simpa using hk), List.take_succ_cons, List.sum_cons]
      push_cast
      rw [Int.add_assoc]

theorem getElem?_decodeTimes (runs : List TimeRun) {n k : Nat} (hk : k < n) :
    (decodeTimes runs n)[k]? = some (clampTime (TimeRun.elapsed runs k)) := by
  have hdeltas :
      (spread (runs.map fun r => (r.count.toNat, r.delta.toNat)) (lastDelta runs) n).toList =
        (List.range n).map (TimeRun.deltaAt runs) := toList_spread _ _ n
  have hzero : clampTime 0 = 0 := by decide
  have hget := getElem?_stamps ((List.range n).map (TimeRun.deltaAt runs)) (Int.le_refl 0) (k := k)
    (by simpa using hk)
  rw [hzero, Int.zero_add, ← List.map_take, List.take_range, Nat.min_eq_left (Nat.le_of_lt hk)]
    at hget
  unfold decodeTimes
  dsimp only
  rw [← Array.getElem?_toList, ← Array.foldl_toList, foldl_stamps, hdeltas]
  exact hget

theorem getElem?_compositionOffsets (runs : List OffsetRun) {n k : Nat} (hk : k < n) :
    (compositionOffsets runs n)[k]? = some (OffsetRun.offsetAt runs k) :=
  getElem?_spread _ _ hk

end IsoMedia
