import IsoMedia.Proofs.Machine.Word
import IsoMedia.Proofs.Sample.Times

/-!
# Passing through tables on a machine

The tables of times, offsets and key frames are passed through once, sample by sample, by cursors
that only move forward.  A cursor holds the number of a run, a place that is a word, and how many
values were taken from that run, a count that never exceeds the one in the run.

`left` is what a cursor still has before it.  Each step takes the first of these values
(`nextRun_eq`), so the step for the sample `k` yields its time, its offset and whether it is a key
frame (`nextTime_eq`, `nextOffset_eq`, `nextKey_eq`).
-/

namespace IsoMedia.Machine

variable {ρ α : Type}

/-- A place in a table of runs. -/
structure RunCursor where
  /-- The number of a run. -/
  run : Nat
  /-- How many values were taken from it. -/
  used : Nat

/-- Pass over the runs that are used up. -/
def skipRuns (count : ρ → UInt32) (runs : List ρ) (run used : Nat) : Machine RunCursor :=
  if _inside : run < runs.length then do
    let entry ← item runs run
    if (count entry).toNat ≤ used then
      let _next ← add 64 run 1
      skipRuns count runs (run + 1) 0
    else return ⟨run, used⟩
  else return ⟨run, used⟩
termination_by runs.length - run

/-- The run that the next value comes from, if there is one left, and the place behind that value. -/
def nextRun (count : ρ → UInt32) (runs : List ρ) (c : RunCursor) :
    Machine (Option ρ × RunCursor) := do
  let c ← skipRuns count runs c.run c.used
  match runs[c.run]? with
  | some entry => return (some entry, { c with used := ← add 32 c.used 1 })
  | none => return (none, c)

/-- The values of all runs. -/
def values (count : ρ → UInt32) (value : ρ → α) (runs : List ρ) : List α :=
  written (runs.map fun r => ((count r).toNat, value r))

/-- The values that a cursor still has before it. -/
def left (count : ρ → UInt32) (value : ρ → α) (runs : List ρ) (c : RunCursor) : List α :=
  match runs.drop c.run with
  | [] => []
  | r :: rest => List.replicate ((count r).toNat - c.used) (value r) ++ values count value rest

section Runs

variable {count : ρ → UInt32} {value : ρ → α} {runs : List ρ}

theorem left_start : left count value runs ⟨0, 0⟩ = values count value runs := by
  cases runs <;> rfl

theorem left_of_getElem? {run used : Nat} {r : ρ} (h : runs[run]? = some r) :
    left count value runs ⟨run, used⟩ = List.replicate ((count r).toNat - used) (value r) ++
      values count value (runs.drop (run + 1)) := by
  obtain ⟨hrun, rfl⟩ := List.getElem?_eq_some_iff.1 h
  simp only [left, List.drop_eq_getElem_cons hrun]

theorem left_of_le {run used : Nat} (h : runs.length ≤ run) :
    left count value runs ⟨run, used⟩ = [] := by
  simp only [left, List.drop_of_length_le h]

/-- A run that is used up has no values before the cursor. -/
theorem left_of_used {run used : Nat} {r : ρ} (h : runs[run]? = some r)
    (hused : (count r).toNat ≤ used) :
    left count value runs ⟨run, used⟩ = left count value runs ⟨run + 1, 0⟩ := by
  rw [left_of_getElem? h, Nat.sub_eq_zero_of_le hused, List.replicate_zero, List.nil_append]
  simp only [left]
  cases runs.drop (run + 1) <;> rfl

/-- The cursor comes to a run that is not used up, or behind all runs, and passes over no value. -/
theorem skipRuns_eq (hruns : runs.length < 2 ^ 64) (count : ρ → UInt32) (value : ρ → α)
    (run used : Nat) :
    ∃ c, skipRuns count runs run used = pure c ∧
      left count value runs c = left count value runs ⟨run, used⟩ ∧
      ∀ r, runs[c.run]? = some r → c.used < (count r).toNat := by
  induction hleft : runs.length - run generalizing run used with
  | zero =>
    have hend : ¬ run < runs.length := by omega
    rw [skipRuns, dif_neg hend]
    refine ⟨_, rfl, rfl, fun r hr => ?_⟩
    exact absurd (List.getElem?_eq_some_iff.1 hr).1 hend
  | succ left ih =>
    have hrun : run < runs.length := by omega
    have hitem := List.getElem?_eq_getElem hrun
    rw [skipRuns, dif_pos hrun, item_eq hitem, pure_bind]
    by_cases hused : (count runs[run]).toNat ≤ used
    · obtain ⟨c, hc, hsame, hfree⟩ := ih (run + 1) 0 (by omega)
      rw [if_pos hused, add_eq (by omega), pure_bind]
      exact ⟨c, hc, hsame.trans (left_of_used hitem hused).symm, hfree⟩
    · rw [if_neg hused]
      refine ⟨_, rfl, rfl, fun r hr => ?_⟩
      cases hitem.symm.trans hr
      exact Nat.lt_of_not_le hused

/-- **The next value is the first one that is left.** -/
theorem nextRun_eq (hruns : runs.length < 2 ^ 64) (value : ρ → α) (c : RunCursor) :
    ∃ r c', nextRun count runs c = pure (r, c') ∧
      r.map value = (left count value runs c).head? ∧
      left count value runs c' = (left count value runs c).tail := by
  obtain ⟨⟨run, used⟩, hskip, hsame, hfree⟩ := skipRuns_eq hruns count value c.run c.used
  have hsame : left count value runs ⟨run, used⟩ = left count value runs c := hsame
  rw [nextRun, hskip, pure_bind, ← hsame]
  cases hr : runs[run]? with
  | none =>
    refine ⟨none, ⟨run, used⟩, rfl, ?_⟩
    rw [left_of_le (List.getElem?_eq_none_iff.1 hr)]
    exact ⟨rfl, rfl⟩
  | some r =>
    have hused : used < (count r).toNat := hfree r hr
    have hcount := (count r).toNat_lt
    refine ⟨some r, ⟨run, used + 1⟩, ?_, ?_⟩
    · dsimp only
      rw [add_eq (by omega)]
      rfl
    · have hmore : (count r).toNat - used = (count r).toNat - (used + 1) + 1 := by omega
      rw [left_of_getElem? hr, left_of_getElem? hr, hmore, List.replicate_succ]
      exact ⟨rfl, rfl⟩

end Runs

/-! ### Times -/

structure TimeCursor where
  place : RunCursor
  /-- When the next sample is decoded. -/
  time : Int
  lastDelta : Nat

def TimeCursor.start : TimeCursor := ⟨⟨0, 0⟩, 0, 0⟩

/-- When the next sample is decoded.  Beyond the runs the last delta goes on, and a time beyond the
greatest one stays there. -/
def nextTime (runs : List TimeRun) (c : TimeCursor) : Machine (Int × TimeCursor) := do
  let (run, place) ← nextRun (·.count) runs c.place
  let delta := (run.map (·.delta.toNat)).getD c.lastDelta
  return (c.time, ⟨place, clampTime (c.time + delta), delta⟩)

/-- The deltas of all samples that the runs describe. -/
def deltas (runs : List TimeRun) : List Nat := values (·.count) (·.delta.toNat) runs

/-- The cursor is at the sample of the given number. -/
structure TimeCursor.At (runs : List TimeRun) (sample : Nat) (c : TimeCursor) : Prop where
  left : left (·.count) (·.delta.toNat) runs c.place = (deltas runs).drop sample
  time : c.time = clampTime (TimeRun.elapsed runs sample)
  lastDelta : c.lastDelta = ((deltas runs).take sample).getLast?.getD 0

theorem deltas_cons (r : TimeRun) (rest : List TimeRun) :
    deltas (r :: rest) = List.replicate r.count.toNat r.delta.toNat ++ deltas rest := rfl

/-- Runs without samples have no last delta. -/
theorem getLast?_deltas (runs : List TimeRun) :
    (deltas runs).getLast? = (runs.filter (·.count ≠ 0)).getLast?.map (·.delta.toNat) := by
  induction runs with
  | nil => rfl
  | cons r rest ih =>
    have hcount : r.count.toNat = 0 ↔ r.count = 0 := UInt32.toNat_inj (b := 0)
    rw [deltas_cons, List.getLast?_append, List.getLast?_replicate, ih, List.filter_cons]
    by_cases hzero : r.count = 0
    · rw [if_pos (hcount.2 hzero), Option.or_none, if_neg (by simpa using hzero)]
    · rw [if_neg (mt hcount.1 hzero), if_pos (by simpa using hzero), List.getLast?_cons]
      cases (rest.filter (·.count ≠ 0)).getLast? <;> rfl

theorem lastDelta_eq (runs : List TimeRun) :
    lastDelta runs = (deltas runs).getLast?.getD 0 := by
  rw [getLast?_deltas]
  rfl

theorem timeCursor_start (runs : List TimeRun) : TimeCursor.At runs 0 .start :=
  ⟨left_start, (by decide : (0 : Int) = clampTime 0), rfl⟩

theorem elapsed_succ (runs : List TimeRun) (sample : Nat) :
    TimeRun.elapsed runs (sample + 1) =
      TimeRun.elapsed runs sample + TimeRun.deltaAt runs sample := by
  simp [TimeRun.elapsed, List.range_succ]

/-- **The cursor yields the decoding time of every sample**, one after the other. -/
theorem nextTime_eq {runs : List TimeRun} (hruns : runs.length < 2 ^ 64) {sample : Nat}
    {c : TimeCursor} (hc : c.At runs sample) :
    ∃ c', nextTime runs c = pure (clampTime (TimeRun.elapsed runs sample), c') ∧
      c'.At runs (sample + 1) := by
  obtain ⟨run, place, hnext, hvalue, hleft⟩ := nextRun_eq hruns (·.delta.toNat) c.place
  have hdelta : (run.map (·.delta.toNat)).getD c.lastDelta = TimeRun.deltaAt runs sample := by
    have hat : TimeRun.deltaAt runs sample = (deltas runs)[sample]?.getD (lastDelta runs) := rfl
    rw [hvalue, hc.left, List.head?_drop, hat]
    cases hsample : (deltas runs)[sample]? with
    | some d => rfl
    | none =>
      rw [Option.getD_none, Option.getD_none, hc.lastDelta, lastDelta_eq,
        List.take_of_length_le (List.getElem?_eq_none_iff.1 hsample)]
  refine ⟨_, by rw [nextTime, hnext, pure_bind, hc.time], ?_, ?_, ?_⟩
  · rw [hleft, hc.left, List.tail_drop]
  · rw [hdelta, clampTime_add (Int.natCast_nonneg _) (Int.natCast_nonneg _), elapsed_succ]
    rfl
  · show (run.map (·.delta.toNat)).getD c.lastDelta = _
    rw [hvalue, hc.left, List.head?_drop, List.take_add_one, List.getLast?_append, hc.lastDelta]
    cases (deltas runs)[sample]? <;> rfl

/-! ### Composition offsets -/

/-- How much later than it is decoded the next sample is shown.  Beyond the runs it is not. -/
def nextOffset (runs : List OffsetRun) (c : RunCursor) : Machine (Int × RunCursor) := do
  let (run, c) ← nextRun (·.count) runs c
  return ((run.map (·.offset.toInt)).getD 0, c)

/-- The values from the sample of the given number on are left. -/
def OffsetsFrom (runs : List OffsetRun) (sample : Nat) (c : RunCursor) : Prop :=
  left (·.count) (·.offset.toInt) runs c = (values (·.count) (·.offset.toInt) runs).drop sample

theorem offsetsFrom_start (runs : List OffsetRun) : OffsetsFrom runs 0 ⟨0, 0⟩ := left_start

/-- **The cursor yields the composition offset of every sample**, one after the other. -/
theorem nextOffset_eq {runs : List OffsetRun} (hruns : runs.length < 2 ^ 64) {sample : Nat}
    {c : RunCursor} (hc : OffsetsFrom runs sample c) :
    ∃ c', nextOffset runs c = pure (OffsetRun.offsetAt runs sample, c') ∧
      OffsetsFrom runs (sample + 1) c' := by
  obtain ⟨run, c', hnext, hvalue, hleft⟩ := nextRun_eq hruns (·.offset.toInt) c
  refine ⟨c', ?_, ?_⟩
  · have hat : OffsetRun.offsetAt runs sample = (run.map (·.offset.toInt)).getD 0 := by
      rw [hvalue, hc, List.head?_drop]
      rfl
    rw [nextOffset, hnext, pure_bind, hat]
  · rw [OffsetsFrom, hleft, hc, List.tail_drop]

/-! ### Key frames -/

/-- Pass over the numbers of earlier samples. -/
def skipSync (sync : List UInt32) (number pos : Nat) : Machine Nat :=
  if _inside : pos < sync.length then do
    let key ← item sync pos
    if key.toNat < number then
      let _next ← add 64 pos 1
      skipSync sync number (pos + 1)
    else return pos
  else return pos
termination_by sync.length - pos

/-- Whether the sample of the given number, counted from 0, is a key frame, and the place that was
reached.  Key frames are numbered from 1. -/
def nextKey (sync : List UInt32) (sample pos : Nat) : Machine (Bool × Nat) := do
  let number ← add 32 (sample % 2 ^ 32) 1
  let pos ← skipSync sync number pos
  return (sync[pos]?.any (·.toNat = number), pos)

/-- The numbers that are left before the sample of the given number. -/
def waiting (sync : List UInt32) : Nat → List UInt32
  | 0 => sync
  | sample + 1 => (waiting sync sample).dropWhile (·.toNat < sample + 1)

/-- Whether the sample of the given number is a key frame. -/
def keyAt (sync : List UInt32) (sample : Nat) : Bool :=
  (waiting sync (sample + 1)).head?.any (·.toNat = sample + 1)

theorem skipSync_eq {sync : List UInt32} (hsync : sync.length < 2 ^ 64) (number pos : Nat) :
    ∃ pos', skipSync sync number pos = pure pos' ∧
      sync.drop pos' = (sync.drop pos).dropWhile (·.toNat < number) := by
  induction hleft : sync.length - pos generalizing pos with
  | zero =>
    rw [skipSync, dif_neg (by omega)]
    exact ⟨pos, rfl, by rw [List.drop_of_length_le (by omega)]; rfl⟩
  | succ left ih =>
    have hpos : pos < sync.length := by omega
    rw [skipSync, dif_pos hpos, item_eq (List.getElem?_eq_getElem hpos), pure_bind,
      List.drop_eq_getElem_cons hpos, List.dropWhile_cons]
    by_cases hkey : sync[pos].toNat < number
    · rw [if_pos hkey, if_pos (decide_eq_true hkey), add_eq (by omega), pure_bind]
      exact ih (pos + 1) (by omega)
    · rw [if_neg hkey, if_neg (by simpa using hkey)]
      exact ⟨pos, rfl, List.drop_eq_getElem_cons hpos⟩

/-- **The place yields for every sample whether it is a key frame**, one after the other. -/
theorem nextKey_eq {sync : List UInt32} (hsync : sync.length < 2 ^ 64) {sample pos : Nat}
    (hsample : sample + 1 < 2 ^ 32) (hpos : sync.drop pos = waiting sync sample) :
    ∃ pos', nextKey sync sample pos = pure (keyAt sync sample, pos') ∧
      sync.drop pos' = waiting sync (sample + 1) := by
  obtain ⟨pos', hskip, hdrop⟩ := skipSync_eq hsync (sample + 1) pos
  rw [hpos] at hdrop
  refine ⟨pos', ?_, hdrop⟩
  rw [nextKey, Nat.mod_eq_of_lt (by omega), add_eq hsample, pure_bind, hskip, pure_bind, keyAt,
    ← List.head?_drop, hdrop]
  rfl

theorem toList_keyFramesFrom (sync : List UInt32) (n sample : Nat) (acc : Array Bool) :
    (keyFramesFrom n (sample + 1) (waiting sync sample) acc).toList =
      acc.toList ++ (List.range' sample n).map (keyAt sync) := by
  induction n generalizing sample acc with
  | zero => simp [keyFramesFrom]
  | succ n ih =>
    rw [keyFramesFrom]
    have := ih (sample + 1) (acc.push (keyAt sync sample))
    rw [Array.toList_push, List.append_assoc] at this
    exact this

theorem getElem?_keyFrames (sync : List UInt32) {n sample : Nat} (h : sample < n) :
    (keyFrames (some sync) n)[sample]? = some (keyAt sync sample) := by
  have hkeys : (keyFrames (some sync) n).toList = (List.range' 0 n).map (keyAt sync) :=
    toList_keyFramesFrom sync n 0 #[]
  rw [← Array.getElem?_toList, hkeys, List.getElem?_map, List.getElem?_range' h]
  simp

end IsoMedia.Machine
