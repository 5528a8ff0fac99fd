import IsoMedia.Log.Housekeeping
import Mathlib.Data.List.Infix
import Mathlib.Data.Nat.Digits.Defs

/-!
# Reading the names of log files

What `LogName.ofText?` tells of a name is said by how the name is put together
(`LogName.ofText?_eq_some_iff`).  Every date is read back from its text (`Date.ofChars?_text`), and so a
file that was named by `LogName.text` is never taken for the log of another day
(`LogName.eq_of_ofText?_text`).
-/

namespace IsoMedia

namespace Digits

variable (width n : Nat)

theorem toList_padded : (padded width n).toList =
    List.replicate (width - (Nat.toDigits 10 n).length) '0' ++ Nat.toDigits 10 n := by
  simp only [padded, Nat.toString_eq_ofList_toDigits, String.toList_append, String.toList_ofList,
    String.length_ofList]

variable {width n}

theorem bounds_of_isDigit {c : Char} (h : c.isDigit = true) : 48 ≤ c.toNat ∧ c.toNat ≤ 57 := by
  simpa [Char.isDigit, UInt32.le_iff_toNat_le] using h

theorem isDigit_of_mem_padded {c : Char} (h : c ∈ (padded width n).toList) : c.isDigit = true := by
  rw [toList_padded, List.mem_append] at h
  rcases h with h | h
  · rw [List.eq_of_mem_replicate h]
    decide
  · exact Nat.isDigit_of_mem_toDigits (by decide) (by decide) h

theorem padded_ne_nil : (padded width n).toList ≠ [] := by
  rw [toList_padded]
  exact List.append_ne_nil_of_right_ne_nil _ Nat.toDigits_ne_nil

theorem length_padded (hwidth : 0 < width) (h : n < 10 ^ width) :
    (padded width n).toList.length = width := by
  have hdigits := (Nat.length_toDigits_le_iff (by decide) hwidth).2 h
  rw [toList_padded, List.length_append, List.length_replicate]
  omega

theorem le_length_padded : width ≤ (padded width n).toList.length := by
  rw [toList_padded, List.length_append, List.length_replicate]
  omega

theorem value_eq (ds : List Char) : value ds = Nat.ofDigitChars 10 ds 0 := by
  rw [Nat.ofDigitChars_eq_foldl]
  simp only [value, valueOf, Nat.mul_comm]

/-- A number is the value of its digits, whatever zeros stand in front of them. -/
theorem value_padded : value (padded width n).toList = n := by
  rw [value_eq, toList_padded, Nat.ofDigitChars_append, Nat.ofDigitChars_replicate_zero,
    Nat.mul_zero, Nat.ofDigitChars_ten_toDigits]

end Digits

theorem Text.isBlank_of_isDigit {c : Char} (h : c.isDigit = true) : isBlank c = false := by
  have hrange := Digits.bounds_of_isDigit h
  simp only [isBlank, blankRanges, List.any_eq_false, List.forall_mem_cons, Bool.and_eq_true,
    decide_eq_true_eq]
  refine ⟨?_, ?_, ?_, ?_, ?_, ?_, ?_, ?_, ?_, ?_, nofun⟩ <;> omega

namespace Date

open Digits

variable {width n most : Nat} {ds rest : List Char}

/-- Digits are read up to where no digit follows. -/
theorem number?_append (hdigits : ∀ c ∈ ds, c.isDigit = true) (hsome : ds ≠ [])
    (hmost : ds.length ≤ most) (hrest : ∀ c ∈ rest.head?, c.isDigit = false) :
    number? most (ds ++ rest) = some (value ds, rest) := by
  -- Of what follows, some characters may still be looked at, but the first one is no digit.
  have hbehind (count : Nat) : (rest.take count).takeWhile Char.isDigit = [] := by
    cases rest with
    | nil => rw [List.take_nil, List.takeWhile_nil]
    | cons c rest =>
      cases count with
      | zero => rfl
      | succ count =>
        rw [List.take_succ_cons, List.takeWhile_cons_of_neg]
        simp [hrest c rfl]
  have htaken : ((ds ++ rest).take most).takeWhile Char.isDigit = ds := by
    rw [List.take_append, List.take_of_length_le hmost, List.takeWhile_append_of_pos hdigits,
      hbehind, List.append_nil]
  unfold number?
  rw [htaken]
  simp only [hsome, if_false, List.drop_left]

theorem number?_padded (hmost : (padded width n).toList.length ≤ most)
    (hrest : ∀ c ∈ rest.head?, c.isDigit = false) :
    number? most ((padded width n).toList ++ rest) = some (n, rest) := by
  rw [number?_append (fun c hc => isDigit_of_mem_padded hc) padded_ne_nil hmost hrest, value_padded]

/-- A number starts with a digit. -/
theorem exists_padded_eq_cons (width n : Nat) :
    ∃ c cs, (padded width n).toList = c :: cs ∧ c.isDigit = true := by
  obtain ⟨c, cs, hcs⟩ := List.exists_cons_of_ne_nil (@padded_ne_nil width n)
  exact ⟨c, cs, hcs, isDigit_of_mem_padded (hcs ▸ List.mem_cons_self)⟩

theorem trimStart_padded : Text.trimStart ((padded width n).toList ++ rest) =
    (padded width n).toList ++ rest := by
  obtain ⟨c, cs, hcs, hdigit⟩ := exists_padded_eq_cons width n
  rw [hcs, List.cons_append]
  exact List.dropWhile_cons_of_neg (by simp [Text.isBlank_of_isDigit hdigit])

theorem of?_eq (d : Date) :
    of? d.year d.month d.day = if firstYear ≤ d.year ∧ d.year ≤ lastYear then some d else none :=
  dif_pos ⟨d.month_bounds, d.day_bounds⟩

theorem toList_text (d : Date) : d.text.toList = (yearText d.year).toList ++
    '-' :: ((padded 2 d.month).toList ++ '-' :: (padded 2 d.day).toList) := by
  simp [text, toString]

theorem year?_of_digit {c : Char} (cs : List Char) (h : c.isDigit = true) :
    year? (c :: cs) = (number? 4 (c :: cs)).map fun (n, rest) => ((n : Int), rest) := by
  unfold year?
  split
  · rename_i hsign
    rw [(List.cons.inj hsign).1] at h
    exact absurd h (by decide)
  · rename_i hsign
    rw [(List.cons.inj hsign).1] at h
    exact absurd h (by decide)
  · rfl

/-- A year is read up to the hyphen behind it, and no blank stands in front of it. -/
theorem year?_yearText (year : Int) (behind : List Char) :
    year? (Text.trimStart ((yearText year).toList ++ '-' :: behind)) =
      some (year, '-' :: behind) := by
  have hhyphen : ∀ c ∈ ('-' :: behind).head?, c.isDigit = false := by simp [Char.isDigit]
  unfold yearText
  by_cases hplain : 0 ≤ year ∧ year < 10000
  · have hfour : (padded 4 year.natAbs).toList.length = 4 := length_padded (by decide) (by omega)
    obtain ⟨c, cs, hcs, hdigit⟩ := exists_padded_eq_cons 4 year.natAbs
    have hnumber := number?_padded (Nat.le_of_eq hfour) hhyphen
    rw [if_pos hplain, trimStart_padded, hcs, List.cons_append, year?_of_digit _ hdigit,
      ← List.cons_append, ← hcs, hnumber]
    exact congrArg some (Prod.ext (Int.natAbs_of_nonneg hplain.1) rfl)
  · have hlength : (padded 4 year.natAbs).toList.length ≤
        ((padded 4 year.natAbs).toList ++ '-' :: behind).length := by
      rw [List.length_append]
      exact Nat.le_add_right _ _
    have hnumber := number?_padded hlength hhyphen
    rw [if_neg hplain]
    by_cases hneg : year < 0
    · have hminus : Text.trimStart (("-" ++ padded 4 year.natAbs).toList ++ '-' :: behind) =
          '-' :: ((padded 4 year.natAbs).toList ++ '-' :: behind) := by
        rw [String.toList_append]
        exact List.dropWhile_cons_of_neg (by decide)
      have hvalue : -(year.natAbs : Int) = year := by omega
      rw [if_pos hneg, hminus, year?, hnumber]
      exact congrArg some (Prod.ext hvalue rfl)
    · have hplus : Text.trimStart (("+" ++ padded 4 year.natAbs).toList ++ '-' :: behind) =
          '+' :: ((padded 4 year.natAbs).toList ++ '-' :: behind) := by
        rw [String.toList_append]
        exact List.dropWhile_cons_of_neg (by decide)
      have hvalue : (year.natAbs : Int) = year := by omega
      rw [if_neg hneg, hplus, year?, hnumber]
      exact congrArg some (Prod.ext hvalue rfl)

theorem month_lt (d : Date) : d.month < 10 ^ 2 := by
  have hbounds := d.month_bounds
  omega

theorem monthLength_le (year : Int) (month : Nat) : monthLength year month ≤ 31 := by
  have hall : ∀ n ∈ monthLengths year, n ≤ 31 := by
    simp only [monthLengths, List.forall_mem_cons]
    split <;> decide
  rw [monthLength, List.getD_eq_getElem?_getD]
  cases h : (monthLengths year)[month - 1]? with
  | none => exact Nat.zero_le 31
  | some n => exact hall n (List.mem_of_getElem? h)

theorem day_lt (d : Date) : d.day < 10 ^ 2 := by
  have hlength := monthLength_le d.year d.month
  have hbounds := d.day_bounds
  omega

/-- A date is read back, if there is a day of it. -/
theorem ofChars?_text (d : Date) :
    ofChars? d.text.toList = if firstYear ≤ d.year ∧ d.year ≤ lastYear then some d else none := by
  have hhyphen : ∀ c ∈ ('-' :: (padded 2 d.day).toList).head?, c.isDigit = false := by
    simp [Char.isDigit]
  have hmonth := number?_padded (Nat.le_of_eq (length_padded (by decide) d.month_lt)) hhyphen
  have hday := @number?_padded 2 d.day 2 [] (Nat.le_of_eq (length_padded (by decide) d.day_lt)) nofun
  rw [List.append_nil] at hday
  have htrim : Text.trimStart (padded 2 d.day).toList = (padded 2 d.day).toList := by
    have htrim := @trimStart_padded 2 d.day []
    rwa [List.append_nil] at htrim
  rw [toList_text, ← of?_eq, ofChars?, year?_yearText]
  simp [afterHyphen?, trimStart_padded, hmonth, htrim, hday]

end Date

namespace LogName

variable {stem name : String} {n : LogName}

/-- How a name ends behind the date. -/
def ending (n : LogName) : List Char :=
  ['.', 'l', 'o', 'g'] ++ if n.isPacked then ['.', 'g', 'z'] else []

/-- What a name tells is told by its parts. -/
theorem ofText?_eq_some_iff : ofText? stem name = some n ↔
    ∃ date : List Char, date? date = some n.date ∧
      name.toList = stem.toList ++ ['.'] ++ (date ++ n.ending) := by
  constructor
  · intro h
    unfold ofText? at h
    obtain ⟨behind, hbehind, h⟩ := Option.bind_eq_some_iff.1 h
    rw [List.isPrefixOf?_eq_some_iff_append_eq] at hbehind
    split at h
    · rename_i date hdate
      rw [List.isSuffixOf?_eq_some_iff_append_eq] at hdate
      obtain ⟨d, hd, hn⟩ := Option.bind_eq_some_iff.1 h
      cases hn
      exact ⟨date, hd, by rw [← hbehind, ← hdate]; rfl⟩
    · obtain ⟨date, hdate, h⟩ := Option.bind_eq_some_iff.1 h
      rw [List.isSuffixOf?_eq_some_iff_append_eq] at hdate
      obtain ⟨d, hd, hn⟩ := Option.bind_eq_some_iff.1 h
      cases hn
      exact ⟨date, hd, by rw [← hbehind, ← hdate]; rfl⟩
  · rintro ⟨date, hd, hname⟩
    obtain ⟨d, packed⟩ := n
    have hdate : date? date = some d := hd
    unfold ofText?
    rw [List.isPrefixOf?_eq_some_iff_append_eq.2 hname.symm, Option.bind_eq_bind, Option.bind_some]
    cases packed with
    | false =>
      have hplain : ['.', 'l', 'o', 'g'].isSuffixOf? (date ++ ending ⟨d, false⟩) = some date :=
        List.isSuffixOf?_eq_some_iff_append_eq.2 rfl
      rw [hplain]
      simp [hdate]
    | true =>
      have hpacked : ['.', 'l', 'o', 'g', '.', 'g', 'z'].isSuffixOf? (date ++ ending ⟨d, true⟩) =
          some date := List.isSuffixOf?_eq_some_iff_append_eq.2 rfl
      have hplain : ['.', 'l', 'o', 'g'].isSuffixOf? (date ++ ending ⟨d, true⟩) = none := by
        refine Option.eq_none_iff_forall_ne_some.2 fun behind hbehind => ?_
        rw [List.isSuffixOf?_eq_some_iff_append_eq] at hbehind
        have hlast := congrArg List.getLast? hbehind
        simp [ending] at hlast
      rw [hplain, hpacked]
      simp [hdate]

/-- The compressed file beside a log is a log of the same day. -/
theorem ofText?_append_packedEnding {date : Date} (h : ofText? stem name = some ⟨date, false⟩) :
    ofText? stem (name ++ packedEnding) = some ⟨date, true⟩ := by
  obtain ⟨ds, hdate, hname⟩ := ofText?_eq_some_iff.1 h
  refine ofText?_eq_some_iff.2 ⟨ds, hdate, ?_⟩
  rw [String.toList_append, hname]
  simp [packedEnding, ending]

theorem toList_text (stem : String) (n : LogName) :
    (n.text stem).toList = stem.toList ++ ['.'] ++ (n.date.text.toList ++ n.ending) := by
  simp only [text, ending, packedEnding]
  split <;> simp [toString]

/-- Two endings are told apart by their last characters. -/
theorem append_ending_inj {ds ds' : List Char} {n n' : LogName}
    (h : ds ++ n.ending = ds' ++ n'.ending) : ds = ds' ∧ n.isPacked = n'.isPacked := by
  have hpacked : n.isPacked = n'.isPacked := by
    have hlast := congrArg List.getLast? h
    revert hlast
    cases hn : n.isPacked <;> cases hn' : n'.isPacked <;> simp [ending, hn, hn']
  refine ⟨?_, hpacked⟩
  rw [ending, ending, hpacked] at h
  exact List.append_cancel_right h

/-- If a file that was named after a day is taken for a log, then for that of the day. -/
theorem eq_of_ofText?_text {named : LogName} (h : ofText? stem (named.text stem) = some n) :
    n = named := by
  obtain ⟨ds, hdate, hname⟩ := ofText?_eq_some_iff.1 h
  rw [toList_text] at hname
  obtain ⟨rfl, hpacked⟩ := append_ending_inj (List.append_cancel_left hname)
  have hread : Date.ofChars? named.date.text.toList = some n.date := by
    unfold date? at hdate
    split at hdate
    · exact hdate
    · cases hdate
  rw [Date.ofChars?_text] at hread
  split at hread
  · have hsame : named.date = n.date := Option.some.inj hread
    obtain ⟨day, packed⟩ := n
    cases hsame
    cases hpacked
    rfl
  · cases hread

end LogName

end IsoMedia
