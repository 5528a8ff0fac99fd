import IsoMedia.Proofs.Log.Names
import IsoMedia.Proofs.Text.Utf8
import Mathlib.Data.List.DropRight

/-!
# How the names of log files may be spelled

A date is read from other texts than the one it is written as: blanks may stand before its numbers, its
year may have a sign, and numbers may have fewer digits (`Date.ofChars?_eq_some_iff`).  That the date in a
name takes ten bytes leaves room for this, since a blank or a sign can stand where digits are missing; and
so names are taken for those of logs that `LogName.text` never gives (`LogName.ofText?_spellings`).
-/

namespace IsoMedia

namespace Digits

variable {c c' : Char} {ds ds' : List Char}

theorem valueOf_lt (hc : c.isDigit = true) : valueOf c < 10 := by
  have hrange := bounds_of_isDigit hc
  have hzero : '0'.toNat = 48 := rfl
  rw [valueOf, hzero]
  omega

theorem valueOf_inj (hc : c.isDigit = true) (hc' : c'.isDigit = true)
    (h : valueOf c = valueOf c') : c = c' := by
  have hrange := bounds_of_isDigit hc
  have hrange' := bounds_of_isDigit hc'
  have hzero : '0'.toNat = 48 := rfl
  rw [valueOf, valueOf, hzero] at h
  have hsame : c.toNat = c'.toNat := by omega
  exact Char.toNat_inj.1 hsame

theorem value_concat (ds : List Char) (c : Char) : value (ds ++ [c]) = value ds * 10 + valueOf c := by
  rw [value, List.foldl_concat, value]

theorem value_lt (hds : ∀ c ∈ ds, c.isDigit = true) : value ds < 10 ^ ds.length := by
  induction ds using List.reverseRecOn with
  | nil => decide
  | append_singleton ds c ih =>
    rw [List.forall_mem_append, List.forall_mem_singleton] at hds
    have hfront := ih hds.1
    have hlast := valueOf_lt hds.2
    rw [value_concat, List.length_append, List.length_singleton, Nat.pow_succ]
    omega

/-- As many digits with the same value are the same digits. -/
theorem eq_of_value_eq (hds : ∀ c ∈ ds, c.isDigit = true) (hds' : ∀ c ∈ ds', c.isDigit = true)
    (hlength : ds.length = ds'.length) (hvalue : value ds = value ds') : ds = ds' := by
  induction ds using List.reverseRecOn generalizing ds' with
  | nil => exact (List.eq_nil_of_length_eq_zero hlength.symm).symm
  | append_singleton ds c ih =>
    cases ds' using List.reverseRecOn with
    | nil => simp at hlength
    | append_singleton ds' c' =>
      rw [List.forall_mem_append, List.forall_mem_singleton] at hds hds'
      rw [value_concat, value_concat] at hvalue
      have hlast := valueOf_lt hds.2
      have hlast' := valueOf_lt hds'.2
      obtain rfl := ih hds.1 hds'.1 (by simpa using hlength) (by omega)
      rw [valueOf_inj hds.2 hds'.2 (by omega)]

end Digits

namespace Text

variable {c : Char} {cs rest : List Char}

/-- The blanks at the front. -/
def blanksOf (cs : List Char) : List Char := cs.takeWhile isBlank

theorem isBlank_of_mem_blanksOf (h : c ∈ blanksOf cs) : isBlank c = true :=
  List.mem_takeWhile_imp h

theorem blanksOf_append_trimStart (cs : List Char) : blanksOf cs ++ trimStart cs = cs :=
  List.takeWhile_append_dropWhile

theorem trimStart_append (hcs : ∀ c ∈ cs, isBlank c = true)
    (hrest : ∀ c ∈ rest.head?, isBlank c = false) : trimStart (cs ++ rest) = rest := by
  rw [trimStart, List.dropWhile_append_of_pos hcs]
  cases rest with
  | nil => rfl
  | cons c rest => exact List.dropWhile_cons_of_neg (by simp [hrest c rfl])

end Text

namespace Date

open Digits

variable {most n : Nat} {year : Int} {cs rest : List Char} {d : Date}

/-- A sign before a year. -/
inductive Sign where
  | plus
  | minus
deriving DecidableEq

def Sign.char : Sign → Char
  | plus => '+'
  | minus => '-'

/-- A number in a date: blanks, perhaps a sign, and digits. -/
structure Numeral where
  blanks : List Char
  sign : Option Sign
  digits : List Char
  isBlank_of_mem : ∀ c ∈ blanks, Text.isBlank c = true
  isDigit_of_mem : ∀ c ∈ digits, c.isDigit = true
  digits_ne_nil : digits ≠ []

namespace Numeral

variable {s : Numeral}

/-- What stands behind the blanks. -/
def signed (s : Numeral) : List Char := s.sign.toList.map Sign.char ++ s.digits

def chars (s : Numeral) : List Char := s.blanks ++ s.signed

def value (s : Numeral) : Int :=
  match s.sign with
  | some .minus => -(Digits.value s.digits : Int)
  | _ => Digits.value s.digits

theorem signed_of_none (hsign : s.sign = none) : s.signed = s.digits := by
  rw [signed, hsign]
  rfl

theorem value_of_none (hsign : s.sign = none) : s.value = Digits.value s.digits := by
  rw [value, hsign]

theorem isBlank_head (s : Numeral) : ∀ c ∈ (s.signed ++ rest).head?, Text.isBlank c = false := by
  intro c hc
  unfold signed at hc
  cases hsign : s.sign with
  | none =>
    obtain ⟨c', ds, hds⟩ := List.exists_cons_of_ne_nil s.digits_ne_nil
    rw [hsign, hds] at hc
    obtain rfl : c' = c := by simpa using hc
    exact Text.isBlank_of_isDigit (s.isDigit_of_mem c' (hds ▸ List.mem_cons_self))
  | some sign =>
    rw [hsign] at hc
    obtain rfl : sign.char = c := by simpa using hc
    cases sign <;> decide

theorem trimStart_chars (s : Numeral) (rest : List Char) :
    Text.trimStart (s.chars ++ rest) = s.signed ++ rest := by
  rw [chars, List.append_assoc, Text.trimStart_append s.isBlank_of_mem s.isBlank_head]

end Numeral

/-! ### Reading a number -/

variable {s : Numeral}

theorem exists_of_number? (h : number? most cs = some (n, rest)) :
    ∃ ds : List Char, ((∀ c ∈ ds, c.isDigit = true) ∧ ds ≠ [] ∧ ds.length ≤ most) ∧
      Digits.value ds = n ∧ cs = ds ++ rest := by
  unfold number? at h
  dsimp only at h
  split at h
  · cases h
  · rename_i hsome
    cases h
    refine ⟨_, ⟨fun c hc => List.mem_takeWhile_imp hc, hsome, ?_⟩, rfl, ?_⟩
    · exact (List.takeWhile_prefix _).length_le.trans (List.length_take_le _ _)
    · have hprefix := (List.takeWhile_prefix Char.isDigit).trans (List.take_prefix most cs)
      exact (List.prefix_iff_eq_append.1 hprefix).symm

/-- Blanks, a sign and digits make up a number. -/
theorem exists_numeral {sign : Option Sign} {ds : List Char} (hdigits : ∀ c ∈ ds, c.isDigit = true)
    (hsome : ds ≠ []) (hcs : Text.trimStart cs = sign.toList.map Sign.char ++ (ds ++ rest)) :
    ∃ s : Numeral, s.sign = sign ∧ s.digits = ds ∧ cs = s.chars ++ rest := by
  refine ⟨⟨Text.blanksOf cs, sign, ds, fun _ => Text.isBlank_of_mem_blanksOf, hdigits, hsome⟩,
    rfl, rfl, ?_⟩
  rw [Numeral.chars, Numeral.signed, List.append_assoc, List.append_assoc, ← hcs,
    Text.blanksOf_append_trimStart]

theorem exists_of_number?_trimStart (h : number? most (Text.trimStart cs) = some (n, rest)) :
    ∃ s : Numeral, (s.sign = none ∧ s.digits.length ≤ most) ∧ s.value = n ∧
      cs = s.chars ++ rest := by
  obtain ⟨ds, ⟨hdigits, hsome, hmost⟩, rfl, hcs⟩ := exists_of_number? h
  obtain ⟨s, hsign, rfl, hchars⟩ := @exists_numeral cs rest none ds hdigits hsome hcs
  exact ⟨s, ⟨hsign, hmost⟩, Numeral.value_of_none hsign, hchars⟩

theorem Numeral.number?_chars (hsign : s.sign = none) (hmost : s.digits.length ≤ most)
    (hvalue : s.value = n) (hrest : ∀ c ∈ rest.head?, c.isDigit = false) :
    number? most (Text.trimStart (s.chars ++ rest)) = some (n, rest) := by
  have hn : Digits.value s.digits = n := Int.ofNat.inj ((value_of_none hsign).symm.trans hvalue)
  rw [trimStart_chars, signed_of_none hsign,
    number?_append s.isDigit_of_mem s.digits_ne_nil hmost hrest, hn]

theorem exists_of_number?_signed {sign : Sign} {behind : List Char}
    (h : number? most behind = some (n, rest)) (hcs : Text.trimStart cs = sign.char :: behind) :
    ∃ s : Numeral, s.sign = some sign ∧ Digits.value s.digits = n ∧ cs = s.chars ++ rest := by
  obtain ⟨ds, ⟨hdigits, hsome, -⟩, rfl, rfl⟩ := exists_of_number? h
  obtain ⟨s, hsign, rfl, hchars⟩ := @exists_numeral cs rest (some sign) ds hdigits hsome hcs
  exact ⟨s, hsign, rfl, hchars⟩

theorem exists_of_year? (h : year? (Text.trimStart cs) = some (year, rest)) :
    ∃ s : Numeral, (s.sign = none → s.digits.length ≤ 4) ∧ s.value = year ∧
      cs = s.chars ++ rest := by
  unfold year? at h
  split at h
  case h_1 behind hminus =>
    obtain ⟨⟨n, rest'⟩, hnumber, hyear⟩ := Option.map_eq_some_iff.1 h
    cases hyear
    obtain ⟨s, hsign, rfl, hchars⟩ := @exists_of_number?_signed _ _ _ _ .minus _ hnumber hminus
    refine ⟨s, (fun hnone => nomatch hsign.symm.trans hnone), ?_, hchars⟩
    rw [Numeral.value, hsign]
  case h_2 behind hplus =>
    obtain ⟨⟨n, rest'⟩, hnumber, hyear⟩ := Option.map_eq_some_iff.1 h
    cases hyear
    obtain ⟨s, hsign, rfl, hchars⟩ := @exists_of_number?_signed _ _ _ _ .plus _ hnumber hplus
    refine ⟨s, (fun hnone => nomatch hsign.symm.trans hnone), ?_, hchars⟩
    rw [Numeral.value, hsign]
  case h_3 =>
    obtain ⟨⟨n, rest'⟩, hnumber, hyear⟩ := Option.map_eq_some_iff.1 h
    cases hyear
    obtain ⟨s, ⟨-, hmost⟩, hvalue, hchars⟩ := exists_of_number?_trimStart hnumber
    exact ⟨s, fun _ => hmost, hvalue, hchars⟩

theorem Numeral.year?_chars (hshort : s.sign = none → s.digits.length ≤ 4)
    (hrest : ∀ c ∈ rest.head?, c.isDigit = false) :
    year? (Text.trimStart (s.chars ++ rest)) = some (s.value, rest) := by
  have hlength : s.digits.length ≤ (s.digits ++ rest).length := by
    rw [List.length_append]
    exact Nat.le_add_right _ _
  have hnumber {most : Nat} (hmost : s.digits.length ≤ most) :=
    number?_append s.isDigit_of_mem s.digits_ne_nil hmost hrest
  rw [trimStart_chars]
  cases hsign : s.sign with
  | none =>
    obtain ⟨c, ds, hds⟩ := List.exists_cons_of_ne_nil s.digits_ne_nil
    have hdigit := s.isDigit_of_mem c (hds ▸ List.mem_cons_self)
    rw [signed_of_none hsign, value_of_none hsign]
    have hread := hnumber (hshort hsign)
    rw [hds, List.cons_append] at hread ⊢
    rw [year?_of_digit _ hdigit, hread]
    rfl
  | some sign =>
    have hsigned : s.signed ++ rest = sign.char :: (s.digits ++ rest) := by
      rw [signed, hsign]
      rfl
    rw [hsigned, value, hsign]
    cases sign with
    | plus =>
      rw [Sign.char, year?, hnumber hlength]
      rfl
    | minus =>
      rw [Sign.char, year?, hnumber hlength]
      rfl

/-! ### Reading a date -/

/-- How a date may be spelled: only a year may have a sign, and only behind a sign it may have more than
four digits. -/
structure Spelling where
  year : Numeral
  month : Numeral
  day : Numeral
  year_short : year.sign = none → year.digits.length ≤ 4
  month_plain : month.sign = none ∧ month.digits.length ≤ 2
  day_plain : day.sign = none ∧ day.digits.length ≤ 2

namespace Spelling

def chars (s : Spelling) : List Char :=
  s.year.chars ++ '-' :: (s.month.chars ++ '-' :: s.day.chars)

/-- The spelling is one of the given date. -/
structure Of (s : Spelling) (d : Date) : Prop where
  year : s.year.value = d.year
  month : s.month.value = d.month
  day : s.day.value = d.day

end Spelling

theorem eq_some_of_of? {year : Int} {month day : Nat} (h : of? year month day = some d) :
    (firstYear ≤ d.year ∧ d.year ≤ lastYear) ∧ d.year = year ∧ d.month = month ∧ d.day = day := by
  unfold of? at h
  split at h
  · split at h
    · cases h
      exact ⟨‹_›, rfl, rfl, rfl⟩
    · cases h
  · cases h

theorem afterHyphen?_eq_some_iff : afterHyphen? cs = some rest ↔ cs = '-' :: rest := by
  unfold afterHyphen?
  split
  · simp
  · rename_i hother
    refine iff_of_false nofun fun h => hother rest h

/-- **A date is read from its spellings.** -/
theorem ofChars?_eq_some_iff : ofChars? cs = some d ↔
    (firstYear ≤ d.year ∧ d.year ≤ lastYear) ∧ ∃ s : Spelling, s.Of d ∧ cs = s.chars := by
  constructor
  · intro h
    obtain ⟨⟨year, cs₁⟩, hyear, h⟩ := Option.bind_eq_some_iff.1 h
    obtain ⟨cs₂, hhyphen, h⟩ := Option.bind_eq_some_iff.1 h
    obtain ⟨⟨month, cs₃⟩, hmonth, h⟩ := Option.bind_eq_some_iff.1 h
    obtain ⟨cs₄, hhyphen', h⟩ := Option.bind_eq_some_iff.1 h
    obtain ⟨⟨day, cs₅⟩, hday, h⟩ := Option.bind_eq_some_iff.1 h
    dsimp only at hyear hhyphen hmonth hhyphen' hday h
    split at h
    · rename_i hend
      obtain ⟨hrange, rfl, rfl, rfl⟩ := eq_some_of_of? h
      obtain ⟨y, hshort, hy, hcs⟩ := exists_of_year? hyear
      obtain ⟨m, hplain, hm, hcs₂⟩ := exists_of_number?_trimStart hmonth
      obtain ⟨e, hplain', he, hcs₄⟩ := exists_of_number?_trimStart hday
      refine ⟨hrange, ⟨y, m, e, hshort, hplain, hplain'⟩, ⟨hy, hm, he⟩, ?_⟩
      rw [afterHyphen?_eq_some_iff] at hhyphen hhyphen'
      rw [hcs, hhyphen, hcs₂, hhyphen', hcs₄, hend, List.append_nil]
      rfl
    · cases h
  · rintro ⟨hrange, s, hof, rfl⟩
    have hhyphen (rest : List Char) : ∀ c ∈ ('-' :: rest).head?, c.isDigit = false := by
      simp [Char.isDigit]
    have hday := @Numeral.number?_chars 2 d.day [] s.day s.day_plain.1 s.day_plain.2 hof.day nofun
    rw [List.append_nil] at hday
    have hmonth := Numeral.number?_chars s.month_plain.1 s.month_plain.2 hof.month
      (hhyphen s.day.chars)
    have hyear := Numeral.year?_chars s.year_short (hhyphen (s.month.chars ++ '-' :: s.day.chars))
    rw [hof.year] at hyear
    rw [ofChars?, Spelling.chars, hyear]
    simp [afterHyphen?, hmonth, hday, of?_eq, hrange]

/-! ### Spellings of ten bytes -/

/-- A digit or a hyphen. -/
def IsPlain (c : Char) : Prop := c.isDigit = true ∨ c = '-'

theorem IsPlain.isBlank {c : Char} (h : IsPlain c) : Text.isBlank c = false := by
  rcases h with h | rfl
  · exact Text.isBlank_of_isDigit h
  · decide

theorem IsPlain.utf8Size {c : Char} (h : IsPlain c) : c.utf8Size = 1 := by
  rcases h with h | rfl
  · have hrange : c.val.toNat ≤ 57 := (bounds_of_isDigit h).2
    exact Char.utf8Size_eq_one_iff.2 (UInt32.le_iff_toNat_le.2 (hrange.trans (by decide)))
  · decide

theorem utf8ByteSize_of_isPlain (h : ∀ c ∈ cs, IsPlain c) :
    (String.ofList cs).utf8ByteSize = cs.length := by
  induction cs with
  | nil => rfl
  | cons c cs ih =>
    rw [List.forall_mem_cons] at h
    rw [Utf8.utf8ByteSize_ofList_cons, h.1.utf8Size, ih h.2, List.length_cons, Nat.add_comm]

theorem length_le_utf8ByteSize (cs : List Char) : cs.length ≤ (String.ofList cs).utf8ByteSize := by
  induction cs with
  | nil => exact Nat.zero_le _
  | cons c cs ih =>
    have hsize := c.utf8Size_pos
    rw [Utf8.utf8ByteSize_ofList_cons, List.length_cons]
    omega

/-- The year has four digits at most. -/
def IsShort (d : Date) : Prop := 0 ≤ d.year ∧ d.year < 10000

theorem IsShort.toList_text (hd : d.IsShort) : d.text.toList =
    (padded 4 d.year.natAbs).toList ++
      '-' :: ((padded 2 d.month).toList ++ '-' :: (padded 2 d.day).toList) := by
  rw [Date.toList_text, yearText, if_pos (show 0 ≤ d.year ∧ d.year < 10000 from hd)]

theorem IsShort.length_year (hd : d.IsShort) : (padded 4 d.year.natAbs).toList.length = 4 := by
  obtain ⟨hfirst, hlast⟩ := hd
  exact length_padded (by decide) (by omega)

theorem length_month (d : Date) : (padded 2 d.month).toList.length = 2 :=
  length_padded (by decide) d.month_lt

theorem length_day (d : Date) : (padded 2 d.day).toList.length = 2 :=
  length_padded (by decide) d.day_lt

theorem IsShort.isPlain_of_mem_text (hd : d.IsShort) : ∀ c ∈ d.text.toList, IsPlain c := by
  have hdigits (width n : Nat) : ∀ c ∈ (padded width n).toList, IsPlain c :=
    fun c hc => .inl (isDigit_of_mem_padded hc)
  rw [hd.toList_text]
  simp only [List.forall_mem_append, List.forall_mem_cons]
  exact ⟨hdigits _ _, .inr rfl, hdigits _ _, .inr rfl, hdigits _ _⟩

theorem IsShort.length_text (hd : d.IsShort) : d.text.toList.length = 10 := by
  rw [hd.toList_text]
  simp only [List.length_append, List.length_cons, hd.length_year, length_month, length_day]

/-- The text of a date is longer if its year is not short. -/
theorem isShort_of_length_text_le (h : d.text.toList.length ≤ 10) : d.IsShort := by
  by_contra hlong
  have hyear := @le_length_padded 4 d.year.natAbs
  rw [Date.toList_text, yearText, if_neg (show ¬ (0 ≤ d.year ∧ d.year < 10000) from hlong)] at h
  simp only [List.length_append, List.length_cons, length_month, length_day,
    String.toList_append] at h
  have hsign : (if d.year < 0 then "-" else "+").toList.length = 1 := by
    split <;> rfl
  omega

namespace Numeral

variable {s : Numeral}

theorem length_chars (s : Numeral) :
    s.chars.length = s.blanks.length + (s.sign.toList.length + s.digits.length) := by
  rw [chars, signed, List.length_append, List.length_append, List.length_map]

theorem length_digits_pos (s : Numeral) : 0 < s.digits.length := List.length_pos_iff.2 s.digits_ne_nil

theorem natAbs_value (s : Numeral) : s.value.natAbs = Digits.value s.digits := by
  unfold value
  split
  · exact (Int.natAbs_neg _).trans (Int.natAbs_natCast _)
  · exact Int.natAbs_natCast _

theorem natAbs_value_lt (s : Numeral) : s.value.natAbs < 10 ^ s.digits.length :=
  s.natAbs_value ▸ value_lt s.isDigit_of_mem

theorem chars_eq_digits (hblanks : s.blanks = []) (hsign : s.sign = none) : s.chars = s.digits := by
  rw [chars, signed_of_none hsign, hblanks, List.nil_append]

theorem blanks_eq_nil (h : ∀ c ∈ s.chars, IsPlain c) : s.blanks = [] := by
  refine List.eq_nil_iff_forall_not_mem.2 fun c hc => ?_
  have hplain := (h c (List.mem_append_left _ hc)).isBlank
  rw [s.isBlank_of_mem c hc] at hplain
  cases hplain

/-- Digits are those that a number is written with, if there are as many. -/
theorem digits_eq_padded {width : Nat} (hwidth : 0 < width) (hlength : s.digits.length = width)
    (hvalue : s.value.natAbs = n) : s.digits = (padded width n).toList := by
  have hlt := s.natAbs_value_lt
  rw [hvalue, hlength] at hlt
  rw [natAbs_value] at hvalue
  refine eq_of_value_eq s.isDigit_of_mem (fun c hc => isDigit_of_mem_padded hc) ?_ ?_
  · rw [hlength, length_padded hwidth hlt]
  · rw [hvalue, value_padded]

end Numeral

namespace Spelling

variable {s : Spelling}

/-- A spelling without blanks and without a sign. -/
structure Plain (s : Spelling) : Prop where
  blanks : s.year.blanks = [] ∧ s.month.blanks = [] ∧ s.day.blanks = []
  sign : s.year.sign = none

/-- In UTF-8 the spelling takes ten bytes. -/
def TakesTenBytes (s : Spelling) : Prop := (String.ofList s.chars).utf8ByteSize = 10

theorem length_chars (s : Spelling) :
    s.chars.length = s.year.chars.length + (s.month.chars.length + (s.day.chars.length + 1) + 1) := by
  simp only [chars, List.length_append, List.length_cons]

theorem length_chars_le (hbytes : s.TakesTenBytes) : s.chars.length ≤ 10 :=
  (length_le_utf8ByteSize s.chars).trans_eq hbytes

/-- Ten bytes have no room for a year that is not in the calendar. -/
theorem Of.bounds (hof : s.Of d) (hbytes : s.TakesTenBytes) :
    firstYear ≤ d.year ∧ d.year ≤ lastYear := by
  have hlength := length_chars_le hbytes
  have hmonth := s.month.length_digits_pos
  have hday := s.day.length_digits_pos
  simp only [length_chars, Numeral.length_chars] at hlength
  have hdigits : s.year.digits.length ≤ 5 := by
    cases hsign : s.year.sign with
    | none => exact (s.year_short hsign).trans (by decide)
    | some sign =>
      rw [hsign, Option.toList_some, List.length_singleton] at hlength
      omega
  have hvalue := s.year.natAbs_value_lt.trans_le (Nat.pow_le_pow_right (by decide) hdigits)
  rw [hof.year] at hvalue
  unfold firstYear lastYear
  omega

/-- **A date that is spelled in ten bytes is spelled as its text is if, and only if, there is neither a
blank nor a sign.** -/
theorem Of.chars_eq_text_iff (hof : s.Of d) (hbytes : s.TakesTenBytes) :
    s.chars = d.text.toList ↔ s.Plain := by
  constructor
  · intro htext
    have hshort : d.IsShort := isShort_of_length_text_le (htext ▸ length_chars_le hbytes)
    have hplain : ∀ c ∈ s.chars, IsPlain c := htext ▸ hshort.isPlain_of_mem_text
    simp only [chars, List.forall_mem_append, List.forall_mem_cons] at hplain
    obtain ⟨hyear, -, hmonth, -, hday⟩ := hplain
    have hblanks := Numeral.blanks_eq_nil hyear
    refine ⟨⟨hblanks, Numeral.blanks_eq_nil hmonth, Numeral.blanks_eq_nil hday⟩, ?_⟩
    -- The text starts with a digit.
    cases hsign : s.year.sign with
    | none => rfl
    | some sign =>
      obtain ⟨c, cs, hcs, hdigit⟩ := exists_padded_eq_cons 4 d.year.natAbs
      rw [hshort.toList_text, hcs, chars, Numeral.chars, Numeral.signed, hblanks, hsign] at htext
      obtain rfl : sign.char = c := (List.cons.inj htext).1
      cases sign <;> exact absurd hdigit (by decide)
  · intro hplain
    have hyear := Numeral.chars_eq_digits hplain.blanks.1 hplain.sign
    have hmonth := Numeral.chars_eq_digits hplain.blanks.2.1 s.month_plain.1
    have hday := Numeral.chars_eq_digits hplain.blanks.2.2 s.day_plain.1
    have hdigits : ∀ c ∈ s.chars, IsPlain c := by
      simp only [chars, hyear, hmonth, hday, List.forall_mem_append, List.forall_mem_cons]
      exact ⟨fun c hc => .inl (s.year.isDigit_of_mem c hc), .inr rfl,
        fun c hc => .inl (s.month.isDigit_of_mem c hc), .inr rfl,
        fun c hc => .inl (s.day.isDigit_of_mem c hc)⟩
    have hlength : s.chars.length = 10 := (utf8ByteSize_of_isPlain hdigits).symm.trans hbytes
    rw [length_chars, hyear, hmonth, hday] at hlength
    -- No number can have fewer digits than it is written with.
    have hyear4 := s.year_short hplain.sign
    have hmonth2 := s.month_plain.2
    have hday2 := s.day_plain.2
    have hshort : d.IsShort := by
      have hvalue := s.year.natAbs_value_lt.trans_le (Nat.pow_le_pow_right (by decide) hyear4)
      have hpositive := Numeral.value_of_none hplain.sign
      rw [hof.year] at hvalue hpositive
      exact ⟨by omega, by omega⟩
    have hyearDigits := Numeral.digits_eq_padded (by decide) (show s.year.digits.length = 4 by omega)
      (congrArg Int.natAbs hof.year)
    have hmonthDigits := Numeral.digits_eq_padded (by decide)
      (show s.month.digits.length = 2 by omega) (congrArg Int.natAbs hof.month)
    have hdayDigits := Numeral.digits_eq_padded (by decide)
      (show s.day.digits.length = 2 by omega) (congrArg Int.natAbs hof.day)
    rw [chars, hyear, hmonth, hday, hyearDigits, hmonthDigits, hdayDigits, Int.natAbs_natCast,
      Int.natAbs_natCast, hshort.toList_text]

end Spelling

end Date

namespace Files

variable {directory name path : String}

/-- The name at the end of a path, behind the last slash. -/
def lastName (path : String) : String := String.ofList (path.toList.rtakeWhile (· ≠ '/'))

theorem not_mem_lastName (path : String) : '/' ∉ (lastName path).toList := by
  rw [lastName, String.toList_ofList]
  intro hmem
  have hne := List.mem_rtakeWhile_imp hmem
  simp at hne

theorem lastName_of_not_mem (hname : '/' ∉ name.toList) : lastName name = name := by
  rw [lastName, List.rtakeWhile_eq_self_iff.2, String.ofList_toList]
  intro c hc
  exact decide_eq_true (ne_of_mem_of_not_mem hc hname)

theorem lastName_of_append {front : List Char} (hname : '/' ∉ name.toList)
    (hpath : path.toList = front ++ '/' :: name.toList) : lastName path = name := by
  have hpos : ∀ c ∈ name.toList.reverse, decide (c ≠ '/') = true := fun c hc =>
    decide_eq_true (ne_of_mem_of_not_mem (List.mem_reverse.1 hc) hname)
  rw [lastName, hpath, List.rtakeWhile, List.reverse_append, List.reverse_cons, List.append_assoc,
    List.takeWhile_append_of_pos hpos, List.singleton_append,
    List.takeWhile_cons_of_neg (by decide), List.append_nil, List.reverse_reverse,
    String.ofList_toList]

theorem lastName_pathIn (hname : '/' ∉ name.toList) : lastName (pathIn directory name) = name := by
  unfold pathIn
  split
  · exact lastName_of_not_mem hname
  · split
    · rename_i hlast
      obtain ⟨front, hfront⟩ := List.getLast?_eq_some_iff.1 hlast
      refine @lastName_of_append _ _ front hname ?_
      rw [String.toList_append, hfront, List.append_assoc]
      rfl
    · refine @lastName_of_append _ _ directory.toList hname ?_
      rw [String.toList_append, String.toList_append, List.append_assoc]
      rfl

end Files

namespace LogName

variable {stem name : String} {n : LogName} {s : Date.Spelling}

/-- The name is that of a log, with its date in the given spelling. -/
structure Spells (stem name : String) (n : LogName) (s : Date.Spelling) : Prop where
  date : s.Of n.date
  bytes : s.TakesTenBytes
  name : name.toList = stem.toList ++ ['.'] ++ (s.chars ++ n.ending)

theorem ofText?_eq_some_iff_spells : ofText? stem name = some n ↔ ∃ s, Spells stem name n s := by
  rw [ofText?_eq_some_iff]
  constructor
  · rintro ⟨date, hdate, hname⟩
    unfold date? at hdate
    split at hdate
    · obtain ⟨-, s, hof, rfl⟩ := Date.ofChars?_eq_some_iff.1 hdate
      exact ⟨s, hof, ‹_›, hname⟩
    · cases hdate
  · rintro ⟨s, hof, hbytes, hname⟩
    refine ⟨s.chars, ?_, hname⟩
    rw [date?, if_pos (show (String.ofList s.chars).utf8ByteSize = 10 from hbytes)]
    exact Date.ofChars?_eq_some_iff.2 ⟨hof.bounds hbytes, s, hof, rfl⟩

theorem Spells.eq_text_iff (h : Spells stem name n s) : name = n.text stem ↔ s.Plain := by
  rw [← h.date.chars_eq_text_iff h.bytes, ← String.toList_inj, h.name, toList_text]
  exact ⟨fun hsame => List.append_cancel_right (List.append_cancel_left hsame), fun hsame => by
    rw [hsame]⟩

theorem ofText?_text (hn : n.date.IsShort) : ofText? stem (n.text stem) = some n := by
  have hbounds : Date.firstYear ≤ n.date.year ∧ n.date.year ≤ Date.lastYear := by
    unfold Date.firstYear Date.lastYear
    have hfirst := hn.1
    have hlast := hn.2
    omega
  have hbytes := (Date.utf8ByteSize_of_isPlain hn.isPlain_of_mem_text).trans hn.length_text
  refine ofText?_eq_some_iff.2 ⟨n.date.text.toList, ?_, toList_text stem n⟩
  rw [date?, if_pos hbytes, Date.ofChars?_text, if_pos hbounds]

/-- A name without a slash is never that of a log whose stem has one. -/
theorem ofText?_eq_none (hstem : '/' ∈ stem.toList) (hname : '/' ∉ name.toList) :
    ofText? stem name = none := by
  refine Option.eq_none_iff_forall_ne_some.2 fun n h => hname ?_
  obtain ⟨date, -, hparts⟩ := ofText?_eq_some_iff.1 h
  rw [hparts]
  exact List.mem_append_left _ (List.mem_append_left _ hstem)

theorem not_mem_text (hn : n.date.IsShort) (hstem : '/' ∉ stem.toList) :
    '/' ∉ (n.text stem).toList := by
  have hdate : '/' ∉ n.date.text.toList := fun hmem => by
    rcases hn.isPlain_of_mem_text _ hmem with h | h
    · exact absurd h (by decide)
    · exact absurd h (by decide)
  have hending : '/' ∉ n.ending := by
    unfold ending
    split <;> decide
  rw [toList_text]
  simp [hstem, hdate, hending]

/-- **What names are taken for those of logs.**  The name of a log of a short year is, as long as its stem
leads to no other directory.  But so is every name whose date is spelled in ten bytes, which is the name
of the log only if the spelling has no blank and no sign; and otherwise the file is removed or compressed
as the log is. -/
theorem ofText?_spellings (stem : String) (n : LogName) :
    (n.date.IsShort → ofText? stem (n.text stem) = some n ∧
      ∀ directory : String, ofText? stem (Files.lastName (Files.pathIn directory (n.text stem))) =
        if '/' ∈ stem.toList then none else some n) ∧
    ∀ name : String, (ofText? stem name = some n ↔ ∃ s, Spells stem name n s) ∧
      ∀ s, Spells stem name n s → (name = n.text stem ↔ s.Plain) ∧
        (n.date.IsShort → ∀ h : Housekeeping, h.stem = stem →
          h.choreFor name = h.choreFor (n.text stem)) := by
  refine ⟨fun hn => ⟨ofText?_text hn, fun directory => ?_⟩, fun name =>
    ⟨ofText?_eq_some_iff_spells, fun s hs => ⟨hs.eq_text_iff, fun hn h hstem => ?_⟩⟩⟩
  · split
    · exact ofText?_eq_none ‹_› (Files.not_mem_lastName _)
    · rw [Files.lastName_pathIn (not_mem_text hn ‹_›), ofText?_text hn]
  · have hname := ofText?_eq_some_iff_spells.2 ⟨s, hs⟩
    unfold Housekeeping.choreFor
    rw [hstem, hname, ofText?_text hn]

def firstOfNinety : LogName := ⟨⟨1990, 1, 1, by decide, by decide⟩, false⟩

/-- Two blanks stand where two digits are missing. -/
def blankSpelling : Date.Spelling where
  year := ⟨[' ', ' '], none, ['1', '9', '9', '0'], List.all_eq_true.1 rfl, List.all_eq_true.1 rfl,
    nofun⟩
  month := ⟨[], none, ['1'], nofun, List.all_eq_true.1 rfl, nofun⟩
  day := ⟨[], none, ['1'], nofun, List.all_eq_true.1 rfl, nofun⟩
  year_short := by decide
  month_plain := by decide
  day_plain := by decide

/-- On the sixth of February of 2026, with logs kept for thirty days, a file that never was a log is removed
as one that is too old. -/
theorem blankName_removed :
    ofText? "avkit" "avkit.  1990-1-1.log" = some firstOfNinety ∧
      "avkit.  1990-1-1.log" ≠ firstOfNinety.text "avkit" ∧
      ofText? "avkit" (firstOfNinety.text "avkit") = some firstOfNinety ∧
      Housekeeping.choreFor ⟨"avkit", true, 739653, 739623⟩ "avkit.  1990-1-1.log" = .remove := by
  obtain ⟨hcanonical, hspelled⟩ := ofText?_spellings "avkit" firstOfNinety
  obtain ⟨hrecognised, hname⟩ := hspelled "avkit.  1990-1-1.log"
  have hspells : Spells "avkit" "avkit.  1990-1-1.log" firstOfNinety blankSpelling :=
    ⟨⟨by decide, by decide, by decide⟩, rfl, by decide⟩
  have hshort : firstOfNinety.date.IsShort := ⟨by decide, by decide⟩
  obtain ⟨hsame, hchore⟩ := hname blankSpelling hspells
  refine ⟨hrecognised.2 ⟨_, hspells⟩, fun htext => ?_, (hcanonical hshort).1, ?_⟩
  · exact absurd (hsame.1 htext).blanks.1 (by decide)
  · rw [hchore hshort _ rfl]
    decide +kernel

end LogName

end IsoMedia
