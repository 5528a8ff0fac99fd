import IsoMedia.Text.Utf8
import Mathlib.Tactic.Common

/-!
# How long decoded text is

A run of bytes is decoded piece by piece (`Utf8.decode_cons`): a piece is what its character is written
with, or it is damaged and has at most three bytes, which is what the replacement takes.  So the
decoded text is never shorter than the bytes (`Utf8.length_le_utf8ByteSize_text`), but it is longer
where a damaged piece has fewer than three bytes.  The bytes of a text are decoded as that text
(`Utf8.text_toUTF8`).
-/

namespace IsoMedia.Utf8

/-! ### The bytes behind a first byte -/

/-- The number that the bits of a first byte and those of the bytes behind it make. -/
def joined (high : Nat) (bs : List UInt8) : Nat := bs.foldl (fun v b => v * 64 + b.toNat % 64) high

/-- Bytes that go on with a character; the bounds are those of the first of them. -/
def Continues (least most : UInt8) : List UInt8 → Prop
  | [] => True
  | b :: bs => (least ≤ b ∧ b ≤ most) ∧ ∀ c ∈ bs, 0x80 ≤ c ∧ c ≤ 0xBF

theorem Continues.cons {least most b : UInt8} {bs : List UInt8} (hb : least ≤ b ∧ b ≤ most)
    (h : Continues 0x80 0xBF bs) : Continues least most (b :: bs) := by
  refine ⟨hb, ?_⟩
  cases bs with
  | nil => exact nofun
  | cons c cs => exact List.forall_mem_cons.2 h

theorem Continues.tail {least most b : UInt8} {bs : List UInt8}
    (h : Continues least most (b :: bs)) : Continues 0x80 0xBF bs := by
  cases bs with
  | nil => trivial
  | cons c cs => exact List.forall_mem_cons.1 h.2

/-- Either a character is read to its end, or what was read of it is replaced. -/
theorem follow_spec (high : Nat) (least most : UInt8) (more : Nat) (bs : List UInt8) :
    ∃ taken, bs = taken ++ (follow high least most more bs).2 ∧
      ((follow high least most more bs).1 = replacement ∧ taken.length ≤ more ∨
        taken.length = more + 1 ∧ Continues least most taken ∧
          (follow high least most more bs).1 = Char.ofNat (joined high taken)) := by
  induction bs generalizing high least most more with
  | nil =>
    have hend : follow high least most more [] = (replacement, []) := by rw [follow]
    rw [hend]
    exact ⟨[], rfl, .inl ⟨rfl, Nat.zero_le _⟩⟩
  | cons b bs ih =>
    unfold follow
    split
    · rename_i hb
      cases more with
      | zero => exact ⟨[b], rfl, .inr ⟨rfl, .cons hb trivial, rfl⟩⟩
      | succ more =>
        obtain ⟨taken, hbs, h⟩ := ih (high * 64 + b.toNat % 64) 0x80 0xBF more
        refine ⟨b :: taken, congrArg (b :: ·) hbs, h.imp ?_ ?_⟩
        · rintro ⟨hchar, hlength⟩
          exact ⟨hchar, Nat.succ_le_succ hlength⟩
        · rintro ⟨hlength, hcontinues, hchar⟩
          exact ⟨congrArg (· + 1) hlength, .cons hb hcontinues, hchar⟩
    · exact ⟨[], rfl, .inl ⟨rfl, Nat.zero_le _⟩⟩

/-- A character whose bytes are there is read to its end. -/
theorem follow_of_continues {least most : UInt8} {more : Nat} {taken : List UInt8} (high : Nat)
    (hlength : taken.length = more + 1) (h : Continues least most taken) (bs : List UInt8) :
    follow high least most more (taken ++ bs) = (Char.ofNat (joined high taken), bs) := by
  induction taken generalizing high least most more with
  | nil => cases hlength
  | cons b taken ih =>
    rw [List.cons_append, follow, if_pos h.1]
    cases more with
    | zero =>
      obtain rfl : taken = [] := List.eq_nil_of_length_eq_zero (by simpa using hlength)
      rfl
    | succ more => exact ih _ (by simpa using hlength) h.tail

/-! ### First bytes -/

theorem lead?_two {b : UInt8} (h : 0xC2 ≤ b.toNat ∧ b.toNat < 0xE0) :
    lead? b = some ⟨b.toNat % 32, 0x80, 0xBF, 0⟩ := by
  simp only [lead?, UInt8.lt_iff_toNat_lt, UInt8.toNat_ofNat]
  rw [if_neg (by omega), if_pos (by omega)]

theorem lead?_three {b : UInt8} (h : 0xE0 ≤ b.toNat ∧ b.toNat < 0xF0) :
    lead? b = some ⟨b.toNat % 16, if b.toNat = 0xE0 then 0xA0 else 0x80,
      if b.toNat = 0xED then 0x9F else 0xBF, 1⟩ := by
  simp only [lead?, UInt8.lt_iff_toNat_lt, ← UInt8.toNat_inj, UInt8.toNat_ofNat]
  split_ifs <;> first | rfl | omega

theorem lead?_four {b : UInt8} (h : 0xF0 ≤ b.toNat ∧ b.toNat ≤ 0xF4) :
    lead? b = some ⟨b.toNat % 8, if b.toNat = 0xF0 then 0x90 else 0x80,
      if b.toNat = 0xF4 then 0x8F else 0xBF, 2⟩ := by
  simp only [lead?, UInt8.lt_iff_toNat_lt, ← UInt8.toNat_inj, UInt8.toNat_ofNat]
  split_ifs <;> first | rfl | omega

theorem lead?_none {b : UInt8} (h : b.toNat < 0xC2 ∨ 0xF4 < b.toNat) : lead? b = none := by
  simp only [lead?, UInt8.lt_iff_toNat_lt, ← UInt8.toNat_inj, UInt8.toNat_ofNat]
  split_ifs <;> first | rfl | omega

theorem bounds_ite_iff {p q : Prop} [Decidable p] [Decidable q] {x y z w c : UInt8} :
    ((if p then x else y) ≤ c ∧ c ≤ if q then z else w) ↔
      ((p → x.toNat ≤ c.toNat) ∧ (¬ p → y.toNat ≤ c.toNat)) ∧
        (q → c.toNat ≤ z.toNat) ∧ (¬ q → c.toNat ≤ w.toNat) := by
  by_cases hp : p <;> by_cases hq : q <;> simp [hp, hq, UInt8.le_iff_toNat_le]

/-! ### How characters are written -/

theorem toNat_ofNat_of_valid {v : Nat} (h : v.isValidChar) : (Char.ofNat v).val.toNat = v := by
  rw [Char.ofNat, dif_pos h]
  rfl

theorem encode_one {v : Nat} (h : v < 0x80) :
    String.utf8EncodeChar (Char.ofNat v) = [UInt8.ofNat v] := by
  have hv : (Char.ofNat v).val.toNat = v := toNat_ofNat_of_valid (.inl (by omega))
  rw [String.utf8EncodeChar]
  rw [hv, if_pos (by omega)]

theorem encode_two {v : Nat} (h : 0x80 ≤ v) (h' : v < 0x800) :
    String.utf8EncodeChar (Char.ofNat v) =
      [UInt8.ofNat (v / 64 + 0xC0), UInt8.ofNat (v % 64 + 0x80)] := by
  have hv : (Char.ofNat v).val.toNat = v := toNat_ofNat_of_valid (.inl (by omega))
  rw [String.utf8EncodeChar]
  rw [hv, if_neg (by omega), if_pos (by omega), Nat.mod_eq_of_lt (show v / 64 < 32 by omega)]

theorem encode_three {v : Nat} (h : 0x800 ≤ v) (h' : v < 0x10000) (hvalid : v.isValidChar) :
    String.utf8EncodeChar (Char.ofNat v) =
      [UInt8.ofNat (v / 4096 + 0xE0), UInt8.ofNat (v / 64 % 64 + 0x80),
        UInt8.ofNat (v % 64 + 0x80)] := by
  have hv := toNat_ofNat_of_valid hvalid
  rw [String.utf8EncodeChar]
  rw [hv, if_neg (by omega), if_neg (by omega), if_pos (by omega),
    Nat.mod_eq_of_lt (show v / 4096 < 16 by omega)]

theorem encode_four {v : Nat} (h : 0x10000 ≤ v) (h' : v < 0x110000) :
    String.utf8EncodeChar (Char.ofNat v) =
      [UInt8.ofNat (v / 262144 + 0xF0), UInt8.ofNat (v / 4096 % 64 + 0x80),
        UInt8.ofNat (v / 64 % 64 + 0x80), UInt8.ofNat (v % 64 + 0x80)] := by
  have hv : (Char.ofNat v).val.toNat = v := toNat_ofNat_of_valid (.inr ⟨by omega, h'⟩)
  rw [String.utf8EncodeChar]
  rw [hv, if_neg (by omega), if_neg (by omega), if_neg (by omega),
    Nat.mod_eq_of_lt (show v / 262144 < 8 by omega)]

/-! ### What a first byte announces -/

/-- Behind a first byte stand the bytes that it announces, and all of them make the number. -/
structure Announces (b : UInt8) (taken : List UInt8) (v : Nat) (l : Lead) : Prop where
  lead : lead? b = some l
  length : taken.length = l.more + 1
  continues : Continues l.least l.most taken
  joined_eq : joined l.high taken = v

theorem joined_two {b c : UInt8} (hb : 0xC2 ≤ b.toNat ∧ b.toNat < 0xE0)
    (hc : 128 ≤ c.toNat ∧ c.toNat ≤ 191) :
    String.utf8EncodeChar (Char.ofNat (joined (b.toNat % 32) [c])) = [b, c] := by
  simp only [joined, List.foldl_cons, List.foldl_nil]
  rw [encode_two (by omega) (by omega)]
  simp only [List.cons.injEq, ← UInt8.toNat_inj, UInt8.toNat_ofNat', and_true]
  omega

theorem joined_three {b c d : UInt8} (hb : 0xE0 ≤ b.toNat ∧ b.toNat < 0xF0)
    (hc : 128 ≤ c.toNat ∧ c.toNat ≤ 191) (hd : 128 ≤ d.toNat ∧ d.toNat ≤ 191)
    (hlong : b.toNat = 0xE0 → 0xA0 ≤ c.toNat) (hvalid : b.toNat = 0xED → c.toNat ≤ 0x9F) :
    String.utf8EncodeChar (Char.ofNat (joined (b.toNat % 16) [c, d])) = [b, c, d] := by
  simp only [joined, List.foldl_cons, List.foldl_nil]
  rw [encode_three (by omega) (by omega) (by unfold Nat.isValidChar; omega)]
  simp only [List.cons.injEq, ← UInt8.toNat_inj, UInt8.toNat_ofNat', and_true]
  omega

theorem joined_four {b c d e : UInt8} (hb : 0xF0 ≤ b.toNat ∧ b.toNat ≤ 0xF4)
    (hc : 128 ≤ c.toNat ∧ c.toNat ≤ 191) (hd : 128 ≤ d.toNat ∧ d.toNat ≤ 191)
    (he : 128 ≤ e.toNat ∧ e.toNat ≤ 191)
    (hlong : b.toNat = 0xF0 → 0x90 ≤ c.toNat) (hvalid : b.toNat = 0xF4 → c.toNat ≤ 0x8F) :
    String.utf8EncodeChar (Char.ofNat (joined (b.toNat % 8) [c, d, e])) = [b, c, d, e] := by
  simp only [joined, List.foldl_cons, List.foldl_nil]
  rw [encode_four (by omega) (by omega)]
  simp only [List.cons.injEq, ← UInt8.toNat_inj, UInt8.toNat_ofNat', and_true]
  omega

/-- A first byte and the bytes that it announces are what the character is written with. -/
theorem Announces.utf8EncodeChar_eq {b : UInt8} {taken : List UInt8} {v : Nat} {l : Lead}
    (h : Announces b taken v l) : String.utf8EncodeChar (Char.ofNat v) = b :: taken := by
  obtain ⟨hlead, hlength, hc, rfl⟩ := h
  rcases Nat.lt_or_ge b.toNat 0xC2 with hlow | hlow
  · rw [lead?_none (.inl hlow)] at hlead
    cases hlead
  rcases Nat.lt_or_ge b.toNat 0xE0 with htwo | htwo
  · rw [lead?_two ⟨hlow, htwo⟩] at hlead
    cases hlead
    obtain ⟨c, rfl⟩ := List.length_eq_one_iff.1 hlength
    exact joined_two ⟨hlow, htwo⟩ hc.1
  rcases Nat.lt_or_ge b.toNat 0xF0 with hthree | hthree
  · rw [lead?_three ⟨htwo, hthree⟩] at hlead
    cases hlead
    match taken, hlength with
    | [c, d], _ =>
      obtain ⟨⟨hlong, hleast⟩, hvalid, hmost⟩ := bounds_ite_iff.1 hc.1
      simp only [UInt8.toNat_ofNat] at hlong hleast hvalid hmost
      exact joined_three ⟨htwo, hthree⟩ (by omega) (hc.2 d (.head _)) hlong hvalid
  rcases Nat.lt_or_ge 0xF4 b.toNat with hfour | hfour
  · rw [lead?_none (.inr hfour)] at hlead
    cases hlead
  · rw [lead?_four ⟨hthree, hfour⟩] at hlead
    cases hlead
    match taken, hlength with
    | [c, d, e], _ =>
      obtain ⟨⟨hlong, hleast⟩, hvalid, hmost⟩ := bounds_ite_iff.1 hc.1
      simp only [UInt8.toNat_ofNat] at hlong hleast hvalid hmost
      exact joined_four ⟨hthree, hfour⟩ (by omega) (hc.2 d (.head _))
        (hc.2 e (.tail _ (.head _))) hlong hvalid

theorem announces_two {v : Nat} (h : 0x80 ≤ v) (h' : v < 0x800) :
    ∃ l, Announces (UInt8.ofNat (v / 64 + 0xC0)) [UInt8.ofNat (v % 64 + 0x80)] v l := by
  have hbyte (n : Nat) : (UInt8.ofNat n).toNat = n % 256 := UInt8.toNat_ofNat'
  refine ⟨_, lead?_two ?_, rfl, ⟨?_, nofun⟩, ?_⟩
  · rw [hbyte]
    omega
  · simp only [UInt8.le_iff_toNat_le, hbyte, UInt8.toNat_ofNat]
    omega
  · simp only [joined, List.foldl_cons, List.foldl_nil, hbyte]
    omega

theorem announces_three {v : Nat} (h : 0x800 ≤ v) (h' : v < 0x10000) (hvalid : v.isValidChar) :
    ∃ l, Announces (UInt8.ofNat (v / 4096 + 0xE0))
      [UInt8.ofNat (v / 64 % 64 + 0x80), UInt8.ofNat (v % 64 + 0x80)] v l := by
  have hbyte (n : Nat) : (UInt8.ofNat n).toNat = n % 256 := UInt8.toNat_ofNat'
  unfold Nat.isValidChar at hvalid
  refine ⟨_, lead?_three ?_, rfl, ⟨bounds_ite_iff.2 ?_, ?_⟩, ?_⟩
  · rw [hbyte]
    omega
  · simp only [hbyte, UInt8.toNat_ofNat]
    omega
  · simp only [List.forall_mem_singleton, UInt8.le_iff_toNat_le, hbyte, UInt8.toNat_ofNat]
    omega
  · simp only [joined, List.foldl_cons, List.foldl_nil, hbyte]
    omega

theorem announces_four {v : Nat} (h : 0x10000 ≤ v) (h' : v < 0x110000) :
    ∃ l, Announces (UInt8.ofNat (v / 262144 + 0xF0))
      [UInt8.ofNat (v / 4096 % 64 + 0x80), UInt8.ofNat (v / 64 % 64 + 0x80),
        UInt8.ofNat (v % 64 + 0x80)] v l := by
  have hbyte (n : Nat) : (UInt8.ofNat n).toNat = n % 256 := UInt8.toNat_ofNat'
  refine ⟨_, lead?_four ?_, rfl, ⟨bounds_ite_iff.2 ?_, ?_⟩, ?_⟩
  · rw [hbyte]
    omega
  · simp only [hbyte, UInt8.toNat_ofNat]
    omega
  · simp only [List.mem_cons, List.not_mem_nil, or_false, forall_eq_or_imp, forall_eq,
      UInt8.le_iff_toNat_le, hbyte, UInt8.toNat_ofNat]
    omega
  · simp only [joined, List.foldl_cons, List.foldl_nil, hbyte]
    omega

/-- A character beyond ASCII is written as a first byte and the bytes that it announces. -/
theorem exists_announces {c : Char} (h : 0x80 ≤ c.val.toNat) :
    ∃ b taken l, String.utf8EncodeChar c = b :: taken ∧ Announces b taken c.val.toNat l := by
  have hvalid : c.val.toNat.isValidChar := c.valid
  have hc : Char.ofNat c.val.toNat = c := Char.ofNat_toNat c
  generalize c.val.toNat = v at *
  subst hc
  rcases Nat.lt_or_ge v 0x800 with htwo | htwo
  · exact ⟨_, _, _, encode_two h htwo, (announces_two h htwo).choose_spec⟩
  rcases Nat.lt_or_ge v 0x10000 with hthree | hthree
  · exact ⟨_, _, _, encode_three htwo hthree hvalid, (announces_three htwo hthree hvalid).choose_spec⟩
  · have hbound : v < 0x110000 := by
      unfold Nat.isValidChar at hvalid
      omega
    exact ⟨_, _, _, encode_four hthree hbound, (announces_four hthree hbound).choose_spec⟩

/-- No first byte of several is an ASCII character. -/
theorem not_ascii_of_lead {b : UInt8} {l : Lead} (h : lead? b = some l) : ¬ b < 0x80 := by
  intro hb
  have hlow : b.toNat < 0x80 := hb
  rw [lead?_none (.inl (by omega))] at h
  cases h

theorem Lead.more_le {b : UInt8} {l : Lead} (h : lead? b = some l) : l.more ≤ 2 := by
  unfold lead? at h
  split_ifs at h <;> cases h <;> exact Nat.le_of_ble_eq_true rfl

/-! ### Whole runs of bytes -/

/-- The first piece of a run of bytes is what its character is written with, or it is replaced. -/
theorem decode_cons (b : UInt8) (bs : List UInt8) :
    ∃ c taken rest, b :: bs = taken ++ rest ∧ decode (b :: bs) = c :: decode rest ∧ taken ≠ [] ∧
      (taken = String.utf8EncodeChar c ∨ c = replacement ∧ taken.length ≤ 3) := by
  rw [decode]
  split
  · rename_i hb
    rw [UInt8.lt_iff_toNat_lt] at hb
    refine ⟨_, [b], bs, rfl, rfl, List.cons_ne_nil _ _, .inl ?_⟩
    rw [encode_one hb, UInt8.ofNat_toNat]
  · cases hl : lead? b with
    | none =>
      exact ⟨_, [b], bs, rfl, rfl, List.cons_ne_nil _ _, .inr ⟨rfl, Nat.le_add_left 1 2⟩⟩
    | some l =>
      obtain ⟨taken, hbs, h⟩ := follow_spec l.high l.least l.most l.more bs
      refine ⟨_, b :: taken, _, congrArg (b :: ·) hbs, rfl, List.cons_ne_nil _ _, ?_⟩
      rcases h with ⟨hchar, hlength⟩ | ⟨hlength, hcontinues, hchar⟩
      · have hmore := Lead.more_le hl
        exact .inr ⟨hchar, Nat.succ_le_succ (Nat.le_trans hlength hmore)⟩
      · have hannounces : Announces b taken (joined l.high taken) l :=
          ⟨hl, hlength, hcontinues, rfl⟩
        exact .inl (hchar ▸ hannounces.utf8EncodeChar_eq.symm)

/-- What a character is written with is decoded as that character. -/
theorem decode_utf8EncodeChar (c : Char) (bs : List UInt8) :
    decode (String.utf8EncodeChar c ++ bs) = c :: decode bs := by
  have hc : Char.ofNat c.val.toNat = c := Char.ofNat_toNat c
  rcases Nat.lt_or_ge c.val.toNat 0x80 with hone | hmore
  · have hbyte : (UInt8.ofNat c.val.toNat).toNat = c.val.toNat :=
      UInt8.toNat_ofNat_of_lt' (show _ < 256 by omega)
    have hascii : UInt8.ofNat c.val.toNat < 0x80 := UInt8.lt_iff_toNat_lt.2 (hbyte.symm ▸ hone)
    rw [← hc, encode_one hone, List.singleton_append, decode, hc, if_pos hascii, hbyte, hc]
  · obtain ⟨b, taken, l, hbytes, h⟩ := exists_announces hmore
    rw [hbytes, List.cons_append, decode, if_neg (not_ascii_of_lead h.lead), h.lead]
    dsimp only
    rw [follow_of_continues l.high h.length h.continues, h.joined_eq, hc]

/-- The bytes of a text are decoded as that text. -/
theorem text_toUTF8 (s : String) : text s.toUTF8.data.toList = s := by
  have hbytes : s.toUTF8.data.toList = s.toList.flatMap String.utf8EncodeChar := by
    rw [String.toUTF8_eq_toByteArray, ← String.utf8Encode_toList, List.utf8Encode,
      List.data_toByteArray]
  have hdecode (cs : List Char) : decode (cs.flatMap String.utf8EncodeChar) = cs := by
    induction cs with
    | nil => rw [List.flatMap_nil, decode]
    | cons c cs ih => rw [List.flatMap_cons, decode_utf8EncodeChar, ih]
  rw [text, hbytes, hdecode, String.ofList_toList]

theorem utf8ByteSize_ofList_cons (c : Char) (cs : List Char) :
    (String.ofList (c :: cs)).utf8ByteSize = c.utf8Size + (String.ofList cs).utf8ByteSize := by
  rw [String.ofList_cons, String.utf8ByteSize_append, String.utf8ByteSize_singleton]

/-- Decoding makes text no shorter. -/
theorem length_le_utf8ByteSize_text (bs : List UInt8) : bs.length ≤ (text bs).utf8ByteSize := by
  induction hlength : bs.length using Nat.strongRecOn generalizing bs with
  | ind n ih =>
    cases bs with
    | nil => exact hlength ▸ Nat.zero_le _
    | cons b bs =>
      obtain ⟨c, taken, rest, hbs, hdecode, hsome, hpiece⟩ := decode_cons b bs
      have htaken := List.length_pos_iff.2 hsome
      have hall := congrArg List.length hbs
      rw [List.length_append] at hall
      have hrest := ih rest.length (by omega) rest rfl
      have hwidth : taken.length ≤ c.utf8Size := by
        rcases hpiece with rfl | ⟨rfl, hshort⟩
        · exact Nat.le_of_eq (String.length_utf8EncodeChar c)
        · exact hshort
      rw [text, hdecode, utf8ByteSize_ofList_cons]
      rw [text] at hrest
      omega

end IsoMedia.Utf8
