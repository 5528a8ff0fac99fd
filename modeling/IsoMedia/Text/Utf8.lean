/-!
# Text from bytes that may be damaged

UTF-8 is decoded character by character.  Where a byte cannot continue the character begun, the
bytes read for it so far are replaced by one U+FFFD and decoding goes on with that byte.
-/

namespace IsoMedia.Utf8

/-- What stands for bytes that are no character. -/
def replacement : Char := Char.ofNat 0xFFFD

/-- What the first byte of a character of several bytes announces. -/
structure Lead where
  /-- The bits of the code point that the first byte holds. -/
  high : Nat
  /-- The least second byte allowed. -/
  least : UInt8
  /-- The greatest second byte allowed. -/
  most : UInt8
  /-- How many bytes follow the second. -/
  more : Nat

/-- The announcement of a first byte, if it is one.  The bounds on the second byte exclude
overlong forms, surrogates and numbers beyond the last code point. -/
def lead? (b : UInt8) : Option Lead :=
  if b < 0xC2 then none
  else if b < 0xE0 then some ⟨b.toNat % 32, 0x80, 0xBF, 0⟩
  else if b = 0xE0 then some ⟨b.toNat % 16, 0xA0, 0xBF, 1⟩
  else if b = 0xED then some ⟨b.toNat % 16, 0x80, 0x9F, 1⟩
  else if b < 0xF0 then some ⟨b.toNat % 16, 0x80, 0xBF, 1⟩
  else if b = 0xF0 then some ⟨b.toNat % 8, 0x90, 0xBF, 2⟩
  else if b < 0xF4 then some ⟨b.toNat % 8, 0x80, 0xBF, 2⟩
  else if b = 0xF4 then some ⟨b.toNat % 8, 0x80, 0x8F, 2⟩
  else none

/-- Read on from a character begun with the bits `high`: the character, or the replacement where
a byte does not fit, and the bytes not used. -/
def follow (high : Nat) (least most : UInt8) (more : Nat) : List UInt8 → Char × List UInt8
  | [] => (replacement, [])
  | b :: bs =>
    if least ≤ b ∧ b ≤ most then
      let v := high * 64 + b.toNat % 64
      match more with
      | 0 => (Char.ofNat v, bs)
      | k + 1 => follow v 0x80 0xBF k bs
    else (replacement, b :: bs)

theorem length_follow_le (high : Nat) (least most : UInt8) (more : Nat) (bs : List UInt8) :
    (follow high least most more bs).2.length ≤ bs.length := by
  induction bs generalizing high least most more with
  | nil => simp [follow]
  | cons b bs ih =>
    unfold follow
    split
    · cases more with
      | zero => simp
      | succ k => exact Nat.le_succ_of_le (ih _ _ _ _)
    · simp

/-- The characters of a run of bytes. -/
def decode : List UInt8 → List Char
  | [] => []
  | b :: bs =>
    if b < 0x80 then Char.ofNat b.toNat :: decode bs
    else match lead? b with
      | none => replacement :: decode bs
      | some l =>
        let r := follow l.high l.least l.most l.more bs
        r.1 :: decode r.2
termination_by bs => bs.length
decreasing_by
  · simp
  · simp
  · have := length_follow_le l.high l.least l.most l.more bs
    simp only [List.length_cons]
    omega

/-- The text of a run of bytes. -/
def text (bs : List UInt8) : String := String.ofList (decode bs)

/-- The bytes up to the first zero byte, or all of them. -/
def untilZero (bs : List UInt8) : List UInt8 := bs.takeWhile (· ≠ 0)

/-- The text up to the first zero byte, or to the end. -/
def textUntilZero (bs : List UInt8) : String := text (untilZero bs)

end IsoMedia.Utf8
