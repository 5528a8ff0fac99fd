/-!
# Decimal digits

The number that decimal digits spell (`Digits.value`), and a number written with a least number of
digits (`Digits.padded`).
-/

namespace IsoMedia.Digits

/-- The digit that a character stands for, if it is one of `0` to `9`. -/
def valueOf (c : Char) : Nat := c.toNat - '0'.toNat

/-- The number that digits spell. -/
def value (ds : List Char) : Nat := ds.foldl (fun n c => n * 10 + valueOf c) 0

/-- A number with at least `width` digits. -/
def padded (width n : Nat) : String :=
  let digits := toString n
  String.ofList (List.replicate (width - digits.length) '0') ++ digits

end IsoMedia.Digits
