/-!
# Rounding and decimal places

Quantities in a report are quotients kept to the precision of a double and shown with a fixed number
of decimal places.  Both roundings go to the nearest value, and a tie goes to the even one; all
arithmetic is exact, on fractions of natural numbers.
-/

namespace IsoMedia

/-- The natural number nearest to `num / den`; a tie goes to the even one. -/
def roundDiv (num den : Nat) : Nat :=
  let q := num / den
  let twice := 2 * (num % den)
  if twice < den then q
  else if den < twice then q + 1
  else if q % 2 = 0 then q else q + 1

/-- A fraction of natural numbers. -/
structure Fraction where
  num : Nat
  den : Nat
deriving DecidableEq

namespace Fraction

/-- `num / den` times a power of two, whose exponent may be negative. -/
def scale (f : Fraction) (exponent : Int) : Fraction :=
  ⟨f.num <<< exponent.toNat, f.den <<< (-exponent).toNat⟩

/-- The power of two that brings a positive fraction between `2 ^ 52` and `2 ^ 53`. -/
def significandExponent (f : Fraction) : Int :=
  let guess : Int := 52 - ((f.num.log2 : Int) - (f.den.log2 : Int))
  let q := (f.scale guess).num / (f.scale guess).den
  if q < 1 <<< 52 then guess + 1 else if 1 <<< 53 ≤ q then guess - 1 else guess

/-- The nearest fraction with a significand of 53 bits. -/
def toDouble (f : Fraction) : Fraction :=
  if f.num = 0 then ⟨0, 1⟩
  else
    let exponent := f.significandExponent
    let scaled := f.scale exponent
    (Fraction.mk (roundDiv scaled.num scaled.den) 1).scale (-exponent)

/-- The quotient of two fractions. -/
def div (f g : Fraction) : Fraction := ⟨f.num * g.den, f.den * g.num⟩

/-- A fraction with the given number of decimal places. -/
def fixed (places : Nat) (f : Fraction) : String :=
  let unit := Nat.pow 10 places
  let n := roundDiv (f.num * unit) f.den
  let behind := toString (n % unit)
  let zeros := String.ofList (List.replicate (places - behind.length) '0')
  s!"{n / unit}.{zeros}{behind}"

end Fraction

/-- The quotient of two numbers, both of them and the quotient kept as doubles. -/
def doubleQuotient (num den : Nat) : Fraction :=
  ((Fraction.mk num 1).toDouble.div (Fraction.mk den 1).toDouble).toDouble

end IsoMedia
