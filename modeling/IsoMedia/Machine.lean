import IsoMedia.Error

/-!
# Computing with words

A `Machine` computes with words of a given width.  A step that has no result halts it with a `Fault`,
whereas an `Error` is an answer.  What becomes of a sum that is no word is settled when a program is
built (`Overflow`); a sum that is a word is the same in every build.
-/

namespace IsoMedia

/-- Why a machine halts. -/
inductive Machine.Fault where
  /-- A sum or a shifted number is no word. -/
  | overflow
  /-- A difference is below zero. -/
  | underflow
  /-- A number is shifted by as many bits as it has, or by more. -/
  | shiftTooFar
  | divisionByZero
  /-- An index or an end of a slice lies beyond the run, or a slice ends before it starts. -/
  | outOfRange
  /-- A function is called when there is no room left for it on the stack. -/
  | stackExhausted
deriving DecidableEq

/-- A computation of a machine, which may halt.  Where it does not, it succeeds or fails with an
error. -/
abbrev Machine (α : Type) := ExceptT Error (Except Machine.Fault) α

namespace Machine

variable {α : Type}

/-- A computation that halts. -/
def halt (fault : Fault) : Machine α := ExceptT.mk (.error fault)

/-- A computation that does not halt and has the given result. -/
def of (r : Except Error α) : Machine α := ExceptT.mk (.ok r)

theorem of_eq_pure_iff {r : Except Error α} {x : α} : of r = pure x ↔ r = .ok x := by
  refine ⟨fun h => ?_, fun h => h ▸ rfl⟩
  injection h

/-- The sum of two words. -/
def add (width a b : Nat) : Machine Nat :=
  if a + b < 1 <<< width then return a + b else halt .overflow

end Machine

/-- What a build makes of a sum that is no word. -/
inductive Overflow where
  /-- The machine halts. -/
  | halts
  /-- The sum is cut down to a word. -/
  | wraps
deriving DecidableEq

/-- The sum of two words. -/
def Overflow.add : (o : Overflow) → (width a b : Nat) → Machine Nat
  | halts, width, a, b => Machine.add width a b
  | wraps, width, a, b => return (a + b) % (1 <<< width)

end IsoMedia
