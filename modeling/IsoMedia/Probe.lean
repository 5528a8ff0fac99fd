import IsoMedia.FourCc
import IsoMedia.Format

/-!
# Recognising a format

These files have no mark of their own at a fixed place; only the type of the first box tells something
(`scoreFirstBox?`).  Where that fails, the file name may help (`scoreHead?`).
-/

namespace IsoMedia.Probe

/-- How sure a name alone makes. -/
def nameScore : Nat := 50

/-- How sure a box makes that often stands first. -/
def topLevelScore : Nat := 75

/-- How sure a file type box makes. -/
def fileTypeScore : Nat := 100

/-- The types that stand first in old files, which have no file type box. -/
def topLevelTypes : List FourCc :=
  [.ofChars 'm' 'o' 'o' 'v', .ofChars 'm' 'd' 'a' 't', .ofChars 'f' 'r' 'e' 'e',
   .ofChars 's' 'k' 'i' 'p', .ofChars 'w' 'i' 'd' 'e']

/-- The type of the first box, whatever its size. -/
def firstBoxType? : List UInt8 → Option FourCc
  | _ :: _ :: _ :: _ :: a :: b :: c :: d :: _ => some ⟨a, b, c, d⟩
  | _ => none

/-- How sure the first box makes. -/
def scoreFirstBox? (head : List UInt8) : Option Nat :=
  match firstBoxType? head with
  | none => none
  | some type =>
    if type = .ofChars 'f' 't' 'y' 'p' then some fileTypeScore
    else if type ∈ topLevelTypes then some topLevelScore
    else none

/-- How sure the head of a file makes, or else its name. -/
def scoreHead? (head : List UInt8) (filename : Option String) : Option Nat :=
  (scoreFirstBox? head).or ((filename.bind Format.ofFilename?).map fun _ => nameScore)

end IsoMedia.Probe
