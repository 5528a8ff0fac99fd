/-!
# Cutting a text by bytes

A place in a text may be told by the number of UTF-8 bytes before it.  `Text.cut?` cuts a text at two
such places, which must not lie inside a character.
-/

namespace IsoMedia.Text

/-- How many bytes characters take. -/
def byteCount (cs : List Char) : Nat := cs.foldl (fun n c => n + c.utf8Size) 0

/-- A text cut in two behind its first bytes. -/
def splitBytes? : Nat → List Char → Option (List Char × List Char)
  | 0, cs => some ([], cs)
  | _ + 1, [] => none
  | n + 1, c :: cs =>
    if n + 1 < c.utf8Size then none
    else (splitBytes? (n + 1 - c.utf8Size) cs).map fun (front, back) => (c :: front, back)

/-- The part of a text between two places. -/
def cut? (first stop : Nat) (cs : List Char) : Option (List Char) := do
  let (_, behind) ← splitBytes? first cs
  return (← splitBytes? (stop - first) behind).1

/-- The part of a text behind a place. -/
def cutFrom? (first : Nat) (cs : List Char) : Option (List Char) :=
  (splitBytes? first cs).map Prod.snd

end IsoMedia.Text
