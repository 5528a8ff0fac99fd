/-!
# Container formats

The two formats share one box structure.  A file's name only suggests a format
(`Format.ofFilename?`); which of the two an opened file is, its major brand says.
-/

namespace IsoMedia

/-- A container format. -/
inductive Format where
  /-- MPEG-4 part 14 and its relatives. -/
  | mp4
  /-- QuickTime movie. -/
  | mov
deriving DecidableEq

namespace Format

/-- Every format, in the order in which an extension is looked up. -/
def all : List Format := [mp4, mov]

def name : Format → String
  | mp4 => "mp4"
  | mov => "mov"

/-- The usual file extensions, in lower case and without the dot. -/
def extensions : Format → List String
  | mp4 => ["mp4", "m4a", "m4v", "3gp", "3g2"]
  | mov => ["mov", "qt"]

/-- The format with the given file extension; letter case does not matter.  Only ASCII letters
are folded: no letter outside ASCII folds to a letter that occurs in an extension. -/
def ofExtension? (ext : String) : Option Format :=
  let folded := ext.map Char.toLower
  all.find? fun f => f.extensions.contains folded

/-- What follows the last dot of a list of characters, if there is a dot. -/
def afterLastDot? (cs : List Char) : Option (List Char) :=
  if '.' ∈ cs then some (cs.reverse.takeWhile (· ≠ '.')).reverse else none

/-- The format that a file name suggests by what follows its last dot. -/
def ofFilename? (filename : String) : Option Format :=
  (afterLastDot? filename.toList).bind fun ext => ofExtension? (String.ofList ext)

end Format

end IsoMedia
