/-!
# Files

What a computation can ask for from the files around it.  `Files m` is given for the file system of the
host, for a tree of files in memory (`FileTree`) and for a single directory (`Directory`), so that one
definition says what happens on each of them.
-/

namespace IsoMedia

/-- Why something could not be done with a file. -/
inductive FileFault where
  | notFound
  | alreadyThere
  | notDirectory
  | isDirectory
  | nameTooLong
  | zeroByte
  | other (reason : String)
deriving DecidableEq

def FileFault.message : FileFault → String
  | notFound => "No such file or directory (os error 2)"
  | alreadyThere => "File exists (os error 17)"
  | notDirectory => "Not a directory (os error 20)"
  | isDirectory => "Is a directory (os error 21)"
  | nameTooLong => "File name too long (os error 36)"
  | zeroByte => "file name contained an unexpected NUL byte"
  | other reason => reason

/-- The work on files that a computation in `m` can ask for.  Files are told by their paths. -/
class Files (m : Type → Type) where
  /-- The content of a file. -/
  read : String → ExceptT FileFault m ByteArray
  /-- Put a file with the given content where there is none, or in place of one. -/
  write : String → ByteArray → ExceptT FileFault m Unit
  /-- Put an empty file where there is none. -/
  touch : String → ExceptT FileFault m Unit
  /-- Take a file away. -/
  remove : String → ExceptT FileFault m Unit
  /-- Make a directory, and the directories on the way to it. -/
  makeDirectories : String → ExceptT FileFault m Unit
  /-- The names in a directory, in some order. -/
  names : String → ExceptT FileFault m (List String)
  /-- Whether there is anything at a path. -/
  isThere : String → m Bool

namespace Files

/-- The path of a name in a directory.  A name that starts with a slash is a path of its own. -/
def pathIn (directory name : String) : String :=
  if directory = "" ∨ name.toList.head? = some '/' then name
  else if directory.toList.getLast? = some '/' then directory ++ name
  else directory ++ "/" ++ name

end Files

end IsoMedia
