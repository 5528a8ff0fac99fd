import IsoMedia.Files
import IsoMedia.Journal

/-!
# Running

A `Run` works on files, tells its user what happens, and may stop the whole program.  What was told before
a stop stays told.
-/

namespace IsoMedia

/-- What is told, apart from the output that was asked for. -/
inductive Saying where
  /-- A note for the log. -/
  | note (n : Note)
  /-- A line for the user. -/
  | line (text : String)
deriving DecidableEq

/-- The end of the program before its time. -/
structure Stop where
  code : Nat
  reason : String
deriving DecidableEq

namespace Stop

/-- How a line about a fault starts. -/
def faultMark : String := "错误: "

/-- The end after a fault that is told. -/
def refused (reason : String) : Stop := ⟨1, faultMark ++ reason⟩

/-- The end after a fault that the program is not made for. -/
def crashed (reason : String) : Stop := ⟨101, reason⟩

end Stop

/-- A part of the program's run on the files of `m`. -/
abbrev Run (m : Type → Type) (α : Type) := ExceptT Stop (StateT (List Saying) m) α

namespace Run

variable {m : Type → Type} [Monad m] {α : Type}

/-- Tell more. -/
def say (sayings : List Saying) : Run m Unit := do
  ExceptT.lift (modify (· ++ sayings))

/-- Tell lines. -/
def sayLines (lines : List String) : Run m Unit := say (lines.map .line)

/-- Pass on the notes of a computation. -/
def noting (x : Noted α) : Run m α := do
  say (x.notes.map .note)
  return x.value

/-- Go on with a value, or stop. -/
def orStop {ε : Type} (stop : ε → Stop) : Except ε α → Run m α
  | .ok a => return a
  | .error e => throw (stop e)

/-- Work on files and hand over the outcome. -/
def attempt (work : ExceptT FileFault m α) : Run m (Except FileFault α) :=
  ExceptT.lift (StateT.lift work.run)

/-- Work on files, or stop. -/
def work (stop : FileFault → Stop) (x : ExceptT FileFault m α) : Run m α := do
  orStop stop (← attempt x)

/-- How a run ends from nothing told, and what it told. -/
def outcome (x : Run m α) : m (Except Stop α × List Saying) := StateT.run x.run []

end Run

end IsoMedia
