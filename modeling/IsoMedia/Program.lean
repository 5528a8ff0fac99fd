import IsoMedia.Log.Setup
import IsoMedia.Session

/-!
# The program

`Program.run` is the whole program on whatever files there are: it reads the command line, sets up the log
and looks at a file.
-/

namespace IsoMedia

/-- How the program ends. -/
structure Ending where
  code : Nat
  /-- What was asked for. -/
  output : String := ""
  /-- What is told besides. -/
  sayings : List Saying := []
  /-- The file that the told notes go to as well. -/
  logFile : Option String := none

namespace Program

/-- Whether something is told under a filter.  A line is, in any case. -/
def passes (filter : LogFilter) : Saying → Bool
  | .note n => filter.passes n
  | .line _ => true

/-- The end that a run comes to, after what was told before it. -/
def endingOf (before : List Saying) : Except Stop String × List Saying → Ending
  | (.ok output, sayings) => { code := 0, output, sayings := before ++ sayings }
  | (.error stop, sayings) =>
    { code := stop.code, sayings := before ++ sayings ++ [.line stop.reason] }

section

variable {m : Type → Type} [Monad m] [Files m]

/-- Set up the log and look at a file. -/
def probe (o : Options) (s : Surroundings) : m Ending := do
  match ← Run.outcome (LogSetup.make o s) with
  | (.error stop, told) => return endingOf [] (.error stop, told)
  | (.ok setup, told) =>
    let (outcome, sayings) ← Run.outcome (Session.run o)
    return { endingOf told (outcome, sayings.filter (passes setup.filter)) with
      logFile := setup.file }

/-- Do what the arguments ask for. -/
def run (arguments : List String) (s : Surroundings) : m Ending :=
  match CommandLine.parse arguments with
  | .error fault => return { code := 2, sayings := [.line fault.message] }
  | .ok .help =>
    return { code := 0, output := String.join (CommandLine.helpLines.map (· ++ "\n")) }
  | .ok .version => return { code := 0, output := CommandLine.version ++ "\n" }
  | .ok (.probe o) => probe o s

end

end Program

end IsoMedia
