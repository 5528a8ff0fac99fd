import IsoMedia.Calendar
import IsoMedia.Journal

/-!
# Lines of the log

How a note is written on the console, in colour, and into a log file.
-/

namespace IsoMedia

/-- A time of day. -/
structure Clock where
  hour : Nat
  minute : Nat
  second : Nat
  millisecond : Nat

namespace Clock

/-- Hours, minutes, seconds and thousandths. -/
def text (c : Clock) : String :=
  s!"{Digits.padded 2 c.hour}:{Digits.padded 2 c.minute}:{Digits.padded 2 c.second}.{Digits.padded 3 c.millisecond}"

end Clock

namespace Note

/-- The sequence that switches a terminal to the colour of a level. -/
def colour : Level → String
  | .error => "\x1b[31m"
  | .warn => "\x1b[33m"
  | .info => "\x1b[32m"
  | .debug | .trace => "\x1b[34m"

/-- The word for a level in a column of five characters. -/
def levelColumn (l : Level) : String :=
  l.name ++ String.ofList (List.replicate (5 - l.name.length) ' ')

/-- A note as it stands on the console. -/
def consoleLine (clock : Clock) (n : Note) : String :=
  s!"[{clock.text}] {colour n.level}{levelColumn n.level}\x1b[0m {n.speaker.target} > {n.text}"

/-- A note as it stands in a log file. -/
def fileLine (today : Date) (clock : Clock) (n : Note) : String :=
  s!"[{Digits.padded 2 today.month}-{Digits.padded 2 today.day} {clock.text}] {levelColumn n.level} {n.speaker.target} > {n.text}"

end Note

end IsoMedia
