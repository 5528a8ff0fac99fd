import IsoMedia.Error

/-!
# Notes taken along the way

A computation may leave notes for the reader of the log besides its result.  `Noted α` pairs the
two; `Checked α` is a computation that may also fail, and whose notes survive its failure.
-/

namespace IsoMedia

/-- How important a note is, from the gravest to the most detailed. -/
inductive Level where
  | error
  | warn
  | info
  | debug
  | trace
deriving DecidableEq

namespace Level

/-- The place of a level, counted from the gravest, which is 1. -/
def rank : Level → Nat
  | error => 1
  | warn => 2
  | info => 3
  | debug => 4
  | trace => 5

/-- The word in a log line. -/
def name : Level → String
  | error => "ERROR"
  | warn => "WARN"
  | info => "INFO"
  | debug => "DEBUG"
  | trace => "TRACE"

end Level

/-- The part of the program that speaks in a note. -/
inductive Speaker where
  | registry
  | demuxer
  | tree
  | description
  | track
  | avc
  | hevc
  | report
  | exporter
deriving DecidableEq

/-- The name under which a log filter knows the speaker. -/
def Speaker.target : Speaker → String
  | registry => "avkit_format::registry"
  | demuxer => "avkit_format::demuxers::mp4"
  | tree => "avkit_format::demuxers::mp4::tree"
  | description => "avkit_format::demuxers::mp4::stsd"
  | track => "avkit_format::demuxers::mp4::track"
  | avc => "avkit_codec::parsers::h264::nal"
  | hevc => "avkit_codec::parsers::h265::nal"
  | report => "avkit_probe"
  | exporter => "avkit_probe::extract"

/-- One line for the log. -/
structure Note where
  level : Level
  speaker : Speaker
  text : String
deriving DecidableEq

/-- A result together with the notes taken on the way to it, the earliest first. -/
structure Noted (α : Type) where
  notes : List Note
  value : α

namespace Noted

instance : Monad Noted where
  pure a := ⟨[], a⟩
  bind x f := let y := f x.value; ⟨x.notes ++ y.notes, y.value⟩

@[simp] theorem value_pure {α : Type} (a : α) : (pure a : Noted α).value = a := rfl

@[simp] theorem value_bind {α β : Type} (x : Noted α) (f : α → Noted β) :
    (x >>= f).value = (f x.value).value := rfl

/-- Take one note. -/
def say (level : Level) (speaker : Speaker) (text : String) : Noted Unit :=
  ⟨[⟨level, speaker, text⟩], ()⟩

end Noted

/-- A computation that takes notes and may fail; what was noted before a failure stays noted. -/
abbrev Checked (α : Type) := ExceptT Error Noted α

namespace Checked

/-- A result that is already known, and no note. -/
def ofExcept {α : Type} (r : Except Error α) : Checked α := (⟨[], r⟩ : Noted (Except Error α))

/-- Take one note. -/
def say (level : Level) (speaker : Speaker) (text : String) : Checked Unit :=
  ExceptT.lift (Noted.say level speaker text)

/-- The result of a computation, its notes left aside. -/
def result {α : Type} (x : Checked α) : Except Error α := Noted.value x.run

/-- The notes of a computation, taken whether or not it fails. -/
def notes {α : Type} (x : Checked α) : List Note := Noted.notes x.run

/-- Run to the end and hand over the outcome instead of failing. -/
def attempt {α : Type} (x : Checked α) : Noted (Except Error α) := x.run

end Checked

end IsoMedia
