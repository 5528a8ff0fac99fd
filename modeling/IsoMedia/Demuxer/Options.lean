import IsoMedia.Json.Reader
import IsoMedia.Tree.Walk

/-!
# Options of the demuxer

What to do about unknown boxes, read from JSON by `DemuxOptions.ofJson` and written by
`DemuxOptions.json`.
-/

namespace IsoMedia

/-- The word for a policy. -/
def UnknownBoxPolicy.name : UnknownBoxPolicy → String
  | .skip => "skip"
  | .fail => "fail"

/-- How a file is opened. -/
structure DemuxOptions where
  unknownBoxes : UnknownBoxPolicy := .skip
deriving DecidableEq

namespace DemuxOptions

/-- The policies by name. -/
def policies : List (String × UnknownBoxPolicy) :=
  [UnknownBoxPolicy.skip, .fail].map fun p => (p.name, p)

def members : List (Json.Member DemuxOptions) :=
  [⟨"unknown_box_policy", fun o => do return { o with unknownBoxes := ← Json.oneOf policies }⟩]

/-- Read options; what is not given stays as it is by default. -/
def ofJson (text : String) : Except Json.Fault DemuxOptions := (Json.record members {}).run text

/-- The options on one line. -/
def json (o : DemuxOptions) : String :=
  s!"\x7b\"unknown_box_policy\":\"{o.unknownBoxes.name}\"\x7d"

end DemuxOptions

end IsoMedia
