import IsoMedia.Registry

/-!
# What there is to report about a file

A `Report` gathers what is shown of an opened file.  `Report.Text` shows it to people and
`Report.Document` to programs.
-/

namespace IsoMedia

/-- A delivered sample, as far as it is shown. -/
structure SampleLine where
  mediaType : MediaType
  codec : Codec
  size : Nat
  presentationTime : Int
  decodeTime : Int
deriving DecidableEq

def SampleLine.ofDelivery (d : Delivery) : SampleLine :=
  ⟨d.mediaType, d.codec, d.data.size, d.presentationTime, d.decodeTime⟩

/-- How many samples were delivered, and how many bytes they have. -/
structure Totals where
  samples : Nat
  bytes : Nat
deriving DecidableEq

def Totals.ofDeliveries (ds : List Delivery) : Totals :=
  ⟨ds.length, ds.foldl (fun bytes d => bytes + d.data.size) 0⟩

/-- What is shown of an opened file.  The boxes, the samples and the totals are shown on demand. -/
structure Report where
  filename : String
  recognised : Match
  majorBrand : Option FourCc
  tracks : List Track
  warnings : List ParseWarning
  boxes : Option Node
  samples : Option (List SampleLine)
  totals : Option Totals

/-- The number of samples of a track that can be shown without another. -/
def Track.keyFrameCount (t : Track) : Nat := (t.samples.toList.filter (·.keyFrame)).length

end IsoMedia
