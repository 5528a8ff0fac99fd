import IsoMedia.Main
import IsoMedia.Files.Tree
import IsoMedia.Proofs.Demuxer.Faults
import IsoMedia.Proofs.Movie.RoundTrip
import IsoMedia.Proofs.Tree.Course
import IsoMedia.Proofs.Tree.Tracks
import IsoMedia.Proofs.Tree.Drops
import IsoMedia.Proofs.Tree.Policies
import IsoMedia.Proofs.Box.Places
import IsoMedia.Proofs.Tree.Numbers
import IsoMedia.Proofs.Demuxer.Numbering
import IsoMedia.Proofs.Demuxer.Reopening
import IsoMedia.Proofs.Demuxer.Ledger
import IsoMedia.Proofs.Box.Framer
import IsoMedia.Proofs.Tree.Geometry
import IsoMedia.Proofs.Machine.Calls
import IsoMedia.Proofs.Input.Plain
import IsoMedia.Proofs.Tree.Accounts
import IsoMedia.Proofs.Tree.Isolation
import IsoMedia.Proofs.Export
import IsoMedia.Proofs.Input.Rewinding
import IsoMedia.Proofs.Input.Seeking
import IsoMedia.Proofs.Machine.Buffer
import IsoMedia.Proofs.Sample.Schedule
import IsoMedia.Proofs.Track.Gathering
import IsoMedia.Proofs.Track.Samples
import IsoMedia.Proofs.Tree.Shifting
import IsoMedia.Proofs.Tree.Insertion
import IsoMedia.Proofs.Track.Marks
import IsoMedia.Proofs.Export.Paths
import IsoMedia.Proofs.Codec.Avc
import IsoMedia.Proofs.Codec.Hevc
import IsoMedia.Proofs.Codec.Adts
import IsoMedia.Proofs.Codec.Records
import IsoMedia.Proofs.Sample.Starts
import IsoMedia.Proofs.Registry
import IsoMedia.Proofs.Sample.Compact
import IsoMedia.Proofs.Sample.Auxiliary
import IsoMedia.Proofs.Sample.Effort
import IsoMedia.Proofs.Description.ElementaryStream
import IsoMedia.Proofs.Description.Media
import IsoMedia.Proofs.Box.References
import IsoMedia.Proofs.Demuxer.Seeks
import IsoMedia.Proofs.Box.Versions
import IsoMedia.Proofs.Log.Safety
import IsoMedia.Proofs.Machine.Bits
import IsoMedia.Proofs.Machine.Room
