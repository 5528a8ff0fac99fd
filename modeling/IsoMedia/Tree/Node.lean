import IsoMedia.Box.Kind
import IsoMedia.Box.Media
import IsoMedia.Box.TrackHeader
import IsoMedia.Sample.Auxiliary

/-!
# The tree of boxes

A `Node` is a box that was understood, with what its payload says and the boxes inside it.  Tables
that belong to a track are kept there; the tree only counts their entries.
-/

namespace IsoMedia

/-- What the payload of a box says. -/
inductive NodeData where
  /-- The whole file, which is no box. -/
  | file
  | container
  | fileType (brands : FileType)
  | free
  /-- Media data, of which only the place is kept. -/
  | mediaData (offset length : Nat)
  | movieHeader (header : MovieHeader)
  /-- User data, which is not looked into. -/
  | userData
  | trackHeader (header : TrackHeader)
  | trackReference (trackIds : List UInt32)
  | trackGroup (full : VersionFlags) (groupId : UInt32)
  | editList (edits : EditList)
  | mediaHeader (header : MediaHeader)
  | handler (handler : Handler)
  | extendedLanguage (full : VersionFlags) (language : String)
  | infoHeader (header : InfoHeader)
  | dataReferences (full : VersionFlags) (entryCount : UInt32)
  | dataEntry (entry : DataEntry)
  | description (full : VersionFlags) (formats : List FourCc)
  /-- A table that the sample index is made from. -/
  | table (full : VersionFlags) (entryCount : Nat)
  | auxiliary (table : AuxiliaryTable)
deriving DecidableEq

/-- A box that was understood. -/
inductive Node where
  | mk (type : FourCc) (offset size : Nat) (data : NodeData) (children : List Node)

namespace Node

def type : Node → FourCc
  | mk type .. => type

/-- Where the box starts in the file. -/
def offset : Node → Nat
  | mk _ offset .. => offset

/-- The size of the whole box. -/
def size : Node → Nat
  | mk _ _ size .. => size

def data : Node → NodeData
  | mk _ _ _ data _ => data

/-- The boxes inside, in the order of the file. -/
def children : Node → List Node
  | mk _ _ _ _ children => children

/-- The type code given to the whole file. -/
def rootType : FourCc := .ofChars 'r' 'o' 'o' 't'

/-- A file of the given size with the boxes at its top level. -/
def root (size : Nat) (children : List Node) : Node := mk rootType 0 size .file children

/-- The first child of the given type. -/
def child? (n : Node) (type : FourCc) : Option Node := n.children.find? (·.type = type)

/-- The node that a path of types leads to, through the first child of each type. -/
def find? (n : Node) (path : List FourCc) : Option Node :=
  path.foldlM (fun node type => node.child? type) n

mutual

/-- The number of nodes below a node. -/
def descendantCount : Node → Nat
  | mk _ _ _ _ children => countAll children

/-- The number of nodes in a list and below them. -/
def countAll : List Node → Nat
  | [] => 0
  | n :: ns => 1 + n.descendantCount + countAll ns

end

end Node

end IsoMedia
