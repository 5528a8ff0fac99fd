import IsoMedia.Files

/-!
# A tree of files

A `FileTree` holds files and directories in memory.  A path leads through directories from name to name
(`FileTree.locate`); a dot stays and two dots lead back.
-/

namespace IsoMedia

/-- What there is at a place. -/
inductive Entry where
  | file (content : ByteArray)
  | directory

/-- A place in a tree: the names on the way to it from the root. -/
abbrev Place := List String

/-- Files and directories in memory. -/
structure FileTree where
  /-- The place where paths start that do not start with a slash. -/
  here : Place
  /-- What there is at places other than the root, each place once. -/
  entries : List (Place × Entry)

namespace FileTree

/-- The greatest number of bytes in a name, and the least that is too large for a path. -/
def nameBound : Nat := 255
def pathBound : Nat := 4096

/-- What there is at a place.  The root is a directory. -/
def entry? (t : FileTree) : Place → Option Entry
  | [] => some .directory
  | p => t.entries.lookup p

/-- The tree without what is at a place. -/
def erase (t : FileTree) (p : Place) : FileTree :=
  { t with entries := t.entries.filter (·.1 ≠ p) }

/-- The tree with something put in place of what was there. -/
def put (t : FileTree) (p : Place) (e : Entry) : FileTree :=
  { t with entries := (t.erase p).entries ++ [(p, e)] }

/-- What there is in the directory at a place, by name. -/
def inside (t : FileTree) (p : Place) : List (String × Entry) :=
  t.entries.filterMap fun (q, e) =>
    match q.getLast? with
    | some name => if q.dropLast = p then some (name, e) else none
    | none => none

/-! ### Paths -/

/-- The names in a path. -/
def namesOf (path : String) : List String :=
  ((path.toList.splitOn '/').filter (· ≠ [])).map String.ofList

/-- Where a path starts. -/
def startOf (t : FileTree) (path : String) : Place :=
  if path.toList.head? = some '/' then [] else t.here

/-- Why a path cannot be followed at all, if it cannot. -/
def pathFault? (path : String) : Option FileFault :=
  if '\x00' ∈ path.toList then some .zeroByte
  else if pathBound ≤ path.utf8ByteSize then some .nameTooLong
  else none

/-- Follow a name from a place, which has to be a directory. -/
def follow (t : FileTree) (p : Place) (name : String) : Except FileFault Place :=
  match t.entry? p with
  | none => .error .notFound
  | some (.file _) => .error .notDirectory
  | some .directory =>
    if name = "." then .ok p
    else if name = ".." then .ok p.dropLast
    else if nameBound < name.utf8ByteSize then .error .nameTooLong
    else .ok (p ++ [name])

/-- The place that a path leads to; there need not be anything.  A slash at the end asks for a
directory. -/
def locate (t : FileTree) (path : String) : Except FileFault Place :=
  match pathFault? path with
  | some fault => .error fault
  | none =>
    if path = "" then .error .notFound
    else
      let final := if path.toList.getLast? = some '/' then ["."] else []
      (namesOf path ++ final).foldlM t.follow (t.startOf path)

/-- What a path leads to. -/
def find (t : FileTree) (path : String) : Except FileFault (Place × Entry) := do
  let p ← t.locate path
  match t.entry? p with
  | some e => .ok (p, e)
  | none => .error .notFound

/-! ### Work -/

def read (t : FileTree) (path : String) : Except FileFault ByteArray := do
  match ← t.find path with
  | (_, .file content) => .ok content
  | (_, .directory) => .error .isDirectory

/-- Put a file where a path leads to; its content follows from that of a file that is there. -/
def change (t : FileTree) (path : String) (content : Option ByteArray → ByteArray) :
    Except FileFault FileTree := do
  let p ← t.locate path
  match t.entry? p with
  | some .directory => .error .isDirectory
  | some (.file old) => .ok (t.put p (.file (content (some old))))
  | none => .ok (t.put p (.file (content none)))

def remove (t : FileTree) (path : String) : Except FileFault FileTree := do
  match ← t.find path with
  | (p, .file _) => .ok (t.erase p)
  | (_, .directory) => .error .isDirectory

/-- Make directories from a place on.  Those made before a failure stay. -/
def makeFrom (t : FileTree) (p : Place) : List String → Except FileFault Unit × FileTree
  | [] => (.ok (), t)
  | name :: names =>
    if name = "." then t.makeFrom p names
    else if name = ".." then t.makeFrom p.dropLast names
    else if nameBound < name.utf8ByteSize then (.error .nameTooLong, t)
    else
      let q := p ++ [name]
      match t.entry? q with
      | some .directory => t.makeFrom q names
      | some (.file _) => (.error (if names = [] then .alreadyThere else .notDirectory), t)
      | none => (t.put q .directory).makeFrom q names

/-- Make the directories on the way that a path leads. -/
def makeDirectories (t : FileTree) (path : String) : Except FileFault Unit × FileTree :=
  match pathFault? path with
  | some fault => (.error fault, t)
  | none => t.makeFrom (t.startOf path) (namesOf path)

/-- The names in the directory that a path leads to. -/
def names (t : FileTree) (path : String) : Except FileFault (List String) := do
  match ← t.find path with
  | (p, .directory) => .ok ((t.inside p).map Prod.fst)
  | (_, .file _) => .error .notDirectory

/-- Look at a tree. -/
def look {α : Type} (work : FileTree → Except FileFault α) :
    ExceptT FileFault (StateM FileTree) α :=
  ExceptT.mk fun t => (work t, t)

/-- Change a tree, which stays as it is if that fails. -/
def modify (work : FileTree → Except FileFault FileTree) :
    ExceptT FileFault (StateM FileTree) Unit :=
  ExceptT.mk fun t =>
    match work t with
    | .ok t => (.ok (), t)
    | .error fault => (.error fault, t)

instance : Files (StateM FileTree) where
  read path := look (·.read path)
  write path content := modify (·.change path fun _ => content)
  touch path := modify (·.change path (·.getD .empty))
  remove path := modify (·.remove path)
  makeDirectories path := ExceptT.mk fun t => t.makeDirectories path
  names path := look (·.names path)
  isThere path := fun t => ((t.find path).isOk, t)

end FileTree

end IsoMedia
