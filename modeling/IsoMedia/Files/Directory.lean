import IsoMedia.Files

/-!
# A directory on its own

A `Directory` holds files under names.  The paths of its files are their names, and all that is asked for
with a file that is there succeeds.  `Directory.file?` is its view: what putting and erasing a file do to
it is said by `file?_put` and `file?_erase`.
-/

namespace IsoMedia

/-- The files of a directory. -/
structure Directory where
  /-- Names with the contents of their files; the first of two files of one name counts. -/
  files : List (String × ByteArray)

namespace Directory

/-- The content of the file of the given name, if there is one. -/
def file? (d : Directory) (name : String) : Option ByteArray := d.files.lookup name

/-- The names of all files. -/
def names (d : Directory) : List String := d.files.map Prod.fst

/-- The directory without the file of the given name. -/
def erase (d : Directory) (name : String) : Directory := ⟨d.files.filter (·.1 ≠ name)⟩

/-- The directory with a file put in place of what was there under its name. -/
def put (d : Directory) (name : String) (content : ByteArray) : Directory :=
  ⟨(d.erase name).files ++ [(name, content)]⟩

theorem lookup_filter_ne {name n : String} (files : List (String × ByteArray)) :
    (files.filter (·.1 ≠ name)).lookup n = if n = name then none else files.lookup n := by
  induction files with
  | nil => simp
  | cons f fs ih =>
    obtain ⟨m, content⟩ := f
    rw [List.filter_cons, List.lookup_cons]
    by_cases hm : m = name
    · rw [if_neg (by simp [hm]), ih]
      by_cases hn : n = name
      · simp [hn]
      · rw [beq_false_of_ne (hm ▸ hn)]
    · rw [if_pos (by simp [hm]), List.lookup_cons, ih]
      by_cases hn : n = m
      · simp [hn, hm]
      · rw [beq_false_of_ne hn]

/-- Only the file of the given name is gone. -/
theorem file?_erase (d : Directory) (name n : String) :
    (d.erase name).file? n = if n = name then none else d.file? n :=
  lookup_filter_ne d.files

/-- Only the file of the given name is changed. -/
theorem file?_put (d : Directory) (name n : String) (content : ByteArray) :
    (d.put name content).file? n = if n = name then some content else d.file? n := by
  have h := d.file?_erase name n
  simp only [file?] at h
  simp only [file?, put, List.lookup_append, h]
  by_cases hn : n = name
  · simp [hn]
  · have hb : (n == name) = false := by simpa using hn
    simp [hn, List.lookup_cons, hb]

/-- Work with the file of a name, which has to be there. -/
def withFile {α : Type} (name : String) (work : Directory → ByteArray → α × Directory) :
    ExceptT FileFault (StateM Directory) α :=
  ExceptT.mk fun d =>
    match d.file? name with
    | some content =>
      let (a, d) := work d content
      (.ok a, d)
    | none => (.error .notFound, d)

/-- Work that always succeeds. -/
def always {α : Type} (work : Directory → α × Directory) :
    ExceptT FileFault (StateM Directory) α :=
  ExceptT.lift work

instance : Files (StateM Directory) where
  read name := withFile name fun d content => (content, d)
  write name content := always fun d => ((), d.put name content)
  touch name := always fun d => ((), if (d.file? name).isSome then d else d.put name .empty)
  remove name := withFile name fun d _ => ((), d.erase name)
  makeDirectories _ := always fun d => ((), d)
  names _ := always fun d => (d.names, d)
  isThere name := fun d => ((d.file? name).isSome, d)

end Directory

end IsoMedia
