import IsoMedia.Files.Directory
import Mathlib.Data.List.Basic

/-!
# Directories at a path

A directory holds files under names, and elsewhere it has a path itself (`Directory.located`).  As no name
has a slash (`Directory.Plain`), what is done to the files at their paths is done to them under their
names.
-/

namespace IsoMedia

namespace Directory

/-- No name has a slash. -/
def Plain (d : Directory) : Prop := ∀ name ∈ d.names, '/' ∉ name.toList

/-- The directory as it is seen from elsewhere, where it has the given path. -/
def located (directory : String) (d : Directory) : Directory :=
  ⟨d.files.map fun f => (Files.pathIn directory f.1, f.2)⟩

theorem pathIn_inj {directory name name' : String} (h : '/' ∉ name.toList)
    (h' : '/' ∉ name'.toList) :
    Files.pathIn directory name = Files.pathIn directory name' ↔ name = name' := by
  have hhead : name.toList.head? ≠ some '/' := fun hhead => h (List.mem_of_head? hhead)
  have hhead' : name'.toList.head? ≠ some '/' := fun hhead => h' (List.mem_of_head? hhead)
  simp only [Files.pathIn, hhead, hhead', or_false]
  split
  · rfl
  · split <;> exact String.append_right_inj _

theorem mem_names_iff {d : Directory} {name : String} :
    name ∈ d.names ↔ ∃ content, d.file? name = some content := by
  obtain ⟨files⟩ := d
  show name ∈ files.map Prod.fst ↔ ∃ content, files.lookup name = some content
  induction files with
  | nil => simp
  | cons f files ih =>
    rw [List.map_cons, List.mem_cons, ih, List.lookup_cons]
    by_cases hname : name = f.1
    · simp [hname]
    · simp [hname, beq_false_of_ne hname]

theorem erase_of_file?_eq_none {d : Directory} {name : String} (h : d.file? name = none) :
    d.erase name = d := by
  obtain ⟨files⟩ := d
  refine congrArg Directory.mk (List.filter_eq_self.2 fun f hf => ?_)
  refine decide_eq_true fun hname => ?_
  obtain ⟨content, hcontent⟩ := mem_names_iff.1 (List.mem_map.2 ⟨f, hf, hname⟩ : name ∈ names ⟨files⟩)
  rw [h] at hcontent
  cases hcontent

/-! ### Work that succeeds -/

theorem run_bind {α β : Type} {x : ExceptT FileFault (StateM Directory) α}
    {f : α → ExceptT FileFault (StateM Directory) β} {d d' : Directory} {a : α}
    (hx : x.run.run d = (.ok a, d')) : (x >>= f).run.run d = (f a).run.run d' := by
  rw [ExceptT.run_bind, StateT.run_bind, hx]
  rfl

variable {d : Directory} {name : String} {content : ByteArray}

theorem withFile_of_eq_some {α : Type} (work : Directory → ByteArray → α × Directory)
    (h : d.file? name = some content) :
    (withFile name work).run.run d = (.ok (work d content).1, (work d content).2) := by
  simp only [withFile, ExceptT.run_mk, StateT.run, h]

theorem withFile_of_eq_none {α : Type} (work : Directory → ByteArray → α × Directory)
    (h : d.file? name = none) : (withFile name work).run.run d = (.error .notFound, d) := by
  simp only [withFile, ExceptT.run_mk, StateT.run, h]

theorem run_read (h : d.file? name = some content) :
    (Files.read name : ExceptT FileFault (StateM Directory) ByteArray).run.run d =
      (.ok content, d) :=
  withFile_of_eq_some (fun d content => (content, d)) h

theorem run_write (d : Directory) (name : String) (content : ByteArray) :
    (Files.write name content : ExceptT FileFault (StateM Directory) Unit).run.run d =
      (.ok (), d.put name content) := rfl

theorem run_remove (h : d.file? name = some content) :
    (Files.remove name : ExceptT FileFault (StateM Directory) Unit).run.run d =
      (.ok (), d.erase name) :=
  withFile_of_eq_some (fun d _ => ((), d.erase name)) h

/-- A file is gone after its removal was tried, also if it was not there. -/
theorem run_remove_snd (d : Directory) (name : String) :
    ((Files.remove name : ExceptT FileFault (StateM Directory) Unit).run.run d).2 =
      d.erase name := by
  cases h : d.file? name with
  | none =>
    rw [erase_of_file?_eq_none h]
    exact congrArg Prod.snd (withFile_of_eq_none (fun d _ => ((), d.erase name)) h)
  | some content => rw [run_remove h]

/-- The work on a directory that gives its names in an order of its own. -/
abbrev inOrder (order : List String) : Files (StateM Directory) :=
  { (inferInstance : Files (StateM Directory)) with names := fun _ => always fun d => (order, d) }

/-! ### Names in place of paths -/

variable {directory : String}

theorem Plain.erase (h : d.Plain) (name : String) : (d.erase name).Plain := by
  intro n hn
  obtain ⟨f, hf, rfl⟩ := List.mem_map.1 hn
  exact h _ (List.mem_map_of_mem (List.mem_of_mem_filter hf))

theorem Plain.put (h : d.Plain) (hname : '/' ∉ name.toList) (content : ByteArray) :
    (d.put name content).Plain := by
  intro n hn
  obtain ⟨f, hf, rfl⟩ := List.mem_map.1 hn
  rcases List.mem_append.1 hf with hf | hf
  · exact h.erase name _ (List.mem_map_of_mem hf)
  · rw [List.mem_singleton.1 hf]
    exact hname

theorem file?_located (h : d.Plain) (hname : '/' ∉ name.toList) :
    (d.located directory).file? (Files.pathIn directory name) = d.file? name := by
  obtain ⟨files⟩ := d
  show (files.map _).lookup _ = files.lookup name
  have hfiles : ∀ f ∈ files, '/' ∉ f.1.toList := fun f hf => h _ (List.mem_map_of_mem hf)
  clear h
  induction files with
  | nil => rfl
  | cons f files ih =>
    rw [List.forall_mem_cons] at hfiles
    rw [List.map_cons, List.lookup_cons, List.lookup_cons, ih hfiles.2]
    by_cases hsame : name = f.1
    · simp [hsame]
    · rw [beq_false_of_ne hsame, beq_false_of_ne (mt (pathIn_inj hname hfiles.1).1 hsame)]

theorem erase_located (h : d.Plain) (hname : '/' ∉ name.toList) :
    (d.located directory).erase (Files.pathIn directory name) = (d.erase name).located directory := by
  refine congrArg Directory.mk ?_
  rw [located, List.filter_map]
  refine congrArg _ (List.filter_congr fun f hf => ?_)
  have hplain := h f.1 (List.mem_map_of_mem hf)
  simp [pathIn_inj hplain hname]

theorem put_located (h : d.Plain) (hname : '/' ∉ name.toList) (content : ByteArray) :
    (d.located directory).put (Files.pathIn directory name) content =
      (d.put name content).located directory := by
  rw [put, erase_located h hname]
  simp [put, located]

end Directory

end IsoMedia
