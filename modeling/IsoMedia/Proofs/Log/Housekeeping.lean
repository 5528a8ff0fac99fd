import IsoMedia.Proofs.Files.Directory
import IsoMedia.Proofs.Log.Gzip
import IsoMedia.Proofs.Log.Names

/-!
# What is left in a log directory

A sweep visits the files of the directory that it changes, in an order that the directory chooses.  What
holds between two visits (`Housekeeping.Midway`) tells the names that were visited from those that were
not; each visit keeps it (`Housekeeping.Midway.visit`), and so what is left in the end does not depend on
the order (`Housekeeping.cleanUp_tidies`).
-/

namespace IsoMedia

/-- The name of the compressed file beside a file. -/
def LogName.packedName (name : String) : String := name ++ LogName.packedEnding

namespace Housekeeping

variable (h : Housekeeping)

/-- The name is that of a log that is too old. -/
def Outdated (name : String) : Prop :=
  ∃ log, LogName.ofText? h.stem name = some log ∧ log.date.dayNumber < h.cutoff

/-- The name is that of an uncompressed log of a day before today that is to be kept, and such logs are
compressed. -/
def Compressible (name : String) : Prop :=
  h.compressHistory = true ∧ ∃ date, LogName.ofText? h.stem name = some ⟨date, false⟩ ∧
    h.cutoff ≤ date.dayNumber ∧ date.dayNumber < h.today

variable {h} {name : String}

theorem choreFor_eq_remove_iff : h.choreFor name = .remove ↔ h.Outdated name := by
  unfold choreFor Outdated
  cases LogName.ofText? h.stem name with
  | none => simp
  | some log =>
    by_cases hold : log.date.dayNumber < h.cutoff
    · simp [hold]
    · dsimp only
      rw [if_neg hold]
      split <;> simp [hold]

theorem choreFor_eq_compress_iff : h.choreFor name = .compress ↔ h.Compressible name := by
  unfold choreFor Compressible
  cases LogName.ofText? h.stem name with
  | none => simp
  | some log =>
    obtain ⟨date, packed⟩ := log
    by_cases hold : date.dayNumber < h.cutoff
    · have hkept : ¬ h.cutoff ≤ date.dayNumber := Int.not_le.2 hold
      simp [hold, hkept]
    · have hkept : h.cutoff ≤ date.dayNumber := Int.not_lt.1 hold
      cases packed with
      | false => simp [hold, hkept]
      | true => simp [hold]

/-- A compressed file is not compressed again. -/
theorem choreFor_packedName_ne (name : String) :
    h.choreFor (LogName.packedName name) ≠ .compress := by
  intro hchore
  obtain ⟨-, date, hname, -⟩ := choreFor_eq_compress_iff.1 hchore
  obtain ⟨ds, -, hparts⟩ := LogName.ofText?_eq_some_iff.1 hname
  rw [← List.append_assoc] at hparts
  generalize h.stem.toList ++ ['.'] ++ ds = front at hparts
  have hlast := congrArg List.getLast? hparts
  simp [LogName.packedName, LogName.packedEnding, LogName.ending] at hlast

/-- The compressed file of a log that is kept is kept. -/
theorem choreFor_packedName (hname : h.Compressible name) :
    h.choreFor (LogName.packedName name) = .keep := by
  obtain ⟨-, date, hlog, hcutoff, -⟩ := hname
  have hpacked := LogName.ofText?_append_packedEnding hlog
  unfold choreFor LogName.packedName
  rw [hpacked]
  dsimp only
  rw [if_neg (Int.not_lt.2 hcutoff)]
  simp

/-! ### One visit -/

variable {pack : ByteArray → ByteArray} {directory : String} {d : Directory} {content : ByteArray}

theorem pathIn_packedName (directory name : String) :
    Files.pathIn directory name ++ LogName.packedEnding =
      Files.pathIn directory (LogName.packedName name) := by
  have hhead : (LogName.packedName name).toList.head? = some '/' ↔
      name.toList.head? = some '/' := by
    rw [LogName.packedName, String.toList_append]
    cases name.toList with
    | nil => decide
    | cons c cs => rfl
  unfold Files.pathIn
  simp only [hhead]
  split
  · rfl
  · split <;> exact String.append_assoc

theorem plain_packedName (hname : '/' ∉ name.toList) : '/' ∉ (LogName.packedName name).toList := by
  rw [LogName.packedName, String.toList_append, List.mem_append, not_or]
  exact ⟨hname, by decide⟩

/-- Visit a file of a directory that has the given path. -/
def visitAt (h : Housekeeping) (pack : ByteArray → ByteArray) (directory name : String)
    (d : Directory) : Except FileFault Unit × Directory :=
  (h.visit pack directory name : ExceptT FileFault (StateM Directory) Unit).run.run
    (d.located directory)

theorem visitAt_of_keep (hchore : h.choreFor name = .keep) :
    h.visitAt pack directory name d = (.ok (), d.located directory) := by
  unfold visitAt visit
  rw [hchore]
  rfl

theorem visitAt_of_remove (hchore : h.choreFor name = .remove) (hd : d.Plain)
    (hname : '/' ∉ name.toList) :
    h.visitAt pack directory name d = (.ok (), (d.erase name).located directory) := by
  have hgone := Directory.run_remove_snd (d.located directory) (Files.pathIn directory name)
  rw [Directory.erase_located hd hname] at hgone
  rw [← hgone]
  unfold visitAt visit
  rw [hchore]
  rfl

/-- A log stays if there is a compressed file beside it. -/
theorem visitAt_of_packed (hchore : h.choreFor name = .compress) (hd : d.Plain)
    (hname : '/' ∉ name.toList) (hpacked : (d.file? (LogName.packedName name)).isSome = true) :
    h.visitAt pack directory name d = (.ok (), d.located directory) := by
  have hfile : (d.located directory).file? _ = d.file? _ :=
    Directory.file?_located hd (plain_packedName hname)
  rw [← hfile, ← pathIn_packedName] at hpacked
  unfold visitAt visit
  rw [hchore]
  show StateT.run (ExceptT.run (if ((d.located directory).file? _).isSome = true then _ else _)) _ = _
  rw [if_pos hpacked]
  rfl

theorem packedName_ne (name : String) : LogName.packedName name ≠ name := by
  intro hsame
  have hlength := congrArg String.length hsame
  simp [LogName.packedName, LogName.packedEnding] at hlength

theorem visitAt_of_due (hchore : h.choreFor name = .compress) (hd : d.Plain)
    (hname : '/' ∉ name.toList) (hthere : d.file? name = some content)
    (hpacked : d.file? (LogName.packedName name) = none) :
    h.visitAt pack directory name d =
      (.ok (), ((d.put (LogName.packedName name) (pack content)).erase name).located directory) := by
  have hpackedName := plain_packedName hname
  have hplain := hd.put hpackedName (pack content)
  have hread : (d.located directory).file? (Files.pathIn directory name) = some content := by
    rw [Directory.file?_located hd hname, hthere]
  have hfree : (d.located directory).file?
      (Files.pathIn directory name ++ LogName.packedEnding) = none := by
    rw [pathIn_packedName, Directory.file?_located hd hpackedName, hpacked]
  have hstill : ((d.put (LogName.packedName name) (pack content)).located directory).file?
      (Files.pathIn directory name) = some content := by
    rw [Directory.file?_located hplain hname, Directory.file?_put, if_neg (packedName_ne name).symm,
      hthere]
  unfold visitAt visit
  rw [hchore]
  show StateT.run (ExceptT.run (if ((d.located directory).file? _).isSome = true then _ else _)) _ = _
  rw [hfree, if_neg (by decide), compress, Directory.run_bind (Directory.run_read hread),
    Directory.run_bind (Directory.run_write _ _ _), pathIn_packedName,
    Directory.put_located hd hpackedName]
  refine (Directory.run_remove hstill).trans ?_
  rw [Directory.erase_located hplain hname]

/-! ### Between two visits -/

variable (h)

/-- A log that is to be compressed, with its content: there is no compressed file beside it. -/
structure Due (before : Directory) (name : String) (content : ByteArray) : Prop where
  compressible : h.Compressible name
  there : before.file? name = some content
  unpacked : before.file? (LogName.packedName name) = none

/-- No visit has to do with the name. -/
structure Untouched (before : Directory) (name : String) : Prop where
  kept : ¬ h.Outdated name
  log : ∀ content, ¬ h.Due before name content
  packed : ∀ log content, h.Due before log content → name ≠ LogName.packedName log

/-- What a directory is like once the files of some names were visited. -/
structure Midway (pack : ByteArray → ByteArray) (before : Directory) (done : List String)
    (now : Directory) : Prop where
  plain : now.Plain
  outdated : ∀ name, h.Outdated name →
    now.file? name = if name ∈ done then none else before.file? name
  waiting : ∀ name content, h.Due before name content → name ∉ done →
    now.file? name = some content ∧ now.file? (LogName.packedName name) = none
  compressed : ∀ name content, h.Due before name content → name ∈ done →
    now.file? name = none ∧ now.file? (LogName.packedName name) = some (pack content)
  others : ∀ name, h.Untouched before name → now.file? name = before.file? name

variable {h} {before now : Directory} {done : List String}

theorem Midway.start (hplain : before.Plain) : h.Midway pack before [] before where
  plain := hplain
  outdated _ _ := (if_neg List.not_mem_nil).symm
  waiting _ _ hdue _ := ⟨hdue.there, hdue.unpacked⟩
  compressed _ _ _ hdone := absurd hdone List.not_mem_nil
  others _ _ := rfl

theorem packedName_inj {name name' : String} :
    LogName.packedName name = LogName.packedName name' ↔ name = name' :=
  String.append_left_inj _

/-- Files are told apart by what is to be done with them. -/
theorem ne_of_choreFor {name' : String} (hne : h.choreFor name ≠ h.choreFor name') : name ≠ name' :=
  fun hsame => hne (congrArg h.choreFor hsame)

theorem Due.choreFor (hdue : h.Due before name content) : h.choreFor name = .compress :=
  choreFor_eq_compress_iff.2 hdue.compressible

theorem Due.choreFor_packedName (hdue : h.Due before name content) :
    h.choreFor (LogName.packedName name) = .keep :=
  Housekeeping.choreFor_packedName hdue.compressible

theorem Outdated.choreFor (hold : h.Outdated name) : h.choreFor name = .remove :=
  choreFor_eq_remove_iff.2 hold

theorem not_outdated_of_choreFor (hchore : h.choreFor name ≠ .remove) : ¬ h.Outdated name :=
  mt Outdated.choreFor hchore

theorem not_due_of_choreFor (hchore : h.choreFor name ≠ .compress) : ¬ h.Due before name content :=
  mt Due.choreFor hchore

/-- A visit without consequences. -/
theorem Midway.skip (hmid : h.Midway pack before done now) (hkept : ¬ h.Outdated name)
    (hdone : ∀ content, h.Due before name content → name ∈ done) :
    h.Midway pack before (done ++ [name]) now where
  plain := hmid.plain
  outdated n hold := by
    have hne : n ≠ name := fun hsame => hkept (hsame ▸ hold)
    simp only [List.mem_append, List.mem_singleton, hne, or_false, hmid.outdated n hold]
  waiting n content hdue hnot :=
    hmid.waiting n content hdue fun hmem => hnot (List.mem_append_left _ hmem)
  compressed n content hdue hmem := by
    rcases List.mem_append.1 hmem with hmem | hmem
    · exact hmid.compressed n content hdue hmem
    · obtain rfl := List.mem_singleton.1 hmem
      exact hmid.compressed n content hdue (hdone content hdue)
  others := hmid.others

theorem Midway.remove (hmid : h.Midway pack before done now) (hold : h.Outdated name) :
    h.Midway pack before (done ++ [name]) (now.erase name) := by
  have hfile (n : String) (hne : n ≠ name) : (now.erase name).file? n = now.file? n := by
    rw [Directory.file?_erase, if_neg hne]
  have hlog {n : String} {content : ByteArray} (hdue : h.Due before n content) : n ≠ name :=
    ne_of_choreFor (by rw [hdue.choreFor, hold.choreFor]; decide)
  have hpacked {n : String} {content : ByteArray} (hdue : h.Due before n content) :
      LogName.packedName n ≠ name :=
    ne_of_choreFor (by rw [hdue.choreFor_packedName, hold.choreFor]; decide)
  constructor
  case plain =>
    exact hmid.plain.erase name
  case outdated =>
    intro n hn
    rw [Directory.file?_erase]
    by_cases hsame : n = name
    · simp [hsame]
    · simp [hsame, hmid.outdated n hn]
  case waiting =>
    intro n content hdue hnot
    rw [hfile n (hlog hdue), hfile _ (hpacked hdue)]
    exact hmid.waiting n content hdue fun hmem => hnot (List.mem_append_left _ hmem)
  case compressed =>
    intro n content hdue hmem
    rw [hfile n (hlog hdue), hfile _ (hpacked hdue)]
    refine hmid.compressed n content hdue ((List.mem_append.1 hmem).resolve_right fun hmem => ?_)
    exact hlog hdue (List.mem_singleton.1 hmem)
  case others =>
    intro n hn
    rw [hfile n fun hsame => hn.kept (hsame ▸ hold)]
    exact hmid.others n hn

theorem Midway.compress (hmid : h.Midway pack before done now) (hdue : h.Due before name content)
    (hname : '/' ∉ name.toList) (hnot : name ∉ done) : h.Midway pack before (done ++ [name])
      ((now.put (LogName.packedName name) (pack content)).erase name) := by
  -- Two names change.  What is to be done with a file tells them from all names but those of logs that
  -- are due as well, and these have other compressed files.
  have hfile (n : String) (hne : n ≠ name) (hne' : n ≠ LogName.packedName name) :
      ((now.put (LogName.packedName name) (pack content)).erase name).file? n = now.file? n := by
    rw [Directory.file?_erase, if_neg hne, Directory.file?_put, if_neg hne']
  have hlog {n : String} {content' : ByteArray} (hdue' : h.Due before n content') :
      n ≠ LogName.packedName name :=
    ne_of_choreFor (by rw [hdue'.choreFor, hdue.choreFor_packedName]; decide)
  have hpacked {n : String} {content' : ByteArray} (hdue' : h.Due before n content') :
      LogName.packedName n ≠ name :=
    ne_of_choreFor (by rw [hdue'.choreFor_packedName, hdue.choreFor]; decide)
  constructor
  case plain =>
    exact (hmid.plain.put (plain_packedName hname) _).erase name
  case outdated =>
    intro n hold
    have hne : n ≠ name := ne_of_choreFor (by rw [hold.choreFor, hdue.choreFor]; decide)
    have hne' : n ≠ LogName.packedName name :=
      ne_of_choreFor (by rw [hold.choreFor, hdue.choreFor_packedName]; decide)
    rw [hfile n hne hne', hmid.outdated n hold]
    simp [hne]
  case waiting =>
    intro n content' hdue' hnot'
    rw [List.mem_append, not_or, List.mem_singleton] at hnot'
    rw [hfile n hnot'.2 (hlog hdue'), hfile _ (hpacked hdue') (mt packedName_inj.1 hnot'.2)]
    exact hmid.waiting n content' hdue' hnot'.1
  case compressed =>
    intro n content' hdue' hmem
    by_cases hsame : n = name
    · subst hsame
      obtain rfl : content = content' := Option.some.inj (hdue.there.symm.trans hdue'.there)
      rw [Directory.file?_erase, if_pos rfl, Directory.file?_erase, if_neg (packedName_ne n),
        Directory.file?_put, if_pos rfl]
      exact ⟨rfl, rfl⟩
    · rw [hfile n hsame (hlog hdue'), hfile _ (hpacked hdue') (mt packedName_inj.1 hsame)]
      refine hmid.compressed n content' hdue' ((List.mem_append.1 hmem).resolve_right fun hmem => ?_)
      exact hsame (List.mem_singleton.1 hmem)
  case others =>
    intro n hn
    have hne : n ≠ name := fun hsame => hn.log content (hsame ▸ hdue)
    rw [hfile n hne (hn.packed name content hdue)]
    exact hmid.others n hn

/-- Beside a log that may be compressed, a compressed file that was there is left alone. -/
theorem untouched_packedName (hname : h.Compressible name)
    (hpacked : before.file? (LogName.packedName name) ≠ none) :
    h.Untouched before (LogName.packedName name) where
  kept := not_outdated_of_choreFor (by rw [choreFor_packedName hname]; decide)
  log _ := not_due_of_choreFor (choreFor_packedName_ne name)
  packed log content hdue hsame := by
    rw [packedName_inj.1 hsame] at hpacked
    exact hpacked hdue.unpacked

/-- Each visit keeps what holds between two of them, and none fails. -/
theorem Midway.visit (hmid : h.Midway pack before done now) (hname : '/' ∉ name.toList)
    (hthere : h.Compressible name → name ∈ before.names) (directory : String) :
    ∃ next : Directory, h.visitAt pack directory name now = (.ok (), next.located directory) ∧
      h.Midway pack before (done ++ [name]) next := by
  cases hchore : h.choreFor name with
  | keep =>
    have hkept : ¬ h.Outdated name := not_outdated_of_choreFor (by rw [hchore]; decide)
    have hlog (content : ByteArray) : ¬ h.Due before name content :=
      not_due_of_choreFor (by rw [hchore]; decide)
    exact ⟨now, visitAt_of_keep hchore, hmid.skip hkept fun content hdue => absurd hdue (hlog content)⟩
  | remove =>
    exact ⟨_, visitAt_of_remove hchore hmid.plain hname,
      hmid.remove (choreFor_eq_remove_iff.1 hchore)⟩
  | compress =>
    have hcompressible := choreFor_eq_compress_iff.1 hchore
    have hkept : ¬ h.Outdated name := not_outdated_of_choreFor (by rw [hchore]; decide)
    obtain ⟨content, hcontent⟩ := Directory.mem_names_iff.1 (hthere hcompressible)
    by_cases hpacked : before.file? (LogName.packedName name) = none
    · have hdue : h.Due before name content := ⟨hcompressible, hcontent, hpacked⟩
      -- A name may be listed twice; at the second visit its compressed file is there.
      by_cases hdone : name ∈ done
      · have hnow := (hmid.compressed name content hdue hdone).2
        exact ⟨now, visitAt_of_packed hchore hmid.plain hname (by rw [hnow]; rfl),
          hmid.skip hkept fun _ _ => hdone⟩
      · obtain ⟨hnow, hfree⟩ := hmid.waiting name content hdue hdone
        exact ⟨_, visitAt_of_due hchore hmid.plain hname hnow hfree,
          hmid.compress hdue hname hdone⟩
    · -- The compressed file was there from the start, and no visit has touched it.
      have hnow := hmid.others _ (untouched_packedName hcompressible hpacked)
      refine ⟨now, visitAt_of_packed hchore hmid.plain hname ?_,
        hmid.skip hkept fun _ hdue => absurd hdue.unpacked hpacked⟩
      rw [hnow]
      exact Option.isSome_iff_ne_none.2 hpacked

/-! ### A sweep -/

/-- Go through the files of the given names in a directory that has the given path. -/
def sweepAt (h : Housekeeping) (pack : ByteArray → ByteArray) (directory : String)
    (order : List String) (d : Directory) : Except FileFault Unit × Directory :=
  (h.sweep pack directory order : ExceptT FileFault (StateM Directory) Unit).run.run
    (d.located directory)

theorem sweepAt_cons {next : Directory} {order : List String}
    (hvisit : h.visitAt pack directory name d = (.ok (), next.located directory)) :
    h.sweepAt pack directory (name :: order) d = h.sweepAt pack directory order next :=
  Directory.run_bind (f := fun _ => h.sweep pack directory order) hvisit

/-- Each file is listed, and what is listed is there or is the compressed file of a log. -/
structure Enumerates (before : Directory) (order : List String) : Prop where
  complete : ∀ name ∈ before.names, name ∈ order
  known : ∀ name ∈ order,
    name ∈ before.names ∨ ∃ log ∈ before.names, name = LogName.packedName log

variable {order : List String}

theorem Midway.sweep (hmid : h.Midway pack before done now)
    (hknown : ∀ name ∈ order, '/' ∉ name.toList ∧ (h.Compressible name → name ∈ before.names))
    (directory : String) :
    ∃ after : Directory, h.sweepAt pack directory order now = (.ok (), after.located directory) ∧
      h.Midway pack before (done ++ order) after := by
  induction order generalizing done now with
  | nil => exact ⟨now, rfl, by rwa [List.append_nil]⟩
  | cons name order ih =>
    rw [List.forall_mem_cons] at hknown
    obtain ⟨next, hvisit, hnext⟩ := hmid.visit hknown.1.1 hknown.1.2 directory
    obtain ⟨after, hsweep, hafter⟩ := ih hnext hknown.2
    rw [List.append_assoc, List.singleton_append] at hafter
    exact ⟨after, (sweepAt_cons hvisit).trans hsweep, hafter⟩

theorem Enumerates.plain (henum : Enumerates before order) (hplain : before.Plain)
    (hmem : name ∈ order) : '/' ∉ name.toList := by
  rcases henum.known name hmem with hname | ⟨log, hlog, rfl⟩
  · exact hplain name hname
  · exact plain_packedName (hplain log hlog)

theorem Enumerates.mem_names (henum : Enumerates before order) (hmem : name ∈ order)
    (hname : h.Compressible name) : name ∈ before.names := by
  refine (henum.known name hmem).resolve_right ?_
  rintro ⟨log, -, rfl⟩
  exact choreFor_packedName_ne log (choreFor_eq_compress_iff.2 hname)

variable (h)

/-- What is left of a directory: no log that is too old, and for each log that was to be compressed a
file with its packed content.  All other files are what they were. -/
structure Tidied (pack : ByteArray → ByteArray) (before after : Directory) : Prop where
  outdated : ∀ name, h.Outdated name → after.file? name = none
  compressed : ∀ name content, h.Due before name content →
    after.file? name = none ∧ after.file? (LogName.packedName name) = some (pack content)
  others : ∀ name, h.Untouched before name → after.file? name = before.file? name

variable {h}

theorem Midway.tidied {after : Directory} (hmid : h.Midway pack before order after)
    (hcomplete : ∀ name ∈ before.names, name ∈ order) : h.Tidied pack before after where
  outdated name hold := by
    rw [hmid.outdated name hold]
    split
    · rfl
    · rename_i hnot
      refine Option.eq_none_iff_forall_ne_some.2 fun content hcontent => hnot ?_
      exact hcomplete name (Directory.mem_names_iff.2 ⟨content, hcontent⟩)
  compressed name content hdue := by
    have hmem := hcomplete name (Directory.mem_names_iff.2 ⟨content, hdue.there⟩)
    exact hmid.compressed name content hdue hmem
  others := hmid.others

/-! ### Another sweep -/

variable (h)

/-- Nothing is left to be done. -/
structure Settled (d : Directory) : Prop where
  outdated : ∀ name, h.Outdated name → d.file? name = none
  compressed : ∀ name, h.Compressible name → name ∈ d.names →
    (d.file? (LogName.packedName name)).isSome = true

variable {h}

theorem Tidied.settled {after : Directory} (htidied : h.Tidied pack before after) :
    h.Settled after where
  outdated := htidied.outdated
  compressed name hname hmem := by
    obtain ⟨content, hcontent⟩ := Directory.mem_names_iff.1 hmem
    have hchore := choreFor_eq_compress_iff.2 hname
    have huntouched : h.Untouched before name := by
      constructor
      case kept => exact not_outdated_of_choreFor (by rw [hchore]; decide)
      case log =>
        -- A log that was to be compressed would be gone.
        intro content' hdue
        rw [(htidied.compressed name content' hdue).1] at hcontent
        cases hcontent
      case packed =>
        rintro log content' - rfl
        exact choreFor_packedName_ne log hchore
    have hbefore : before.file? name = some content := by
      rw [← htidied.others name huntouched, hcontent]
    have hpacked : before.file? (LogName.packedName name) ≠ none := fun hnone =>
      huntouched.log content ⟨hname, hbefore, hnone⟩
    rw [htidied.others _ (untouched_packedName hname hpacked)]
    exact Option.isSome_iff_ne_none.2 hpacked

theorem Settled.visit (hsettled : h.Settled d) (hplain : d.Plain) (hname : '/' ∉ name.toList)
    (hthere : h.Compressible name → name ∈ d.names) (directory : String) :
    h.visitAt pack directory name d = (.ok (), d.located directory) := by
  cases hchore : h.choreFor name with
  | keep => exact visitAt_of_keep hchore
  | remove =>
    have hgone := hsettled.outdated name (choreFor_eq_remove_iff.1 hchore)
    rw [visitAt_of_remove hchore hplain hname, Directory.erase_of_file?_eq_none hgone]
  | compress =>
    have hcompressible := choreFor_eq_compress_iff.1 hchore
    exact visitAt_of_packed hchore hplain hname
      (hsettled.compressed name hcompressible (hthere hcompressible))

/-- Where nothing is left to be done a sweep leaves all as it is. -/
theorem Settled.sweep (hsettled : h.Settled d) (hplain : d.Plain)
    (hknown : ∀ name ∈ order, '/' ∉ name.toList ∧ (h.Compressible name → name ∈ d.names))
    (directory : String) : h.sweepAt pack directory order d = (.ok (), d.located directory) := by
  induction order with
  | nil => rfl
  | cons name order ih =>
    rw [List.forall_mem_cons] at hknown
    rw [sweepAt_cons (hsettled.visit hplain hknown.1.1 hknown.1.2 directory), ih hknown.2]

/-! ### Cleaning up -/

/-- Clean up a directory that has the given path and gives its names in the given order. -/
def cleanUpAt (h : Housekeeping) (pack : ByteArray → ByteArray) (directory : String)
    (order : List String) (d : Directory) : Except FileFault Unit × Directory :=
  (@cleanUp (StateM Directory) _ (Directory.inOrder order) pack h directory).run.run
    (d.located directory)

theorem cleanUpAt_eq_sweepAt (h : Housekeeping) (pack : ByteArray → ByteArray) (directory : String)
    (order : List String) (d : Directory) :
    h.cleanUpAt pack directory order d = h.sweepAt pack directory order d := rfl

theorem exists_tidied (h : Housekeeping) (pack : ByteArray → ByteArray) (hplain : before.Plain)
    (henum : Enumerates before order) (directory : String) : ∃ after : Directory, after.Plain ∧ h.Tidied pack before after ∧
      h.cleanUpAt pack directory order before = (.ok (), after.located directory) := by
  obtain ⟨after, hsweep, hmid⟩ := (Midway.start (h := h) hplain).sweep
    (fun name hmem => ⟨henum.plain hplain hmem, henum.mem_names hmem⟩) directory
  exact ⟨after, hmid.plain, hmid.tidied henum.complete,
    (cleanUpAt_eq_sweepAt h pack directory order before).trans hsweep⟩

theorem Tidied.cleanUpAt {after : Directory} (htidied : h.Tidied pack before after)
    (hplain : after.Plain) (henum : Enumerates after order) (directory : String) :
    h.cleanUpAt pack directory order after = (.ok (), after.located directory) :=
  htidied.settled.sweep hplain
    (fun _ hmem => ⟨henum.plain hplain hmem, henum.mem_names hmem⟩) directory

theorem untouched_of_today (hcutoff : h.cutoff ≤ h.today)
    (hday : ∀ log, LogName.ofText? h.stem name = some log → log.date.dayNumber = h.today) :
    h.Untouched before name where
  kept := by
    rintro ⟨log, hlog, hold⟩
    have hsame := hday log hlog
    omega
  log := by
    rintro content ⟨⟨-, date, hlog, -, hpast⟩, -, -⟩
    have hsame := hday _ hlog
    dsimp only at hsame
    omega
  packed := by
    rintro log content ⟨⟨-, date, hlog, -, hpast⟩, -, -⟩ rfl
    have hsame := hday _ (LogName.ofText?_append_packedEnding hlog)
    dsimp only at hsame
    omega

/-- What packing makes of a content can be unpacked. -/
def Lossless (pack : ByteArray → ByteArray) (unpack? : ByteArray → Option ByteArray) : Prop :=
  ∀ content, unpack? (pack content) = some content

/-- **A directory is left tidy in whatever order it gives its names, and cleaning it up again changes
nothing.**  Logs are packed by any function that loses nothing, and what it makes of those that were to be
compressed unpacks to their contents.  The order may name the compressed files that come to be, or not.
The logs of today stay what they are. -/
theorem cleanUp_tidies {pack : ByteArray → ByteArray} {unpack? : ByteArray → Option ByteArray}
    {s : LogSettings} {today : Date} (hlossless : Lossless pack unpack?)
    (hdays : 0 ≤ s.retentionDays)
    (hcutoff : (today.dayBefore? s.retentionDays).isSome = true) :
    ∃ h : Housekeeping, ofSettings? s today = some h ∧
      h = ⟨s.stem, s.compressHistory, today.dayNumber, today.dayNumber - s.retentionDays⟩ ∧
      ∀ (directory : String) (before : Directory) (order : List String),
        before.Plain → Enumerates before order → ∃ after : Directory,
          h.cleanUpAt pack directory order before = (.ok (), after.located directory) ∧
          h.Tidied pack before after ∧
          (∀ name content, h.Due before name content → ∃ file,
            after.file? (LogName.packedName name) = some file ∧ unpack? file = some content) ∧
          (∀ name log, LogName.ofText? s.stem name = some log → log.date = today →
            after.file? name = before.file? name) ∧
          after.file? (LogName.text s.stem ⟨today, false⟩) =
            before.file? (LogName.text s.stem ⟨today, false⟩) ∧
          ∀ again, Enumerates after again →
            h.cleanUpAt pack directory again after = (.ok (), after.located directory) := by
  refine ⟨⟨s.stem, s.compressHistory, today.dayNumber, today.dayNumber - s.retentionDays⟩, ?_, rfl,
    fun directory before order hplain henum => ?_⟩
  · unfold ofSettings?
    unfold Date.dayBefore? at hcutoff ⊢
    dsimp only at hcutoff ⊢
    split at hcutoff
    · rw [if_pos ‹_›]
      rfl
    · cases hcutoff
  · have htoday : today.dayNumber - s.retentionDays ≤ today.dayNumber := by omega
    obtain ⟨after, hplain', htidied, hrun⟩ := exists_tidied _ pack hplain henum directory
    refine ⟨after, hrun, htidied,
      fun name content hdue => ⟨_, (htidied.compressed name content hdue).2, hlossless content⟩,
      fun name log hlog hsame => ?_, ?_, fun again hagain => htidied.cleanUpAt hplain' hagain directory⟩
    · refine htidied.others name (untouched_of_today htoday fun log' hlog' => ?_)
      obtain rfl : log = log' := Option.some.inj (hlog.symm.trans hlog')
      rw [hsame]
    · refine htidied.others _ (untouched_of_today htoday fun log hlog => ?_)
      rw [LogName.eq_of_ofText?_text hlog]

/-! On a day in February, a directory with a log that is too old, logs of two past days, one of which
was compressed before, the log of today, and a file that is no log. -/

def someDay : Date := ⟨2026, 2, 6, by decide, by decide⟩

def someLine : ByteArray := ⟨#[0x6C, 0x69, 0x6E, 0x65, 0x0A]⟩

def someLogs : Directory :=
  ⟨[("avkit.2026-02-06.log", someLine), ("avkit.2026-02-05.log", someLine),
    ("avkit.2026-02-04.log", someLine), ("avkit.2026-02-04.log.gz", .empty),
    ("avkit.2025-12-28.log", someLine), ("notes.txt", .empty)]⟩

/-- The order names the compressed file that comes to be. -/
def someOrder : List String :=
  ["notes.txt", "avkit.2025-12-28.log", "avkit.2026-02-05.log", "avkit.2026-02-05.log.gz",
    "avkit.2026-02-04.log.gz", "avkit.2026-02-04.log", "avkit.2026-02-06.log"]

/-- The line in the gzip format. -/
def packedLine : ByteArray :=
  ⟨#[0x1F, 0x8B, 0x08, 0x00, 0x00, 0x00, 0x00, 0x00, 0x00, 0xFF, 0xCB, 0xC9, 0xCC, 0x4B, 0xE5, 0x02,
    0x00, 0x0E, 0x45, 0xD8, 0x66, 0x05, 0x00, 0x00, 0x00]⟩

theorem someLogs_tidied :
    ∃ h : Housekeeping, ofSettings? {} someDay = some h ∧ ∃ after : Directory,
      h.cleanUpAt Gzip.pack "logs" someOrder someLogs = (.ok (), after.located "logs") ∧
      after.file? "avkit.2025-12-28.log" = none ∧
      after.file? "avkit.2026-02-05.log" = none ∧
      after.file? "avkit.2026-02-05.log.gz" = some packedLine ∧
      Gzip.unpack? packedLine = some someLine ∧
      after.file? "avkit.2026-02-06.log" = some someLine := by
  obtain ⟨h, hsettings, rfl, hall⟩ :=
    @cleanUp_tidies Gzip.pack Gzip.unpack? {} someDay Gzip.unpack?_pack (by decide) (by decide)
  refine ⟨_, hsettings, ?_⟩
  have hplain : someLogs.Plain := by
    unfold Directory.Plain
    decide
  have henum : Enumerates someLogs someOrder := by
    constructor
    · decide
    · decide
  obtain ⟨after, hrun, htidied, hunpacks, -, htoday, -⟩ :=
    hall "logs" someLogs someOrder hplain henum
  have hold := htidied.outdated "avkit.2025-12-28.log"
    ⟨⟨⟨2025, 12, 28, by decide, by decide⟩, false⟩, by decide +kernel, by decide⟩
  have hdue : Due ⟨"avkit", true, someDay.dayNumber, someDay.dayNumber - 30⟩ someLogs
      "avkit.2026-02-05.log" someLine :=
    ⟨⟨rfl, ⟨2026, 2, 5, by decide, by decide⟩, by decide +kernel, by decide, by decide⟩, rfl, rfl⟩
  obtain ⟨hgone, hpacked⟩ := htidied.compressed _ _ hdue
  obtain ⟨file, hfile, hunpack⟩ := hunpacks _ _ hdue
  have hpackedLine : Gzip.pack someLine = packedLine := by decide +kernel
  rw [hpackedLine] at hpacked
  obtain rfl : file = packedLine := Option.some.inj (hfile.symm.trans hpacked)
  have hname : LogName.text "avkit" ⟨someDay, false⟩ = "avkit.2026-02-06.log" := by decide +kernel
  rw [show LogSettings.stem {} = "avkit" from rfl, hname] at htoday
  exact ⟨after, hrun, hold, hgone, hfile, hunpack, htoday⟩

end Housekeeping

end IsoMedia
