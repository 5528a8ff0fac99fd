import IsoMedia.Log.Setup
import IsoMedia.Proofs.Log.Housekeeping
import IsoMedia.Proofs.Log.Spellings

/-!
# When cleaning up is safe

The first day whose logs are kept is computed from the settings without a check.  It may be no day at all,
and then the program crashes as soon as there is a directory to clean up; and it may lie behind today, and
then the log of today is removed like any old one (`LogSetup.cleanUp_safety`).  The first takes settings
that reach out of the calendar, the second a negative number of days.
-/

namespace IsoMedia

/-! ### Stops of a run -/

namespace Run

variable {σ α β : Type}

/-- Whatever the files are like, a stop is a refusal and no crash. -/
def Refuses (x : Run (StateM σ) α) : Prop :=
  ∀ told files stop, ((x.run.run told).run files).1.1 = .error stop → stop.code = 1

theorem refuses_pure (a : α) : Refuses (pure a : Run (StateM σ) α) := nofun

theorem Refuses.bind {x : Run (StateM σ) α} {f : α → Run (StateM σ) β} (hx : Refuses x)
    (hf : ∀ a, Refuses (f a)) : Refuses (x >>= f) := by
  intro told files stop hstop
  have hfirst := hx told files
  rw [ExceptT.run_bind, StateT.run_bind, StateT.run_bind] at hstop
  generalize (x.run.run told).run files = r at hfirst hstop
  obtain ⟨⟨outcome, told'⟩, files'⟩ := r
  cases outcome with
  | error stop' =>
    obtain rfl : stop' = stop := Except.error.inj hstop
    exact hfirst stop' rfl
  | ok a => exact hf a told' files' stop hstop

theorem refuses_attempt (x : ExceptT FileFault (StateM σ) α) : Refuses (attempt x) := nofun

theorem refuses_work {stop : FileFault → Stop} (hstop : ∀ fault, (stop fault).code = 1)
    (x : ExceptT FileFault (StateM σ) α) : Refuses (work stop x) := by
  refine (refuses_attempt x).bind fun outcome => ?_
  cases outcome with
  | ok a => exact refuses_pure a
  | error fault =>
    intro told files stop' hsame
    obtain rfl : stop fault = stop' := Except.error.inj hsame
    exact hstop fault

theorem run_work_of_ok {stop : FileFault → Stop} {x : ExceptT FileFault (StateM σ) α} {a : α}
    {files files' : σ} (hx : x.run.run files = (.ok a, files')) (told : List Saying) :
    ((work stop x).run.run told).run files = ((.ok a, told), files') := by
  have hattempt : ((attempt x : Run (StateM σ) _).run.run told).run files =
      ((.ok (.ok a), told), files') :=
    congrArg (fun r : Except FileFault α × σ => ((Except.ok r.1, told), r.2)) hx
  rw [work, ExceptT.run_bind, StateT.run_bind, StateT.run_bind, hattempt]
  rfl

theorem refuses_sayLines (lines : List String) :
    Refuses (sayLines lines : Run (StateM σ) Unit) := nofun

end Run

/-! ### The first day that is kept -/

namespace Date

/-- A number of days as a span of time, whose milliseconds are a signed word of 64 bits. -/
def span? (days : Int) : Option Int :=
  if (days * 86400000).natAbs < 2 ^ 63 then some days else none

/-- The number is that of a day in the calendar. -/
def IsDay (n : Int) : Prop := firstDay ≤ n ∧ n ≤ lastDay

variable {d : Date} {days : Int}

theorem dayBefore?_of_isDay (h : IsDay (d.dayNumber - days)) :
    d.dayBefore? days = some (d.dayNumber - days) := if_pos h

theorem dayBefore?_of_not_isDay (h : ¬ IsDay (d.dayNumber - days)) : d.dayBefore? days = none :=
  if_neg h

/-- A number of days that is no span of time leads out of the calendar. -/
theorem span?_bind_dayBefore? (hd : IsDay d.dayNumber) :
    (span? days).bind d.dayBefore? = d.dayBefore? days := by
  unfold span?
  split
  · rfl
  · rename_i hlong
    have hcalendar : firstDay = -95746129 ∧ lastDay = 95745399 := by decide
    refine (dayBefore?_of_not_isDay ?_).symm
    unfold IsDay at *
    omega

end Date

theorem Directory.located_empty (d : Directory) : d.located "" = d :=
  congrArg Directory.mk (List.map_id d.files)

namespace Housekeeping

variable {s : LogSettings} {today : Date}

theorem ofSettings?_eq_some_iff {h : Housekeeping} : ofSettings? s today = some h ↔
    Date.IsDay (today.dayNumber - s.retentionDays) ∧
      h = ⟨s.stem, s.compressHistory, today.dayNumber, today.dayNumber - s.retentionDays⟩ := by
  unfold ofSettings?
  by_cases hday : Date.IsDay (today.dayNumber - s.retentionDays)
  · rw [Date.dayBefore?_of_isDay hday, Option.map_some, Option.some_inj]
    exact ⟨fun h => ⟨hday, h.symm⟩, fun h => h.2.symm⟩
  · rw [Date.dayBefore?_of_not_isDay hday]
    exact iff_of_false nofun fun h => hday h.1

theorem ofSettings?_eq_none_iff : ofSettings? s today = none ↔
    ¬ Date.IsDay (today.dayNumber - s.retentionDays) := by
  rw [Option.eq_none_iff_forall_ne_some]
  exact ⟨fun h hday => h _ (ofSettings?_eq_some_iff.2 ⟨hday, rfl⟩),
    fun hday h hsettings => hday (ofSettings?_eq_some_iff.1 hsettings).1⟩

/-- A log of today is kept if the number of days is none below zero, and removed otherwise. -/
theorem choreFor_today {h : Housekeeping} (hsettings : ofSettings? s today = some h) {name : String}
    {log : LogName} (hlog : LogName.ofText? s.stem name = some log) (htoday : log.date = today) :
    h.choreFor name = if 0 ≤ s.retentionDays then .keep else .remove := by
  obtain ⟨-, rfl⟩ := ofSettings?_eq_some_iff.1 hsettings
  unfold choreFor
  rw [hlog]
  dsimp only
  rw [htoday]
  by_cases hdays : 0 ≤ s.retentionDays
  · have hnew : ¬ today.dayNumber < today.dayNumber - s.retentionDays := by omega
    rw [if_neg hnew, if_pos hdays, if_neg fun hpast => Int.lt_irrefl _ hpast.2.2]
  · have hold : today.dayNumber < today.dayNumber - s.retentionDays := by omega
    rw [if_pos hold, if_neg hdays]

/-- Cleaning up comes to an end, and after it the logs of today are what they were if the number of days
is none below zero, and gone otherwise. -/
theorem cleanUpAt_today {h : Housekeeping} (hsettings : ofSettings? s today = some h)
    {before : Directory} {order : List String} (hplain : before.Plain)
    (henum : Enumerates before order) (pack : ByteArray → ByteArray) (directory : String) :
    ∃ after : Directory,
      h.cleanUpAt pack directory order before = (.ok (), after.located directory) ∧
      ∀ name log, LogName.ofText? s.stem name = some log → log.date = today →
        after.file? name = if 0 ≤ s.retentionDays then before.file? name else none := by
  obtain ⟨after, -, htidied, hrun⟩ := exists_tidied h pack hplain henum directory
  refine ⟨after, hrun, fun name log hlog htoday => ?_⟩
  have hchore := choreFor_today hsettings hlog htoday
  obtain ⟨-, rfl⟩ := ofSettings?_eq_some_iff.1 hsettings
  split
  · refine htidied.others name (untouched_of_today ?_ fun log' hlog' => ?_)
    · dsimp only
      omega
    · obtain rfl : log = log' := Option.some.inj (hlog.symm.trans hlog')
      rw [htoday]
  · rw [if_neg ‹_›] at hchore
    exact htidied.outdated name (choreFor_eq_remove_iff.1 hchore)

/-- Whatever a directory holds and packing makes of a content, cleaning it up comes to an end and leaves
the logs of today alone. -/
def Safe (s : LogSettings) (today : Date) : Prop :=
  ∃ h : Housekeeping, ofSettings? s today = some h ∧
    ∀ (pack : ByteArray → ByteArray) (directory : String) (before : Directory) (order : List String),
      before.Plain → Enumerates before order → ∃ after : Directory,
        h.cleanUpAt pack directory order before = (.ok (), after.located directory) ∧
        ∀ name log, LogName.ofText? s.stem name = some log → log.date = today →
          after.file? name = before.file? name

theorem safe_of_le (hdays : 0 ≤ s.retentionDays)
    (hday : Date.IsDay (today.dayNumber - s.retentionDays)) : Safe s today := by
  have hsettings := ofSettings?_eq_some_iff.2 ⟨hday, rfl⟩
  refine ⟨_, hsettings, fun pack directory before order hplain henum => ?_⟩
  obtain ⟨after, hrun, htoday⟩ := cleanUpAt_today hsettings hplain henum pack directory
  exact ⟨after, hrun, fun name log hlog hsame => (htoday name log hlog hsame).trans (if_pos hdays)⟩

theorem Safe.le (hsafe : Safe s today) (hstem : '/' ∉ s.stem.toList) (htoday : today.IsShort) :
    0 ≤ s.retentionDays ∧ Date.IsDay (today.dayNumber - s.retentionDays) := by
  obtain ⟨h, hsettings, hall⟩ := hsafe
  refine ⟨?_, (ofSettings?_eq_some_iff.1 hsettings).1⟩
  by_contra hnegative
  -- The log of today stands alone in a directory.
  obtain ⟨name, hname⟩ : ∃ name, name = LogName.text s.stem ⟨today, false⟩ := ⟨_, rfl⟩
  have hlog : LogName.ofText? s.stem name = some ⟨today, false⟩ := hname ▸ LogName.ofText?_text htoday
  obtain ⟨before, hbefore⟩ : ∃ before : Directory, before = ⟨[(name, .empty)]⟩ := ⟨_, rfl⟩
  have hfile : before.file? name = some .empty := by
    rw [hbefore]
    exact List.lookup_cons_self
  have hplain : before.Plain := by
    rw [hbefore]
    intro n hn
    obtain rfl : n = name := List.mem_singleton.1 hn
    exact hname ▸ LogName.not_mem_text htoday hstem
  have henum : Enumerates before before.names := ⟨fun _ hn => hn, fun _ hn => .inl hn⟩
  obtain ⟨after, hrun, hkept⟩ := hall id "" before before.names hplain henum
  obtain ⟨after', hrun', hgone⟩ := cleanUpAt_today hsettings hplain henum id ""
  have hsame : after = after' := by
    rw [hrun, Directory.located_empty, Directory.located_empty] at hrun'
    exact (Prod.ext_iff.1 hrun').2
  have hafter := hkept name _ hlog rfl
  rw [hsame, hgone name _ hlog rfl, if_neg hnegative, hfile] at hafter
  cases hafter

end Housekeeping

/-! ### Setting up the log file -/

namespace LogSetup

open Run

theorem refuses_work_refused {σ α : Type} (reason : FileFault → String)
    (x : ExceptT FileFault (StateM σ) α) : Refuses (work (fun fault => refused (reason fault)) x) :=
  refuses_work (fun _ => rfl) x

variable {σ : Type} [Files (StateM σ)] {pack : ByteArray → ByteArray} {s : LogSettings}
  {today : Date} {directory : String}

/-- The log file is set up in the given state of the files. -/
def openFileAt (pack : ByteArray → ByteArray) (s : LogSettings) (directory : String) (today : Date)
    (files : σ) : (Except Stop String × List Saying) × σ :=
  (openFile pack s directory today : Run (StateM σ) String).outcome.run files

/-- Once the first day that is kept is computed, there is no crash: faults with files are told, or they are
refusals. -/
theorem refuses_openFile {h : Housekeeping} (hsettings : Housekeeping.ofSettings? s today = some h) :
    Refuses (openFile pack s directory today : Run (StateM σ) String) := by
  unfold openFile
  rw [hsettings]
  refine Refuses.bind (refuses_work_refused _ _) fun _ => ?_
  refine Refuses.bind (refuses_attempt _) fun outcome => ?_
  cases outcome with
  | ok _ => exact Refuses.bind (refuses_work_refused _ _) fun _ => refuses_pure _
  | error fault =>
    refine Refuses.bind (refuses_sayLines _) fun _ => ?_
    exact Refuses.bind (refuses_work_refused _ _) fun _ => refuses_pure _

/-- The crash comes when there is a directory, before anything else is done. -/
theorem openFileAt_of_none (hsettings : Housekeeping.ofSettings? s today = none) {files files' : σ}
    (hmade : StateT.run (ExceptT.run (m := StateM σ) (Files.makeDirectories directory)) files =
      (.ok (), files')) :
    openFileAt pack s directory today files =
      ((.error (.crashed "保留天数超出日期范围"), []), files') := by
  unfold openFileAt openFile outcome
  rw [hsettings, ExceptT.run_bind, StateT.run_bind, StateT.run_bind, run_work_of_ok hmade]
  rfl

/-- The first day whose logs are kept, if the settings lead to one. -/
def cutoff? (s : LogSettings) (today : Date) : Option Int :=
  (Date.span? s.retentionDays).bind today.dayBefore?

theorem cutoff?_eq_none_iff (htoday : Date.IsDay today.dayNumber) :
    cutoff? s today = none ↔ Housekeeping.ofSettings? s today = none := by
  rw [cutoff?, Date.span?_bind_dayBefore? htoday, Housekeeping.ofSettings?, Option.map_eq_none_iff]

/-- **When cleaning up is safe.**  Settings that lead out of the calendar crash the program once there is
a directory, on whatever files, and no others do.  With these cleaning up comes to an end, and the logs of
today stay what they are, unless the number of days is below zero: then all of them are removed. -/
theorem cleanUp_safety (s : LogSettings) {today : Date} (htoday : Date.IsDay today.dayNumber) :
    (cutoff? s today = none ↔ s.retentionDays < today.dayNumber - Date.lastDay ∨
      today.dayNumber - Date.firstDay < s.retentionDays) ∧
    (∀ {σ : Type} [Files (StateM σ)] (pack : ByteArray → ByteArray) (directory : String)
        (files files' : σ),
      (cutoff? s today = none →
        StateT.run (ExceptT.run (m := StateM σ) (Files.makeDirectories directory)) files =
          (.ok (), files') →
        openFileAt pack s directory today files =
          ((.error (.crashed "保留天数超出日期范围"), []), files')) ∧
      (cutoff? s today ≠ none →
        ∀ stop, (openFileAt pack s directory today files).1.1 = .error stop → stop.code = 1)) ∧
    (∀ h, Housekeeping.ofSettings? s today = some h →
      (∀ name log, LogName.ofText? s.stem name = some log → log.date = today →
        h.choreFor name = if 0 ≤ s.retentionDays then .keep else .remove) ∧
      ∀ (pack : ByteArray → ByteArray) (directory : String) (before : Directory) (order : List String),
        before.Plain → Housekeeping.Enumerates before order → ∃ after : Directory,
          h.cleanUpAt pack directory order before = (.ok (), after.located directory) ∧
          ∀ name log, LogName.ofText? s.stem name = some log → log.date = today →
            after.file? name = if 0 ≤ s.retentionDays then before.file? name else none) ∧
    ('/' ∉ s.stem.toList → today.IsShort →
      (Housekeeping.Safe s today ↔
        0 ≤ s.retentionDays ∧ s.retentionDays ≤ today.dayNumber - Date.firstDay)) := by
  have hnone := @cutoff?_eq_none_iff s today htoday
  refine ⟨?_, fun pack directory files files' => ⟨fun hcutoff => ?_, fun hcutoff => ?_⟩,
    fun h hsettings => ⟨fun name log => Housekeeping.choreFor_today hsettings,
      fun pack directory before order hplain henum =>
        Housekeeping.cleanUpAt_today hsettings hplain henum pack directory⟩, fun hstem hshort => ?_⟩
  · rw [hnone, Housekeeping.ofSettings?_eq_none_iff, Date.IsDay]
    omega
  · exact openFileAt_of_none (hnone.1 hcutoff)
  · obtain ⟨h, hsettings⟩ := Option.ne_none_iff_exists'.1 (mt hnone.2 hcutoff)
    exact refuses_openFile hsettings [] files
  · constructor
    · intro hsafe
      obtain ⟨hdays, hfirst, -⟩ := hsafe.le hstem hshort
      exact ⟨hdays, by omega⟩
    · rintro ⟨hdays, hfirst⟩
      have hlast := htoday.2
      exact Housekeeping.safe_of_le hdays ⟨by omega, by omega⟩

/-- As many days as a signed word of 64 bits can tell. -/
def endlessSettings : LogSettings := { directory := some "logs", retentionDays := 9223372036854775807 }

def negativeSettings : LogSettings := { directory := some "logs", retentionDays := -1 }

/-- Both settings are accepted.  The ones crash the program, and the others cost it the log of today. -/
theorem acceptedSettings_unsafe :
    (LogSettings.ofJson "\x7b\"directory\":\"logs\",\"retention_days\":9223372036854775807\x7d" =
        .ok endlessSettings ∧
      openFileAt Gzip.pack endlessSettings "logs" Housekeeping.someDay Housekeeping.someLogs =
        ((.error (.crashed "保留天数超出日期范围"), []), Housekeeping.someLogs)) ∧
    LogSettings.ofJson "\x7b\"directory\":\"logs\",\"retention_days\":-1\x7d" =
        .ok negativeSettings ∧
      ¬ Housekeeping.Safe negativeSettings Housekeeping.someDay ∧
      ∃ h, Housekeeping.ofSettings? negativeSettings Housekeeping.someDay = some h ∧
        ∃ after : Directory,
          h.cleanUpAt Gzip.pack "logs" Housekeeping.someOrder Housekeeping.someLogs =
            (.ok (), after.located "logs") ∧
          Housekeeping.someLogs.file? "avkit.2026-02-06.log" = some Housekeeping.someLine ∧
          after.file? "avkit.2026-02-06.log" = none := by
  have htoday : Date.IsDay Housekeeping.someDay.dayNumber := ⟨by decide, by decide⟩
  constructor
  · obtain ⟨hnone, hcrash, -, -⟩ := cleanUp_safety endlessSettings htoday
    refine ⟨by decide +kernel, (hcrash Gzip.pack "logs" _ _).1 (hnone.2 ?_) rfl⟩
    decide
  · obtain ⟨-, -, hgone, hsafe⟩ := cleanUp_safety negativeSettings htoday
    have hplain : Housekeeping.someLogs.Plain := by
      unfold Directory.Plain
      decide
    have henum : Housekeeping.Enumerates Housekeeping.someLogs Housekeeping.someOrder :=
      ⟨by decide, by decide⟩
    have hlog : LogName.ofText? "avkit" "avkit.2026-02-06.log" =
        some ⟨Housekeeping.someDay, false⟩ := by
      decide +kernel
    obtain ⟨after, hrun, hfiles⟩ := (hgone _ rfl).2 Gzip.pack "logs" _ _ hplain henum
    refine ⟨by decide +kernel, fun h => ?_, _, rfl, after, hrun, rfl, hfiles _ _ hlog rfl⟩
    exact absurd ((hsafe (by decide) ⟨by decide, by decide⟩).1 h).1 (by decide)

end LogSetup

end IsoMedia
