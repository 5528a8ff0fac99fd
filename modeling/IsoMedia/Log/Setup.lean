import IsoMedia.CommandLine
import IsoMedia.Log.Filter
import IsoMedia.Log.Housekeeping
import IsoMedia.Run

/-!
# Setting up the log

From the command line, the settings and the surroundings follows what is logged and where to; on the way
the directory of the log files is put in order (`LogSetup.make`).
-/

namespace IsoMedia

/-- What the program finds around it. -/
structure Surroundings where
  today : Date
  /-- The rules of the log filter, if they are given there. -/
  filterText : Option String
  /-- What compressing makes of the content of a file. -/
  pack : ByteArray → ByteArray

/-- What is logged, and where to besides the console. -/
structure LogSetup where
  filter : LogFilter
  /-- The path of today's log file. -/
  file : Option String

namespace LogSetup

/-- The level without settings. -/
def quietLevel : String := "warn"

/-- The level that a user asks for on the command line, if any. -/
def levelFor? : (verbosity : Nat) → Option String
  | 0 => none
  | 1 => some "debug"
  | _ => some "trace"

/-- The rules of the filter.  The surroundings override the command line, and that the settings. -/
def filterText (o : Options) (settings : Option LogSettings) (s : Surroundings) : String :=
  let settled := (settings.map (·.level)).getD quietLevel
  s.filterText.getD ((levelFor? o.verbosity).getD settled)

def faultMessage : Json.Fault → String
  | .malformed => "格式错误"
  | .cutShort => "内容不完整"
  | .unfit => "取值不符"

/-- A fault while the log is set up. -/
def refused (reason : String) : Stop := .refused s!"日志初始化失败: {reason}"

section

variable {m : Type → Type} [Monad m] [Files m]

/-- The settings in a file. -/
def settingsIn (path : String) : Run m LogSettings := do
  let unread (reason : String) := refused s!"读取日志配置失败, path={path}: {reason}"
  let bytes ← Run.work (fun fault => unread fault.message) (Files.read path)
  match String.fromUTF8? bytes with
  | none => throw (unread "stream did not contain valid UTF-8")
  | some text =>
    Run.orStop (fun fault => refused s!"解析日志配置失败, path={path}: {faultMessage fault}")
      (LogSettings.ofJson text)

/-- Make the directory of log files ready, and have today's file in it. -/
def openFile (pack : ByteArray → ByteArray) (s : LogSettings) (directory : String) (today : Date) :
    Run m String := do
  Run.work (fun fault => refused s!"创建日志目录失败, path={directory}: {fault.message}")
    (Files.makeDirectories directory)
  match Housekeeping.ofSettings? s today with
  | none => throw (.crashed "保留天数超出日期范围")
  | some h =>
    match ← Run.attempt (h.cleanUp pack directory) with
    | .ok () => pure ()
    | .error fault => Run.sayLines [s!"清理历史日志失败: {fault.message}"]
    let path := Files.pathIn directory (LogName.text s.stem ⟨today, false⟩)
    Run.work (fun fault => refused s!"打开日志文件失败, path={path}: {fault.message}")
      (Files.touch path)
    return path

/-- Set up the log.  The text of the filter is read for the console and once more for the file. -/
def make (o : Options) (s : Surroundings) : Run m LogSetup := do
  let settings ← o.logSettings.mapM settingsIn
  let text := filterText o settings s
  Run.sayLines (LogFilter.complaints text)
  match LogFilter.ofText? text with
  | none => throw (.crashed "日志过滤规则切断了字符")
  | some filter =>
    match settings.bind fun settings => settings.directory.map (settings, ·) with
    | none => return ⟨filter, none⟩
    | some (settings, directory) =>
      let path ← openFile s.pack settings directory s.today
      Run.sayLines (LogFilter.complaints text)
      return ⟨filter, some path⟩

end

end LogSetup

end IsoMedia
