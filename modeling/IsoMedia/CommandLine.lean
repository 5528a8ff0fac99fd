/-!
# The command line

What a user may ask for, and how it is written (`CommandLine.parse`).
-/

namespace IsoMedia

/-- What a user asks for. -/
structure Options where
  /-- The file to look at. -/
  input : String
  boxes : Bool := false
  samples : Bool := false
  /-- The directory for elementary streams, if they are exported. -/
  extractTo : Option String := none
  json : Bool := false
  strict : Bool := false
  /-- The file with the settings of the log. -/
  logSettings : Option String := none
  /-- How many times more details were asked for. -/
  verbosity : Nat := 0
deriving DecidableEq

/-- What a command line asks for. -/
inductive Request where
  | probe (options : Options)
  | help
  | version
deriving DecidableEq

/-- Why a command line is not understood. -/
inductive UsageFault where
  | unknown (argument : String)
  | repeated (option : String)
  | missingValue (option : String)
  | missingInput
deriving DecidableEq

def UsageFault.message : UsageFault → String
  | unknown argument => s!"error: unexpected argument '{argument}' found"
  | repeated option =>
    s!"error: the argument '{option}' cannot be used multiple times"
  | missingValue option =>
    s!"error: a value is required for '{option}' but none was supplied"
  | missingInput =>
    "error: the following required arguments were not provided:\n  <INPUT>"

namespace CommandLine

/-- What was understood so far. -/
structure State where
  input : Option String := none
  options : Options := { input := "" }

/-- Where to go on, or what to do at once. -/
abbrev Step := Except UsageFault State

/-- Set a switch, which must not be set already. -/
def switch (name : String) (isSet : Bool) (s : State) (options : Options) : Step :=
  if isSet then .error (.repeated name) else .ok { s with options }

/-- The input, which must not be given already. -/
def setInput (s : State) (argument : String) : Step :=
  if s.input.isSome then .error (.unknown argument)
  else if argument = "" then .error .missingInput
  else .ok { s with input := some argument }

/-- The directory for exports. -/
def setExtractTo (s : State) (value : String) : Step :=
  if value = "" then .error (.missingValue "--extract <DIR>")
  else switch "--extract <DIR>" s.options.extractTo.isSome s
    { s.options with extractTo := some value }

/-- The settings of the log. -/
def setLogSettings (s : State) (value : String) : Step :=
  if value = "" then .error (.missingValue "--log-config <FILE>")
  else switch "--log-config <FILE>" s.options.logSettings.isSome s
    { s.options with logSettings := some value }

def addVerbosity (s : State) (n : Nat) : State :=
  { s with options := { s.options with verbosity := s.options.verbosity + n } }

/-- An option that takes no value, if there is one of this name. -/
def setSwitch? (s : State) (argument : String) : Option Step :=
  match argument with
  | "--boxes" => some (switch argument s.options.boxes s { s.options with boxes := true })
  | "--samples" => some (switch argument s.options.samples s { s.options with samples := true })
  | "--json" => some (switch argument s.options.json s { s.options with json := true })
  | "--strict" => some (switch argument s.options.strict s { s.options with strict := true })
  | "--verbose" => some (.ok (addVerbosity s 1))
  | _ => none

/-- An option that takes a value, if there is one of this name. -/
def setter? : String → Option (State → String → Step)
  | "--extract" => some setExtractTo
  | "--log-config" => some setLogSettings
  | _ => none

/-- The value behind an equals sign. -/
def inlineValue? (argument : String) : Option (String × String) :=
  let cs := argument.toList
  let name := cs.takeWhile (· ≠ '=')
  if name = cs then none else some (String.ofList name, String.ofList (cs.drop (name.length + 1)))

/-- Whether an argument is an option and no value; a lone hyphen is a value. -/
def isOption (argument : String) : Bool :=
  argument.toList.head? = some '-' && argument ≠ "-"

/-- What a group of short options asks for, from one letter on. -/
def shortOptions (argument : String) (s : State) : List Char → Except UsageFault (State ⊕ Request)
  | [] => .ok (.inl s)
  | 'v' :: cs => shortOptions argument (addVerbosity s 1) cs
  | 'h' :: _ => .ok (.inr .help)
  | 'V' :: _ => .ok (.inr .version)
  | _ => .error (.unknown argument)

/-- What is asked for once all arguments are read. -/
def finish (s : State) : Except UsageFault Request :=
  match s.input with
  | none => .error .missingInput
  | some input => .ok (.probe { s.options with input })

/-- Arguments none of which is an option. -/
def parseInputs (s : State) : List String → Except UsageFault Request
  | [] => finish s
  | a :: rest => do parseInputs (← setInput s a) rest

/-- Arguments from one on.  An option with a value takes the next argument, unless that is an option
itself; two hyphens end the options. -/
def parseFrom (s : State) : List String → Except UsageFault Request
  | [] => finish s
  | "--" :: rest => parseInputs s rest
  | "--help" :: _ => .ok .help
  | "--version" :: _ => .ok .version
  | a :: rest =>
    match setter? a with
    | some set =>
      match rest with
      | [] => .error (.missingValue a)
      | value :: rest =>
        if isOption value then .error (.missingValue a)
        else do parseFrom (← set s value) rest
    | none =>
      match setSwitch? s a with
      | some step => do parseFrom (← step) rest
      | none =>
        if a.toList.take 2 = ['-', '-'] then
          match inlineValue? a with
          | none => .error (.unknown a)
          | some (name, value) =>
            match setter? name with
            | some set => do parseFrom (← set s value) rest
            | none => .error (.unknown a)
        else if isOption a then
          match shortOptions a s (a.toList.drop 1) with
          | .error fault => .error fault
          | .ok (.inr request) => .ok request
          | .ok (.inl s) => parseFrom s rest
        else do parseFrom (← setInput s a) rest

/-- What a command line asks for. -/
def parse (arguments : List String) : Except UsageFault Request := parseFrom {} arguments

def version : String := "avkit-probe 0.1.0"

def helpLines : List String :=
  ["纯 Rust MP4/MOV 信息探测工具",
   "",
   "Usage: avkit-probe [OPTIONS] <INPUT>",
   "",
   "Arguments:",
   "  <INPUT>  输入文件路径",
   "",
   "Options:",
   "      --boxes              显示 Box 树",
   "      --samples            逐个显示交付的采样",
   "      --extract <DIR>      把各轨道导出为基本流到指定目录",
   "      --json               输出 JSON 格式",
   "      --strict             遇到未知 Box 时报错而不是跳过",
   "      --log-config <FILE>  日志配置文件 (JSON)",
   "  -v, --verbose...         提高日志级别 (-v: debug, -vv: trace)",
   "  -h, --help               Print help",
   "  -V, --version            Print version"]

end CommandLine

end IsoMedia
