import DnsGate.Settings.Basic
import DnsGate.Text.Cut

/-!
The command line.  Options that take a value have it in the next argument or attached, as in
`--config=path`, `-cpath` and `-c=path`.  Arguments are taken one after the other: the first one
that is wrong, or asks for help or the version, decides.
-/

namespace DnsGate.Program

/-! ## Options -/

/-- The options that take a value. -/
inductive Setting where
  | config
  | level
  /-- The only one that may be given more than once. -/
  | listen
deriving DecidableEq, Repr

/-- The options that do not. -/
inductive Switch where
  | help
  | version
deriving DecidableEq, Repr

/-- The option of a long name. -/
def longOption? : String → Option (Setting ⊕ Switch)
  | "config" => some (.inl .config)
  | "log-level" => some (.inl .level)
  | "listen" => some (.inl .listen)
  | "help" => some (.inr .help)
  | "version" => some (.inr .version)
  | _ => none

/-- The option of a letter. -/
def shortOption? : Char → Option (Setting ⊕ Switch)
  | 'c' => some (.inl .config)
  | 'l' => some (.inl .listen)
  | 'h' => some (.inr .help)
  | 'V' => some (.inr .version)
  | _ => none

/-- What is given on the command line. -/
structure Options where
  config : Option String := none
  level : Option String := none
  listen : List String := []
deriving DecidableEq, Repr

/-- What the command line asks for. -/
inductive Command where
  | help
  | version
  /-- To run with the settings file at a path. -/
  | run (path : String) (overrides : Settings.Overrides)
deriving DecidableEq, Repr

def Switch.command : Switch → Command
  | .help => .help
  | .version => .version

/-! ## Errors -/

/-- What is wrong with a command line. -/
inductive UsageError where
  | unknown (argument : String)
  | missingValue (setting : Setting)
  | emptyValue (setting : Setting)
  | repeated (setting : Setting)
  /-- A value is attached to an option that takes none. -/
  | attached (switch : Switch)
deriving DecidableEq, Repr

def Setting.name : Setting → String
  | .config => "--config <CONFIG>"
  | .level => "--log-level <LOG_LEVEL>"
  | .listen => "--listen <LISTEN>"

def Switch.name : Switch → String
  | .help => "--help"
  | .version => "--version"

def UsageError.message : UsageError → String
  | .unknown argument => "unexpected argument '" ++ argument ++ "' found"
  | .missingValue s => "a value is required for '" ++ s.name ++ "' but none was supplied"
  | .emptyValue s => "a value is required for '" ++ s.name ++ "' but none was supplied"
  | .repeated s => "the argument '" ++ s.name ++ "' cannot be used multiple times"
  | .attached s => "unexpected value for '" ++ s.name ++ "' found; no more were expected"

/-! ## Arguments -/

/-- What an argument is on its own. -/
inductive Argument where
  | setting (s : Setting) (value : Option String)
  | switch (s : Switch) (value : Option String)
  /-- Two dashes: no option comes after it. -/
  | terminator
  | word
  | unknown
deriving DecidableEq, Repr

/-- An argument that names an option. -/
def Argument.of : Setting ⊕ Switch → (value : Option String) → Argument
  | .inl s, value => .setting s value
  | .inr s, value => .switch s value

/-- An argument by what comes after its two dashes. -/
def longArgument (cs : List Char) : Argument :=
  let (name, rest) := cs.span (· ≠ '=')
  match longOption? (String.ofList name), rest with
  | some o, [] => .of o none
  | some o, _ :: value => .of o (some (String.ofList value))
  | none, _ => .unknown

/-- The value that is attached to a letter. -/
def attachedValue? : List Char → Option String
  | [] => none
  | '=' :: value => some (String.ofList value)
  | value => some (String.ofList value)

/-- An argument by its letter and what is attached to it.  What comes after the letter of an option
without value would be more letters. -/
def shortArgument (c : Char) (rest : List Char) : Argument :=
  match shortOption? c with
  | some (.inl s) => .setting s (attachedValue? rest)
  | some (.inr s) => .switch s none
  | none => .unknown

/-- What an argument is. -/
def classify (argument : String) : Argument :=
  match argument.toList with
  | ['-', '-'] => .terminator
  | '-' :: '-' :: cs => longArgument cs
  | '-' :: c :: rest => shortArgument c rest
  | _ => .word

/-! ## Reading -/

/-- The options with one more value. -/
def Options.put (o : Options) (s : Setting) (value : String) : Except UsageError Options :=
  match s with
  | .config =>
    if value = "" then .error (.emptyValue .config)
    else if o.config.isSome then .error (.repeated .config)
    else .ok { o with config := some value }
  | .level =>
    if o.level.isSome then .error (.repeated .level) else .ok { o with level := some value }
  | .listen => .ok { o with listen := o.listen ++ [value] }

/-- The path of the settings file unless one is given. -/
def defaultPath : String := "config.toml"

/-- The command of a run.  A path from the environment counts if the arguments give none. -/
def Options.command (o : Options) (environment : Option String) : Except UsageError Command :=
  let path := (o.config.or environment).getD defaultPath
  if path = "" then .error (.emptyValue .config)
  else .ok (.run path ⟨o.level, if o.listen.isEmpty then none else some o.listen⟩)

/-- The command of arguments, when `pending` waits for its value. -/
def readArguments (environment : Option String) (o : Options) :
    (pending : Option Setting) → List String → Except UsageError Command
  | none, [] => o.command environment
  | some s, [] => .error (.missingValue s)
  | some s, a :: rest =>
    if classify a = .word then do readArguments environment (← o.put s a) none rest
    else .error (.missingValue s)
  | none, a :: rest =>
    match classify a with
    | .setting s (some value) => do readArguments environment (← o.put s value) none rest
    | .setting s none => readArguments environment o (some s) rest
    | .switch s none => .ok s.command
    | .switch s (some _) => .error (.attached s)
    | .terminator =>
      match rest with
      | [] => o.command environment
      | b :: _ => .error (.unknown b)
    | .word | .unknown => .error (.unknown a)

/-- The command of a command line; `environment` is the path that the environment gives. -/
def Command.of (arguments : List String) (environment : Option String) :
    Except UsageError Command :=
  readArguments environment {} none arguments

/-! ## Texts -/

def versionText : String := "dnsbox 0.1.0"

def helpText : String := "\n".intercalate [
  "Filtering DNS forwarder with IP-set population",
  "",
  "Usage: dnsbox [OPTIONS]",
  "",
  "Options:",
  "  -c, --config <CONFIG>        Path to the TOML configuration file [env: DNSBOX_CONFIG=] [default: config.toml]",
  "      --log-level <LOG_LEVEL>  Overrides `[logging].level`",
  "  -l, --listen <LISTEN>        Overrides `[server].listen`; repeat for several addresses",
  "  -h, --help                   Print help",
  "  -V, --version                Print version"]

end DnsGate.Program
