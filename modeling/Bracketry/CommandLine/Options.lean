import Bracketry.Limits

/-!
# Options

* `Options` : what the command line asks for;
* `Switch` : the options by name, long or of one letter, and whether they take a value;
* `Invocation.ofArguments` : the meaning of the arguments. Letters may be run together, a value may follow its option directly,
  after an equals sign, or as the next argument; of every option but `--verbose` there is one at most.
-/

namespace Bracketry.CommandLine

structure Options where
  /-- The file with the program; standard input if there is none. -/
  input : Option String := none
  /-- The file for the result; standard output if there is none. -/
  output : Option String := none
  /-- What to make of the input. -/
  format : String := "run"
  /-- The input is in interchange form. -/
  fromTable : Bool := false
  compiler : Option String := none
  binary : Option String := none
  limits : Limits := {}
  verbosity : Nat := 0
deriving DecidableEq, Repr

/-- The options by name. -/
inductive Switch where
  | input | output | emit | fromTable | cc | binary | dataSize | maxCallDepth | verbose | help | version
deriving DecidableEq, Repr

namespace Switch

def all : List Switch :=
  [input, output, emit, fromTable, cc, binary, dataSize, maxCallDepth, verbose, help, version]

def name : Switch → String
  | input => "input"
  | output => "output"
  | emit => "emit"
  | fromTable => "from-table"
  | cc => "cc"
  | binary => "binary"
  | dataSize => "data-size"
  | maxCallDepth => "max-call-depth"
  | verbose => "verbose"
  | help => "help"
  | version => "version"

def letter? : Switch → Option Char
  | input => some 'i'
  | output => some 'o'
  | verbose => some 'v'
  | help => some 'h'
  | version => some 'V'
  | _ => none

def takesValue : Switch → Bool
  | fromTable | verbose | help | version => false
  | _ => true

def ofName? (name : String) : Option Switch := all.find? fun switch => switch.name == name

def ofLetter? (letter : Char) : Option Switch := all.find? fun switch => switch.letter? == some letter

end Switch

inductive UsageFault where
  /-- An argument that is no option, or an unknown one. -/
  | unexpected (argument : String)
  | valueMissing (switch : Switch)
  /-- A value that the option cannot have, or that it does not take. -/
  | valueRefused (switch : Switch) (value : String)
  | repeated (switch : Switch)
  /-- An option that needs another one. -/
  | requires (switch other : Switch)
deriving DecidableEq, Repr

def UsageFault.message : UsageFault → String
  | unexpected argument => s!"unexpected argument '{argument}'"
  | valueMissing switch => s!"a value is required for '--{switch.name}'"
  | valueRefused switch value => s!"invalid value '{value}' for '--{switch.name}'"
  | repeated switch => s!"the argument '--{switch.name}' cannot be used multiple times"
  | requires switch other => s!"the argument '--{switch.name}' needs '--{other.name}'"

inductive Invocation where
  | execute (options : Options)
  | help
  | version
deriving DecidableEq, Repr

namespace Invocation

/-- A number of at most 64 bits: an optional plus sign and digits. -/
def readSize? (text : String) : Option Nat := do
  let digits := match text.toList with
    | '+' :: digits => digits
    | digits => digits
  let value ← Numeral.ofDigits? digits
  guard (value < Nat.pow 2 64)
  return value

/-- The options read so far, and which ones they were. -/
structure Reading where
  options : Options := {}
  seen : List Switch := []

/-- Sets an option, with an empty value if it takes none. -/
def Reading.set (reading : Reading) (switch : Switch) (value : String) : Except UsageFault Reading := do
  if switch != .verbose && reading.seen.contains switch then throw (.repeated switch)
  let options := reading.options
  let path : Except UsageFault (Option String) :=
    if value.isEmpty then .error (.valueRefused switch value) else .ok (some value)
  let size : Except UsageFault Nat :=
    match readSize? value with
    | some size => .ok size
    | none => .error (.valueRefused switch value)
  let options ← match switch with
    | .input => do pure { options with input := ← path }
    | .output => do pure { options with output := ← path }
    | .emit => pure { options with format := value }
    | .fromTable => pure { options with fromTable := true }
    | .cc => pure { options with compiler := some value }
    | .binary => do pure { options with binary := ← path }
    | .dataSize => do pure { options with limits := { options.limits with dataSize := ← size } }
    | .maxCallDepth => do pure { options with limits := { options.limits with maxCallDepth := ← size } }
    | .verbose => pure { options with verbosity := options.verbosity + 1 }
    | .help | .version => pure options
  return { options, seen := switch :: reading.seen }

/-- At the end of the arguments: an executable is only written by a compiler. -/
def Reading.finish (reading : Reading) : Except UsageFault Invocation :=
  if reading.options.binary.isSome && reading.options.compiler.isNone then .error (.requires .binary .cc)
  else .ok (.execute reading.options)

/-- What an argument asks for before the next argument is looked at. -/
inductive Demand where
  | nothing
  | value (switch : Switch)
  | stop (invocation : Invocation)

/-- Sets an option that takes no value. Help and version end the reading of arguments. -/
def Reading.flag (reading : Reading) (switch : Switch) : Except UsageFault (Reading × Demand) := do
  let reading ← reading.set switch ""
  return (reading, match switch with
    | .help => .stop .help
    | .version => .stop .version
    | _ => .nothing)

def Reading.letters (reading : Reading) : List Char → Except UsageFault (Reading × Demand)
  | [] => .ok (reading, .nothing)
  | c :: rest =>
    match Switch.ofLetter? c with
    | none => .error (.unexpected (String.singleton c))
    | some switch =>
      if switch.takesValue then
        match rest with
        | [] => .ok (reading, .value switch)
        | '=' :: value | value => do return (← reading.set switch (String.ofList value), .nothing)
      else do
        match ← reading.flag switch with
        | (reading, .nothing) => reading.letters rest
        | answer => return answer

def Reading.long (reading : Reading) (text : List Char) : Except UsageFault (Reading × Demand) :=
  let name := String.ofList (text.takeWhile (· != '='))
  match Switch.ofName? name with
  | none => .error (.unexpected (String.ofList text))
  | some switch =>
    match text.dropWhile (· != '='), switch.takesValue with
    | [], true => .ok (reading, .value switch)
    | [], false => reading.flag switch
    | _ :: value, true => do return (← reading.set switch (String.ofList value), .nothing)
    | _ :: value, false => .error (.valueRefused switch (String.ofList value))

/-- Whether an argument can be the value of an option: it does not start with a dash, or it is a dash. -/
def isValue (argument : String) : Bool := argument == "-" || argument.toList.head? != some '-'

/-- Reads one argument. A value of its own, if it wants one, is the next argument. -/
def Reading.argument (reading : Reading) (argument : String) : Except UsageFault (Reading × Demand) :=
  match argument.toList with
  | '-' :: '-' :: text => reading.long text
  | '-' :: c :: text => reading.letters (c :: text)
  | _ => .error (.unexpected argument)

/-- Reads the arguments, going on from those already read. -/
def readArguments (reading : Reading) : List String → Except UsageFault Invocation
  | [] => reading.finish
  | ["--"] => reading.finish
  | argument :: rest => do
    if argument == "--" then throw (.unexpected (rest.headD ""))
    match ← reading.argument argument, rest with
    | (_, .stop invocation), _ => return invocation
    | (reading, .nothing), rest => readArguments reading rest
    | (reading, .value switch), value :: rest =>
      if isValue value then readArguments (← reading.set switch value) rest
      else throw (.valueMissing switch)
    | (_, .value switch), [] => throw (.valueMissing switch)

def ofArguments (arguments : List String) : Except UsageFault Invocation := readArguments {} arguments

def versionText : String := "stercus 0.1.0\n"

def helpText : String := "\n".intercalate [
  "Interpreter and C translator for the Stercus language", "",
  "Usage: stercus [OPTIONS]", "",
  "Options:",
  "  -i, --input <INPUT>",
  "          Source file (reads stdin when omitted)",
  "  -o, --output <OUTPUT>",
  "          Output file (writes stdout when omitted)",
  "      --emit <FORMAT>",
  "          What to do with the input: run, c, table, text [default: run]",
  "      --from-table",
  "          Treat the input as a JSON function table instead of source",
  "      --cc <COMPILER>",
  "          After emitting C, build it with this compiler (e.g. cc)",
  "      --binary <PATH>",
  "          Executable produced by --cc (defaults to the output path without extension)",
  "      --data-size <DATA_SIZE>",
  "          Number of memory cells [default: 10000]",
  "      --max-call-depth <MAX_CALL_DEPTH>",
  "          Interpreter call depth limit [default: 256]",
  "  -v, --verbose...",
  "          Increase log verbosity",
  "  -h, --help",
  "          Print help",
  "  -V, --version",
  "          Print version", ""]

end Invocation

end Bracketry.CommandLine
