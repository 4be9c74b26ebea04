import Bracketry.CProgram.Unit
import Bracketry.CommandLine.Host
import Bracketry.CommandLine.Options
import Bracketry.CommandLine.Path
import Bracketry.Encode
import Bracketry.Machine.Interpreter
import Bracketry.Program.Interchange
import Bracketry.Text.Quoted

/-!
# The command line at work

* `Failure`, `Failure.report` : why an invocation fails, and what is printed then;
* `readSource`, `loadProgram`, `writeResult`, `runCompiler`, `runProgram` : its steps;
* `unaddressable`, `unavailable`, `deepest` : what a process cannot have; `settled` : what it has written when it is stopped;
* `execute` : reads the input, makes what the format asks for, and writes it. Nothing is written before the input has been
  read and, but for the text format, loaded;
* `invoke` : a whole invocation with its exit code.
-/

namespace Bracketry.CommandLine

inductive Failure where
  | program (error : Error)
  /-- The program takes more steps than any machine. -/
  | endless
  /-- The program is to have more memory than there is. -/
  | memoryTooLarge (cells : Nat)
  /-- The calls of the program outgrow the stack of the process. -/
  | callsTooDeep
  | unknownFormat (format : String)
  /-- A compiler is to be started on a program that is not in a file. -/
  | compilerWithoutFile
  /-- The source file cannot be read; the cause is given as text. -/
  | unreadableFile (path cause : String)
  | unreadableInput (cause : String)
  /-- The file for the output of a run cannot be made. -/
  | outputNotCreated (path : String) (cause : OsFault)
  | directoryNotCreated (path : String) (cause : OsFault)
  /-- The file for the result cannot be written. -/
  | resultNotWritten (path : String) (cause : OsFault)
  | compilerNotStarted (compiler : String) (cause : OsFault)
  | compilerFailed (compiler : String) (status : Nat)
deriving DecidableEq, Repr

namespace Failure

def message : Failure → String
  | program error => error.message
  | endless => "the program does not end"
  | memoryTooLarge cells => s!"there is no memory of {cells} cells"
  | callsTooDeep => "there is no stack for so many calls"
  | unknownFormat format => s!"unsupported emit format: {format}"
  | compilerWithoutFile => "--cc needs --output so the C source can be handed to the compiler"
  | unreadableFile path _ => s!"failed to read input file {path}"
  | unreadableInput _ => "failed to read source from stdin"
  | outputNotCreated path _ => s!"failed to create output file {path}"
  | directoryNotCreated path _ => s!"failed to create directory {Quoted.quote path}"
  | resultNotWritten path _ => s!"failed to write output file {path}"
  | compilerNotStarted compiler _ => s!"failed to run C compiler {compiler}"
  | compilerFailed compiler status => s!"C compiler {compiler} exited with exit status: {status}"

/-- What lies behind a failure, where it is not said already. -/
def cause? : Failure → Option String
  | program (.stream fault) => some fault.message
  | program (.interchange fault) => some fault.message
  | unreadableFile _ cause | unreadableInput cause => some cause
  | outputNotCreated _ cause | directoryNotCreated _ cause | resultNotWritten _ cause | compilerNotStarted _ cause =>
    some cause.message
  | _ => none

def report (failure : Failure) : String :=
  "Error: " ++ failure.message ++
    match failure.cause? with
    | some cause => "\n\nCaused by:\n    " ++ cause
    | none => ""

/-- A computation of limited length that was stopped. -/
def ofStop : Stop → Failure
  | .fault error => program error
  | .outOfFuel => endless

end Failure

section Steps
variable {m : Type → Type} [Monad m] [Host m]

/-- Performs a request of the host; a refusal is a failure. -/
def request {α : Type} (action : m (Except OsFault α)) (failure : OsFault → Failure) : ExceptT Failure m α := do
  match ← action with
  | .ok a => return a
  | .error fault => throw (failure fault)

def decode? (bytes : List UInt8) : Option String := String.fromUTF8? ⟨bytes.toArray⟩

def bytesOf (text : String) : List UInt8 := text.toUTF8.data.toList

/-- The text that bytes must have been. -/
def undecodable : String := "stream did not contain valid UTF-8"

/-- The source text of an invocation. -/
def readSource (input : Option String) : ExceptT Failure m String := do
  match input with
  | some path =>
    let bytes ← request (Host.readFile path) fun fault => .unreadableFile path fault.message
    let some text := decode? bytes | throw (.unreadableFile path undecodable)
    return text
  | none =>
    let bytes ← request Host.readInput fun fault => .unreadableInput fault.message
    let some text := decode? bytes | throw (.unreadableInput undecodable)
    return text

def loadProgram (options : Options) (source : String) : Except Failure Program :=
  (if options.fromTable then Program.ofJson source else Program.ofSource source).mapError Failure.program

/-- Writes a result to a file, whose directory is made if need be, or to standard output. -/
def writeResult (output : Option String) (bytes : List UInt8) : ExceptT Failure m Unit := do
  match output with
  | none => (Host.print bytes : m Unit)
  | some path =>
    match Path.parent? path with
    | none | some "" => pure ()
    | some parent => request (Host.createDirectories parent) (.directoryNotCreated parent)
    request (Host.writeFile path bytes) (.resultNotWritten path)

/-- Has the compiler make an executable of the C program that was written. -/
def runCompiler (compiler source binary : String) : ExceptT Failure m Unit := do
  let status ← request (Host.compile compiler source binary) (.compilerNotStarted compiler)
  if status ≠ 0 then throw (.compilerFailed compiler status)

/-- The least number of cells that no process can address. -/
def unaddressable : Nat := Nat.pow 2 63

/-- The least number of cells that no machine provides. -/
def unavailable : Nat := Nat.pow 2 35

/-- The number of active applications that the stack of a process has room for. -/
def deepest : Nat := Nat.pow 2 15

def processLimits (limits : Limits) : Limits := { limits with maxCallDepth := min limits.maxCallDepth deepest }

/-- Under those limits a program was stopped for want of stack, not because of the limits given. -/
def outgrowsStack (limits : Limits) : Except Stop Unit → Bool
  | .error (.fault (.callDepthExceeded depth)) => depth < limits.maxCallDepth
  | _ => false

/-- The bytes that have left a process which is stopped: those up to the last flush, or to the last line feed where output
goes out by lines. The flush after the end of the program does not happen. -/
def settled (byLine : Bool) (streams : Streams) : List UInt8 :=
  let goesOut : Event → Bool
    | .flush _ => true
    | .write value _ => byLine && value == 10
    | .read _ => false
  (streams.log.tail.dropWhile (!goesOut ·)).reverse.filterMap Event.byteWritten?

def writeRun (output : Option String) (bytes : List UInt8) : ExceptT Failure m Unit :=
  match output with
  | some path => request (Host.writeFile path bytes) fun fault => .program (.stream (.failed fault.message))
  | none => (Host.print bytes : m Unit)

/-- The streams of a run. Standard input that cannot be read is noticed when the program first reads from it. -/
def streamsOf : Except OsFault (List UInt8) → Streams
  | .ok input => .ofInput input
  | .error fault => { reads := [.fault (.failed fault.message)] }

/-- Runs a program on what is left of standard input. What it wrote before an error is kept. -/
def runProgram (options : Options) (program : Program) : ExceptT Failure m Unit := do
  if let some path := options.output then
    request (Host.createFile path) (.outputNotCreated path)
  if unavailable ≤ options.limits.dataSize then throw (.memoryTooLarge options.limits.dataSize)
  let input ← (Host.readInput : m (Except OsFault (List UInt8)))
  let machine : Machine := { memory := .zeroed options.limits.dataSize, streams := streamsOf input }
  let run := Machine.run (processLimits options.limits) program Machine.lifetime machine
  let streams := (Machine.after run).streams
  let result := Machine.resultOf run
  if outgrowsStack options.limits result then
    writeRun options.output (settled options.output.isNone streams)
    throw .callsTooDeep
  writeRun options.output streams.output
  match result with
  | .ok () => return
  | .error stop => throw (.ofStop stop)

def execute (options : Options) : ExceptT Failure m Unit := do
  let source ← readSource options.input
  match options.format with
  | "run" =>
    let program ← loadProgram options source
    runProgram options program
  | "c" =>
    if options.compiler.isSome && options.output.isNone then throw .compilerWithoutFile
    let program ← loadProgram options source
    let text ← (CProgram.ofProgram options.limits program).mapError Failure.ofStop
    writeResult options.output (bytesOf text)
    if let (some compiler, some path) := (options.compiler, options.output) then
      runCompiler compiler path (options.binary.getD (Path.withoutExtension path))
  | "table" =>
    let program ← loadProgram options source
    writeResult options.output (bytesOf program.toJson)
  | "text" => writeResult options.output (bytesOf (encode source))
  | format => throw (.unknownFormat format)

inductive Ending where
  | success
  | failed (failure : Failure)
  | misused (fault : UsageFault)
deriving DecidableEq, Repr

/-- The exit code of an ending. Memory that cannot be addressed is refused with a code of its own; memory that is not there
ends the process at once, without a code, and so does the end of the stack. -/
def Ending.code? : Ending → Option UInt8
  | success => some 0
  | failed (.memoryTooLarge cells) => if unaddressable ≤ cells then some 101 else none
  | failed .callsTooDeep => none
  | failed _ => some 1
  | misused _ => some 2

def invoke (arguments : List String) : m Ending := do
  match Invocation.ofArguments arguments with
  | .error fault => return .misused fault
  | .ok .help =>
    Host.print (bytesOf Invocation.helpText)
    return .success
  | .ok .version =>
    Host.print (bytesOf Invocation.versionText)
    return .success
  | .ok (.execute options) =>
    match ← (execute options).run with
    | .ok () => return .success
    | .error failure => return .failed failure

end Steps

end Bracketry.CommandLine
