import Bracketry.CommandLine.Execute

/-!
# The program

The command line on the real system: files and standard streams as they are. No process is started, so every compiler counts
as one that does not exist.
-/

namespace Bracketry.CommandLine

/-- The reason that the system gives for a refusal. -/
def OsFault.ofError : IO.Error → OsFault
  | .noFileOrDirectory .. => .notFound
  | .permissionDenied .. => .permissionDenied
  | .alreadyExists .. => .exists
  | .inappropriateType _ code _ => if code == 21 then .isDirectory else .notDirectory
  | .resourceExhausted _ code _ => if code == 28 then .noSpace else .other s!"no resources (os error {code})"
  | .invalidArgument _ code _ => if code == 36 then .nameTooLong else .other s!"invalid argument (os error {code})"
  | error => .other (toString error)

/-- An action of the system with its refusals as values. -/
def guarded {α : Type} (action : IO α) : IO (Except OsFault α) := do
  try return .ok (← action)
  catch error => return .error (OsFault.ofError error)

instance : Host IO where
  readFile path := guarded do return (← IO.FS.readBinFile path).data.toList
  readInput := guarded do return (← (← IO.getStdin).readBinToEnd).data.toList
  createFile path := guarded (IO.FS.writeBinFile path .empty)
  createDirectories path := guarded (IO.FS.createDirAll path)
  writeFile path bytes := guarded (IO.FS.writeBinFile path ⟨bytes.toArray⟩)
  print bytes := do
    let stdout ← IO.getStdout
    stdout.write ⟨bytes.toArray⟩
    stdout.flush
  compile _ _ _ := return .error .notFound

end Bracketry.CommandLine

/-- The code that a shell shows for a process that was aborted. -/
def Bracketry.CommandLine.abortCode : UInt8 := 134

open Bracketry.CommandLine in
def main (arguments : List String) : IO UInt32 := do
  let ending ← (invoke arguments : IO Ending)
  match ending with
  | .success => pure ()
  | .failed failure => IO.eprintln failure.report
  | .misused fault => IO.eprintln s!"error: {fault.message}"
  return (ending.code?.getD abortCode).toUInt32
