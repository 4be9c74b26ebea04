import Bracketry.Error

/-!
# What the command line needs from its surroundings

* `OsFault` : why the system refuses a request, with its text;
* `Host` : files, standard streams and compilers.
-/

namespace Bracketry.CommandLine

inductive OsFault where
  | notFound
  | permissionDenied
  | exists
  /-- A component of the path is a file. -/
  | notDirectory
  | isDirectory
  | noSpace
  /-- A part of the path, or all of it, is too long. -/
  | nameTooLong
  | other (text : String)
deriving DecidableEq, Repr

def OsFault.message : OsFault → String
  | notFound => "No such file or directory (os error 2)"
  | permissionDenied => "Permission denied (os error 13)"
  | .exists => "File exists (os error 17)"
  | notDirectory => "Not a directory (os error 20)"
  | isDirectory => "Is a directory (os error 21)"
  | noSpace => "No space left on device (os error 28)"
  | nameTooLong => "File name too long (os error 36)"
  | other text => text

/-- Files, standard streams and compilers. -/
class Host (m : Type → Type) where
  /-- The bytes of a file. -/
  readFile : String → m (Except OsFault (List UInt8))
  /-- All that is left of standard input. -/
  readInput : m (Except OsFault (List UInt8))
  /-- Makes a file empty, or makes an empty file. -/
  createFile : String → m (Except OsFault Unit)
  /-- Makes a directory and those around it, as far as they do not exist. -/
  createDirectories : String → m (Except OsFault Unit)
  /-- Makes these bytes the content of a file. -/
  writeFile : String → List UInt8 → m (Except OsFault Unit)
  print : List UInt8 → m Unit
  /-- Has a compiler make an executable of a C program, and gives its exit status. -/
  compile (compiler source binary : String) : m (Except OsFault Nat)

end Bracketry.CommandLine
