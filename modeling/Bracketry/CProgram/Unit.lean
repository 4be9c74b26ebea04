import Bracketry.CProgram.Generator

/-!
# A whole program in C

* `CProgram.header` : the memory array and the function that reads a byte, zero at the end of the input;
* `CProgram.signature`, `CProgram.prototype`, `CProgram.routine` : the routine of an application;
* `CProgram.mainRoutine` : the routine of the entry point, which owns the memory;
* `CProgram.ofProgram` : all of it. Prototypes come first, so that routines may call each other in any order.
-/

namespace Bracketry.CProgram

def header : String :=
  "#include <stdio.h>\n#include <stdlib.h>\n\n" ++
  s!"unsigned char *{memoryName};\n\n" ++
  s!"static unsigned char {readerName}(void) \x7b\n" ++
  "    int c = getchar();\n" ++
  "    return c == EOF ? 0 : (unsigned char)c;\n\x7d\n\n"

/-- The head of the routine of an application. -/
def signature (name : String) : String := s!"void {routineName name}(unsigned int {Token.parameterText})"

def prototype (name : String) : String := signature name ++ ";\n"

def linesText (lines : List Line) : String := String.join (lines.map fun line => line.text ++ "\n")

def routine (name : String) (lines : List Line) : String :=
  signature name ++ " \x7b\n" ++ linesText lines ++ "\x7d\n\n"

def mainRoutine (limits : Limits) (lines : List Line) : String :=
  s!"int {entryName}(void) \x7b\n" ++
  s!"    {memoryName} = (unsigned char *)calloc({limits.dataSize}, 1);\n" ++
  s!"    if (!{memoryName}) \x7b return 1; \x7d\n" ++
  linesText lines ++
  s!"    free({memoryName});\n    return 0;\n\x7d\n"

/-- The lines of a body, if it can be written in C. -/
def linesOf (limits : Limits) (program : Program) (inApplication : Bool) (body : List Token) :
    Except Stop (List Line) :=
  match generate limits program inApplication body with
  | .ok () generator => .ok generator.lines.toList
  | .error stop _ => .error stop

/-- The text of a program, if every body can be written in C. -/
def ofProgram (limits : Limits) (program : Program) : Except Stop String := do
  let names := program.applications.map Prod.fst
  let prototypes := String.join (names.map prototype) ++ if names.isEmpty then "" else "\n"
  let routines ← program.applications.mapM fun (name, body) => return routine name (← linesOf limits program true body)
  let lines ← linesOf limits program false program.entry
  return header ++ prototypes ++ String.join routines ++ mainRoutine limits lines

end Bracketry.CProgram
