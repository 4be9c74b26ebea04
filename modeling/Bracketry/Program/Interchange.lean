import Bracketry.Json.Table
import Bracketry.Program.Definition

/-!
# Programs in interchange form

A program is exchanged as a JSON object that gives every name the list of its tokens' texts, in the order of the program.

* `Program.toJson` : the text, one token a line, indented by two spaces a level;
* `Program.ofMembers` : a name given twice keeps its first place and its last body;
* `Program.checkBody` : what a body must meet, whoever wrote it;
* `Program.ofJson` : reads a text and checks every body in order.
-/

namespace Bracketry.Program

/-! ## Writing -/

/-- A list of texts over several lines, the closing bracket at the given indentation. -/
def jsonLines (opener closer indent : String) (items : List String) : String :=
  if items.isEmpty then opener ++ closer
  else opener ++ "\n" ++ ",\n".intercalate (items.map fun item => indent ++ "  " ++ item) ++ "\n" ++ indent ++ closer

def toJson (program : Program) : String :=
  jsonLines "\x7b" "\x7d" "" <| program.bodies.map fun (name, body) =>
    Json.quote name ++ ": " ++ jsonLines "[" "]" "  " (body.map fun token => Json.quote token.text)

/-! ## Reading -/

def ofMembers (members : List (String × List Token)) : Program :=
  members.foldl (fun program (name, body) => program.set name body) ⟨[]⟩

/-- Checks a named body and gives it back with its argument bound: the name first, then the nesting of the brackets, then
that no definition is among them. The entry point has no argument. -/
def checkBody (name : String) (body : List Token) : Except Error (List Token) := do
  if name != entryName then checkName name
  (checkBrackets body).mapError Error.brackets
  if body.contains (.opening .definition) then throw (.brackets .nestedDefinition)
  if name == entryName && body.any Token.isArgument then throw .argumentOutsideApplication
  return body.map Token.bindParameter

/-- Reads the interchange form of a program. The entry point must be there before any body is looked at. -/
def ofJson (json : String) : Except Error Program := do
  let members ← (Json.readTable json.toList).mapError Error.interchange
  let program := ofMembers members
  if !program.contains entryName then throw (.structural .entryMissing)
  let bodies ← program.bodies.mapM fun (name, body) => return (name, ← checkBody name body)
  return ⟨bodies⟩

end Bracketry.Program
