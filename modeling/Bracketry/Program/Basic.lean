import Bracketry.Error

/-!
# Programs

A program is a list of named bodies, in order. The body named `main` is the entry point, the others are its applications.

* `checkName` : the names that an application may have;
* `Program` : the bodies; `Program.body?`, `Program.entry`, `Program.applications`, `Program.isApplication` read them;
* `Program.ofEntry`, `Program.insert`, `Program.setEntry` : build a program up.
-/

namespace Bracketry

def entryName : String := "main"

def isNameChar (c : Char) : Bool := c.isAlpha || c == '_'

/-- A name that an application may have: letters and underscores, and neither the entry point nor a builtin. -/
def checkName (name : String) : Except Error Unit :=
  if name.isEmpty || !name.toList.all isNameChar then .error (.invalidName name)
  else if name == entryName || (Builtin.ofSymbol? name).isSome then .error (.reservedName name)
  else .ok ()

/-- Named bodies, in the order in which they were first given. -/
structure Program where
  bodies : List (String × List Token)
deriving DecidableEq, Repr

namespace Program

def ofEntry (entry : List Token) : Program := ⟨[(entryName, entry)]⟩

/-- The body of that name; the entry point counts as one. -/
def body? (program : Program) (name : String) : Option (List Token) := program.bodies.lookup name

def contains (program : Program) (name : String) : Bool := program.bodies.any (·.1 == name)

def entry (program : Program) : List Token := (program.body? entryName).getD []

/-- The applications in the order of their definition. -/
def applications (program : Program) : List (String × List Token) := program.bodies.filter (·.1 != entryName)

def size (program : Program) : Nat := program.applications.length

/-- Whether a body may call that name; nothing calls the entry point. -/
def isApplication (program : Program) (name : String) : Bool := name != entryName && program.contains name

/-- Gives a name a body. A name that has one keeps its place, a new one goes to the end. -/
def set (program : Program) (name : String) (body : List Token) : Program :=
  if program.contains name then
    ⟨program.bodies.map fun old => if old.1 == name then (name, body) else old⟩
  else ⟨program.bodies ++ [(name, body)]⟩

def setEntry (program : Program) (entry : List Token) : Program := program.set entryName entry

/-- Adds an application under a name that is allowed and not taken. -/
def insert (program : Program) (name : String) (body : List Token) : Except Error Program := do
  checkName name
  if program.contains name then throw (.duplicateName name)
  return program.set name body

/-- The same bodies under the same names, in any order. -/
def same (program other : Program) : Bool :=
  program.bodies.length == other.bodies.length &&
    program.bodies.all fun (name, body) => other.body? name == some body

theorem set_of_not_contains {program : Program} {name : String} (body : List Token)
    (h : program.contains name = false) : program.set name body = ⟨program.bodies ++ [(name, body)]⟩ := by
  simp [set, h]

end Program

end Bracketry
