import Bracketry.Token.Basic

/-!
# The C that programs become

* `CProgram.Expr` : numbers, the argument of a routine, and cells of the memory array;
* `CProgram.Statement` : the statements that work on a cell, the calls, and the three lines that make up a loop;
* `CProgram.Line` : a statement with the depth of the block that it stands in;
* the functions `text` : how all of them are written.
-/

namespace Bracketry.CProgram

def memoryName : String := "d0"

def readerName : String := "read_byte"

/-- The name of the routine of an application, kept apart from the names of the C library. -/
def routineName (name : String) : String := "a_" ++ name

inductive Expr where
  | literal (value : Int64)
  /-- The argument of the routine. -/
  | parameter
  | cell (address : Expr)
deriving DecidableEq, Repr

namespace Expr

def text : Expr → String
  | literal value => toString value.toInt
  | parameter => Token.parameterText
  | cell address => s!"{memoryName}[{address.text}]"

/-- An expression by its constructors, as it is shown in an error. -/
def describe : Expr → String
  | literal value => s!"Literal({value.toInt})"
  | parameter => "Parameter"
  | cell address => s!"Cell({address.describe})"

end Expr

/-- A line of a routine. Every statement but a call works on the cell at an address. -/
inductive Statement where
  | increment (address : Expr)
  | decrement (address : Expr)
  | put (address : Expr)
  | get (address : Expr)
  | assign (address value : Expr)
  | call (name : String) (argument : Expr)
  /-- Opens the block of a loop that has no end by itself. -/
  | loop
  /-- Leaves the loop if the cell is zero. -/
  | leaveUnless (address : Expr)
  | close
deriving DecidableEq, Repr

def Statement.text : Statement → String
  | increment address => address.cell.text ++ "++;"
  | decrement address => address.cell.text ++ "--;"
  | put address => s!"putchar({address.cell.text});"
  | get address => s!"{address.cell.text} = {readerName}();"
  | assign address value => s!"{address.cell.text} = {value.text};"
  | call name argument => s!"{routineName name}({argument.text});"
  | loop => "while (1) \x7b"
  | leaveUnless address => "if (!" ++ address.cell.text ++ ") \x7b break; \x7d"
  | close => "\x7d"

/-- A statement at the depth of its block. -/
structure Line where
  /-- The number of blocks around it, the body of the routine included. -/
  depth : Nat
  statement : Statement
deriving DecidableEq, Repr

/-- A line is indented by four spaces for each block around it. -/
def Line.text (line : Line) : String := "".pushn ' ' (4 * line.depth) ++ line.statement.text

end Bracketry.CProgram
