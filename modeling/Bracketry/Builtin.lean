/-!
# Builtins

* `Builtin` : the operations on a cell that the language itself knows;
* `Builtin.symbol`, `Builtin.ofSymbol?` : their spelling, and the way back (`ofSymbol?_symbol`).
-/

namespace Bracketry

/-- An operation on the cell of an applicator or a conditional. -/
inductive Builtin where
  | increment
  | decrement
  | output
  | input
  | nop
deriving DecidableEq, Repr

namespace Builtin

/-- Every builtin, in the order in which they are listed to a user. -/
def all : List Builtin := [increment, decrement, output, input, nop]

def symbol : Builtin → String
  | increment => "+"
  | decrement => "-"
  | output => "."
  | input => ","
  | nop => "_"

def ofSymbol? (symbol : String) : Option Builtin := all.find? fun op => op.symbol == symbol

theorem mem_all (op : Builtin) : op ∈ all := by cases op <;> decide

theorem ofSymbol?_symbol (op : Builtin) : ofSymbol? op.symbol = some op := by cases op <;> decide

end Builtin

end Bracketry
