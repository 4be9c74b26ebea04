/-!
# A program that prints a text

* `encodeBytes`, `encode` : sets the first cell to every byte of the text in turn and writes it.
-/

namespace Bracketry

/-- The source text of a program that writes the bytes in order. -/
def encodeBytes (bytes : List UInt8) : String :=
  "[0" ++ String.join (bytes.map fun byte => s!" {byte} .") ++ "]"

def encode (text : String) : String := encodeBytes text.toUTF8.data.toList

end Bracketry
