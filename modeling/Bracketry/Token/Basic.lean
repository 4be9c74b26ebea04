import Bracketry.Bracket
import Bracketry.Builtin

/-!
# Tokens

* `Token` : the tagged words of a program;
* `Token.text` : the canonical spelling of a token;
* `Token.fixed` : the tokens that have one spelling only;
* `Token.isPlaceholder`, `Token.bindParameter` : the argument of an application, before and after its definition is read.
-/

namespace Bracketry

inductive Token where
  | literal (value : Int64)
  | builtin (op : Builtin)
  | opening (kind : Bracket)
  | closing (kind : Bracket)
  /-- The name of an application, or any other bare word. -/
  | identifier (name : String)
  /-- The argument of an application, as it is written in its definition. -/
  | placeholder
  /-- The argument of an application, as it stands in its body. -/
  | parameter
deriving DecidableEq, Repr

namespace Token

def placeholderText : String := "$"

def parameterText : String := "s0"

/-- The canonical spelling: numbers lose a plus sign and leading zeros. -/
def text : Token → String
  | literal value => toString value.toInt
  | builtin op => op.symbol
  | opening kind => String.singleton kind.opener
  | closing kind => String.singleton kind.closer
  | identifier name => name
  | placeholder => placeholderText
  | parameter => parameterText

/-- The tokens that have one spelling only. -/
def fixed : List Token :=
  Bracket.all.map opening ++ Bracket.all.map closing ++ Builtin.all.map builtin ++ [placeholder, parameter]

def isArgument : Token → Bool
  | placeholder | parameter => true
  | _ => false

/-- A placeholder becomes the parameter; every other token stays. -/
def bindParameter : Token → Token
  | placeholder => parameter
  | token => token

@[simp] theorem bindParameter_ne_placeholder (token : Token) : token.bindParameter ≠ placeholder := by
  cases token <;> simp [bindParameter]

@[simp] theorem bindParameter_bindParameter (token : Token) :
    token.bindParameter.bindParameter = token.bindParameter := by
  cases token <;> rfl

end Token

end Bracketry
