import Bracketry.Token.Read

/-!
# Errors

What can go wrong with a program, as causes; the wording is in the functions `message`.

* `BracketFault` : why a token stream is not well nested;
* `StructureFault` : why a stream or a body has no meaning although each token has one;
* `InterchangeFault` : why a text is no program in interchange form;
* `StreamFault` : why a byte could not be read or written;
* `Error` : all of them, and the errors of single tokens.
-/

namespace Bracketry

inductive BracketFault where
  | tooManyClosers (kind : Bracket)
  /-- A closing bracket of another kind than the innermost open one. -/
  | mismatched (opened closed : Bracket)
  | nestedDefinition
  | unterminated (kind : Bracket)
deriving DecidableEq, Repr

def BracketFault.message : BracketFault → String
  | tooManyClosers kind => s!"too many closing brackets of type '{kind.closer}'"
  | mismatched opened closed => s!"mismatched kinds: '{opened.opener}' closed by '{closed.closer}'"
  | nestedDefinition => "nested function definition: application definitions must appear at the top level"
  | unterminated kind => s!"unterminated '{kind.opener}'"

/-- Why a stream or a body has no meaning. The last five guard the evaluator's own bookkeeping. -/
inductive StructureFault where
  | definitionNotOpened
  /-- A program in interchange form lacks its entry point. -/
  | entryMissing
  | definitionInBody
  /-- A bare token at the top level of a body. -/
  | outsideBrackets (token : Token)
  | applicatorNotOpened
  | conditionalNotOpened
  | applicatorWithoutAccessor
  | conditionalWithoutAccessor
  | conditionalNotClosed
  /-- Brackets or operands left at the end of a body, outermost first, each by its description. -/
  | unresolved (entries : List String)
  /-- The innermost bracket was a value. -/
  | markerIsValue
  /-- An accessor was bound where no conditional waits for one. -/
  | noConditionalToBind
  /-- A conditional was skipped that was not the innermost entry. -/
  | noConditionalToSkip
  /-- A conditional has no place to resume from. -/
  | loopStartMissing
  | markerAmongOperands (description : String)
deriving DecidableEq, Repr

def StructureFault.message : StructureFault → String
  | definitionNotOpened => "definition closed before it was opened"
  | entryMissing => "function table has no 'main' entry"
  | definitionInBody => "application definition inside a body"
  | outsideBrackets token => s!"'{token.text}' appears outside any bracket"
  | applicatorNotOpened => "']' without a matching '['"
  | conditionalNotOpened => "')' without a matching '('"
  | applicatorWithoutAccessor => "applicator has no accessor"
  | conditionalWithoutAccessor => "conditional has no accessor"
  | conditionalNotClosed => "unterminated conditional"
  | unresolved entries => "evaluation ended with unresolved entries: " ++ " ".intercalate entries
  | markerIsValue => "stack marker lookup returned a value entry"
  | noConditionalToBind => "conditional accessor without an open conditional"
  | noConditionalToSkip => "skipped a conditional that was not open"
  | loopStartMissing => "loop re-entry index missing"
  | markerAmongOperands description => s!"unexpected '{description}' inside applicator"

def WordFault.message : WordFault → String
  | malformedLiteral word => s!"malformed literal '{word}'"
  | empty => "unknown token ''"

inductive InterchangeFault where
  /-- The text breaks the grammar of JSON. -/
  | malformed
  /-- The text ends too early. -/
  | truncated
  /-- The text is JSON, and no object of lists of strings. -/
  | misshapen
  /-- One of the strings is no token. -/
  | rejected (fault : WordFault)
deriving DecidableEq, Repr

def InterchangeFault.message : InterchangeFault → String
  | malformed => "malformed JSON"
  | truncated => "unexpected end of JSON"
  | misshapen => "expected an object of lists of strings"
  | rejected fault => fault.message

inductive StreamFault where
  /-- The operation was interrupted and is not tried again. -/
  | interrupted
  | unexpectedEnd
  | nothingWritten
  | failed (text : String)
deriving DecidableEq, Repr

def StreamFault.message : StreamFault → String
  | interrupted => "operation interrupted"
  | unexpectedEnd => "unexpected end of file"
  | nothingWritten => "failed to write whole buffer"
  | failed text => text

/-- What can go wrong between source text and the end of a run. -/
inductive Error where
  | stream (fault : StreamFault)
  | interchange (fault : InterchangeFault)
  | brackets (fault : BracketFault)
  | word (fault : WordFault)
  /-- A name has other characters than letters and underscores, or none. -/
  | invalidName (name : String)
  /-- A name belongs to the language. -/
  | reservedName (name : String)
  | duplicateName (name : String)
  | argumentOutsideApplication
  | addressOutOfRange (address : Int64)
  /-- Something stands in the place of an accessor that is none, given by its description. -/
  | invalidAccessor (description : String)
  /-- A token cannot be applied to a cell. -/
  | unknownToken (text : String)
  | structural (fault : StructureFault)
  | callDepthExceeded (limit : Nat)
deriving DecidableEq, Repr

def Error.message : Error → String
  | stream fault => "I/O failure: " ++ fault.message
  | interchange fault => "invalid function table: " ++ fault.message
  | brackets fault => "unbalanced brackets: " ++ fault.message
  | word fault => fault.message
  | invalidName name => s!"invalid application name '{name}': names may only contain letters and underscores"
  | reservedName name => s!"application name '{name}' is reserved"
  | duplicateName name => s!"application '{name}' is defined more than once"
  | argumentOutsideApplication => "the parameter '$' may only be used inside an application definition"
  | addressOutOfRange address => s!"address {address.toInt} is out of range"
  | invalidAccessor description => s!"'{description}' cannot be used as an accessor"
  | unknownToken text => s!"unknown token '{text}'"
  | structural fault => "structural error: " ++ fault.message
  | callDepthExceeded limit => s!"call depth exceeded the limit of {limit}"

end Bracketry
