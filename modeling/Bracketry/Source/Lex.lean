import Bracketry.Token.Read
import Bracketry.Source.Comment
import Bracketry.Source.Word

/-!
# From source text to tokens and back

* `Source.wordsOf` : the words of a source text without its comments;
* `Source.lex` : its tokens, or the fault of the first word that is none;
* `Source.render` : tokens as text, one space between them.
-/

namespace Bracketry.Source

def stripComments (source : String) : String := String.ofList (removeComments source.toList)

def splitWords (text : String) : List String := (words text.toList).map String.ofList

def wordsOf (source : String) : List String := splitWords (stripComments source)

/-- The tokens of a source text, or the fault of the first word that is no token. -/
def lex (source : String) : Except WordFault (List Token) := (wordsOf source).mapM Token.ofWord

/-- Tokens as text that lexes to the same tokens. -/
def render (tokens : List Token) : String := " ".intercalate (tokens.map Token.text)

end Bracketry.Source
