import Bracketry.Nesting
import Bracketry.Program.Basic
import Bracketry.Source.Lex

/-!
# Definitions in a token stream

A definition `{name body}` stands between others at the top level of a program; what remains of the stream is the entry point.

* `splitAtFirst`, `splitAtLast` : a stream cut at a token;
* `ofSegment` : the name and the body between two braces;
* `Program.collect` : adds every definition of a stream to a program and gives the tokens that are left. The first
  closing brace ends the definition that the last opening brace before it began;
* `Program.ofTokens`, `Program.ofSource` : the program of a stream and of a source text.
-/

namespace Bracketry

namespace Definition

def splitAtFirst (token : Token) : List Token → Option (List Token × List Token)
  | [] => none
  | t :: tokens =>
    if t = token then some ([], tokens)
    else (splitAtFirst token tokens).map fun (before, after) => (t :: before, after)

def splitAtLast (token : Token) : List Token → Option (List Token × List Token)
  | [] => none
  | t :: tokens =>
    match splitAtLast token tokens with
    | some (before, after) => some (t :: before, after)
    | none => if t = token then some ([], tokens) else none

theorem length_of_splitAtFirst {token : Token} {tokens before after : List Token}
    (h : splitAtFirst token tokens = some (before, after)) :
    tokens.length = before.length + after.length + 1 := by
  fun_induction splitAtFirst token tokens generalizing before after with
  | case1 => cases h
  | case2 =>
    cases h
    simp
  | case3 t tokens _ ih =>
    obtain ⟨⟨b, a⟩, hcut, heq⟩ := Option.map_eq_some_iff.1 h
    cases heq
    simp only [List.length_cons, ih hcut]
    omega

/-- The name and the body that stand between the braces of a definition. -/
def ofSegment : List Token → Except Error (String × List Token)
  | .identifier name :: body => .ok (name, body.map Token.bindParameter)
  | [] => .error (.invalidName "")
  | token :: _ => .error (.invalidName token.text)

end Definition

namespace Program
open Definition

/-- Adds every definition of a stream to the program and gives the tokens that are left. -/
def collect (program : Program) (tokens : List Token) : Except Error (Program × List Token) :=
  match _closes : splitAtFirst (.closing .definition) tokens with
  | none => .ok (program, tokens)
  | some (upToCloser, after) =>
    match splitAtLast (.opening .definition) upToCloser with
    | none => .error (.structural .definitionNotOpened)
    | some (before, segment) => do
      let (name, body) ← ofSegment segment
      let program ← program.insert name body
      let (program, rest) ← program.collect after
      return (program, before ++ rest)
termination_by tokens.length
decreasing_by
  have := length_of_splitAtFirst _closes
  omega

/-- The program of a token stream. The argument of an application has no meaning at the top level. -/
def ofTokens (tokens : List Token) : Except Error Program := do
  let (program, rest) ← (ofEntry []).collect tokens
  if rest.any Token.isArgument then throw .argumentOutsideApplication
  return program.setEntry rest

/-- The program of a source text: its words are tokens, its brackets are well nested, its definitions are in order. -/
def ofSource (source : String) : Except Error Program := do
  let tokens ← (Source.lex source).mapError Error.word
  (checkBrackets tokens).mapError Error.brackets
  ofTokens tokens

end Program

end Bracketry
