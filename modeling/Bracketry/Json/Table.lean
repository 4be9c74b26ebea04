import Bracketry.Json.Number
import Bracketry.Json.Text

/-!
# An object of lists of tokens

The only JSON texts that are read are objects whose values are lists of strings, each string the text of a token. The text is
read from left to right, and the first problem decides.

* `faultOfValue` : the fault that a value of another shape is; scalars are read to their end first;
* `readToken`, `readList`, `readMember`, `readMembers` : the parts of such an object;
* `readTable` : a whole text as its members in order, repeated names included.
-/

namespace Bracketry.Json

def isSpace (c : Char) : Bool := c == ' ' || c == '\t' || c == '\n' || c == '\r'

def skipSpace (text : List Char) : List Char := text.dropWhile isSpace

theorem length_skipSpace_le (text : List Char) : (skipSpace text).length ≤ text.length :=
  (List.dropWhile_suffix isSpace).length_le

/-! ## Values of another shape -/

/-- The fault that the rest of `null`, `true` or `false` is. -/
def faultOfConstant : List Char → List Char → InterchangeFault
  | [], _ => .misshapen
  | _ :: _, [] => .truncated
  | e :: expected, c :: text => if c = e then faultOfConstant expected text else .malformed

/-- The fault that a value is where one of another shape is wanted. -/
def faultOfValue : List Char → InterchangeFault
  | [] => .truncated
  | '[' :: _ | '{' :: _ => .misshapen
  | 'n' :: text => faultOfConstant ['u', 'l', 'l'] text
  | 't' :: text => faultOfConstant ['r', 'u', 'e'] text
  | 'f' :: text => faultOfConstant ['a', 'l', 's', 'e'] text
  | '"' :: text =>
    match readString text with
    | .error fault => fault
    | .ok _ => .misshapen
  | '-' :: text =>
    match text with
    | [] => .truncated
    | c :: _ => if c.isDigit then faultOfNumber text else .malformed
  | c :: text => if c.isDigit then faultOfNumber (c :: text) else .malformed

/-! ## Lists -/

def readToken (text : List Char) : Except InterchangeFault (Token × List Char) :=
  match text with
  | '"' :: text =>
    match readString text with
    | .error fault => .error fault
    | .ok (word, rest) =>
      match Token.ofWord (String.ofList word) with
      | .error fault => .error (.rejected fault)
      | .ok token => .ok (token, rest)
  | text => .error (faultOfValue text)

theorem length_of_readToken {text rest : List Char} {token : Token} (h : readToken text = .ok (token, rest)) :
    rest.length < text.length := by
  unfold readToken at h
  split at h
  · split at h
    · cases h
    · rename_i hString
      split at h
      · cases h
      · cases h
        have := length_of_readString hString
        simp only [List.length_cons]
        omega
  · cases h

/-- The tokens of a list from one of them on. -/
def readTokens (text : List Char) : Except InterchangeFault (List Token × List Char) :=
  match _token : readToken text with
  | .error fault => .error fault
  | .ok (token, rest) =>
    match _next : skipSpace rest with
    | [] => .error .truncated
    | ']' :: rest => .ok ([token], rest)
    | ',' :: rest =>
      match _element : skipSpace rest with
      | [] => .error .truncated
      | ']' :: _ => .error .malformed
      | c :: rest => (readTokens (c :: rest)).map fun (tokens, rest) => (token :: tokens, rest)
    | _ => .error .malformed
termination_by text.length
decreasing_by
  have h₁ := length_of_readToken _token
  have h₂ := congrArg List.length _next
  have h₃ := congrArg List.length _element
  have h₄ := length_skipSpace_le
  grind

def readList (text : List Char) : Except InterchangeFault (List Token × List Char) :=
  match skipSpace text with
  | [] => .error .truncated
  | ']' :: rest => .ok ([], rest)
  | text => readTokens text

theorem length_of_readTokens {text rest : List Char} {tokens : List Token}
    (h : readTokens text = .ok (tokens, rest)) : rest.length < text.length := by
  have hSkip := length_skipSpace_le
  fun_induction readTokens text generalizing tokens rest with
  | case1 => cases h
  | case2 => cases h
  | case3 text token after hToken rest' hNext =>
    cases h
    have := length_of_readToken hToken
    have := congrArg List.length hNext
    have := hSkip after
    simp only [List.length_cons] at *
    omega
  | case4 => cases h
  | case5 => cases h
  | case6 text token after hToken rest' hNext c more _ hElement ih =>
    obtain ⟨⟨tokens', rest''⟩, hRest, heq⟩ := exists_of_map_eq_ok h
    cases heq
    have := length_of_readToken hToken
    have := congrArg List.length hNext
    have := congrArg List.length hElement
    have := hSkip after
    have := hSkip rest'
    have := ih hRest
    simp only [List.length_cons] at *
    omega
  | case7 => cases h

theorem length_of_readList {text rest : List Char} {tokens : List Token} (h : readList text = .ok (tokens, rest)) :
    rest.length < text.length := by
  have hSkip := length_skipSpace_le text
  unfold readList at h
  split at h
  · cases h
  · rename_i hText
    cases h
    have := congrArg List.length hText
    simp only [List.length_cons] at *
    omega
  · have := length_of_readTokens h
    omega

/-! ## Objects -/

/-- A name and its list, from the quote of the name on. -/
def readMember (text : List Char) : Except InterchangeFault ((String × List Token) × List Char) :=
  match text with
  | '"' :: text =>
    match readString text with
    | .error fault => .error fault
    | .ok (name, rest) =>
      match skipSpace rest with
      | [] => .error .truncated
      | ':' :: rest =>
        match skipSpace rest with
        | '[' :: rest => (readList rest).map fun (tokens, rest) => ((String.ofList name, tokens), rest)
        | text => .error (faultOfValue text)
      | _ => .error .malformed
  | [] => .error .truncated
  | _ => .error .malformed

theorem length_of_readMember {text rest : List Char} {member : String × List Token}
    (h : readMember text = .ok (member, rest)) : rest.length < text.length := by
  have hSkip := length_skipSpace_le
  unfold readMember at h
  split at h
  · split at h
    · cases h
    · rename_i name afterName hName
      split at h
      · cases h
      · rename_i afterColon hColon
        split at h
        · rename_i afterBracket hBracket
          obtain ⟨⟨tokens, rest'⟩, hList, heq⟩ := exists_of_map_eq_ok h
          cases heq
          have := length_of_readString hName
          have := congrArg List.length hColon
          have := congrArg List.length hBracket
          have := length_of_readList hList
          have := hSkip afterName
          have := hSkip afterColon
          simp only [List.length_cons] at *
          omega
        · cases h
      · cases h
  · cases h
  · cases h

def readMembers (text : List Char) : Except InterchangeFault (List (String × List Token) × List Char) :=
  match _member : readMember text with
  | .error fault => .error fault
  | .ok (member, rest) =>
    match _next : skipSpace rest with
    | [] => .error .truncated
    | '}' :: rest => .ok ([member], rest)
    | ',' :: rest => (readMembers (skipSpace rest)).map fun (members, rest) => (member :: members, rest)
    | _ => .error .malformed
termination_by text.length
decreasing_by
  have h₁ := length_of_readMember _member
  have h₂ := congrArg List.length _next
  have h₃ := length_skipSpace_le
  grind

def readObject (text : List Char) : Except InterchangeFault (List (String × List Token) × List Char) :=
  match skipSpace text with
  | [] => .error .truncated
  | '}' :: rest => .ok ([], rest)
  | text => readMembers text

/-- A whole text as its members in order. Nothing but space may follow the object. -/
def readTable (text : List Char) : Except InterchangeFault (List (String × List Token)) :=
  match skipSpace text with
  | '{' :: text =>
    match readObject text with
    | .error fault => .error fault
    | .ok (members, rest) => if (skipSpace rest).isEmpty then .ok members else .error .malformed
  | text => .error (faultOfValue text)

end Bracketry.Json
