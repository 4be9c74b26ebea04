/-!
# Paths

Paths as texts. A part that is empty or a single dot, other than the first, does not count for `parent?`.

* `parent?` : the path without its last part, empty if there was only one;
* `withoutExtension` : the path without the last dot of its file name and what follows it;
* `Route`, `Route.ofPath` : a path as it is followed from directory to directory, part by part.
-/

namespace Bracketry.CommandLine

namespace Path

/-- Takes the parts that do not count from the end of a path that is given backwards. -/
def trim : List Char → List Char
  | '/' :: c :: path => trim (c :: path)
  | '.' :: '/' :: path => trim ('/' :: path)
  | path => path

/-- The path without its last part; the root has no parent. -/
def parent? (path : String) : Option String :=
  match trim path.toList.reverse with
  | [] | ['/'] => none
  | backwards => some (String.ofList (trim (backwards.dropWhile (· != '/'))).reverse)

/-- The path without the extension of its file name. A name that starts with its only dot has no extension. -/
def withoutExtension (path : String) : String :=
  let backwards := trim path.toList.reverse
  let name := (backwards.takeWhile (· != '/')).reverse
  match (backwards.takeWhile (· != '/')).dropWhile (· != '.') with
  | '.' :: c :: stem =>
    if name == ['.', '.'] then path
    else String.ofList (c :: stem ++ backwards.dropWhile (· != '/')).reverse
  | _ => path

/-- The texts between slashes, empty ones included. -/
def split : List Char → List (List Char)
  | [] => [[]]
  | c :: path =>
    if c = '/' then [] :: split path
    else match split path with
      | [] => [[c]]
      | part :: parts => (c :: part) :: parts

end Path

/-- A path as it is followed. Slashes count only at its two ends, however many stand together. -/
structure Route where
  /-- It starts at the root. -/
  fromRoot : Bool
  /-- Its parts in order; a dot stays where it is, and two dots lead back. -/
  parts : List String
  /-- It ends in a slash, so it can only lead to a directory. -/
  toDirectory : Bool
deriving DecidableEq, Repr

def Route.ofPath (path : String) : Route where
  fromRoot := path.toList.head? == some '/'
  parts := ((Path.split path.toList).filter (!·.isEmpty)).map String.ofList
  toDirectory := path.toList.getLast? == some '/'

end Bracketry.CommandLine
