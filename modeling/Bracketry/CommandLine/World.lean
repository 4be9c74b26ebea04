import Bracketry.CommandLine.Host
import Bracketry.CommandLine.Path

/-!
# A world of values

Surroundings of the command line as a value: a tree of directories, files, devices and programs, and the standard streams.

* `Node`, `World` : the tree and all around it;
* `World.ofFiles` : a working directory with some files in a common tree, and some programs;
* `World.walk`, `World.locate`, `World.find` : where a path leads;
* `World.takeInput`, `World.bytesAt`, `World.create`, `World.write`, `World.makeDirectories`, `World.compile` : what is done there;
* the instance of `Host` for `StateM World` : the requests of the command line.
-/

namespace Bracketry.CommandLine

/-- A file that is a channel. -/
inductive Device where
  /-- Takes everything and has nothing. -/
  | null
  /-- Has no room for anything. -/
  | full
  | input
  | output
  /-- Standard error. -/
  | log
deriving DecidableEq, Repr

inductive Node where
  | directory
  | file (bytes : List UInt8)
  | device (device : Device)
  /-- A program that does nothing but end with a status. -/
  | executable (status : Nat)
deriving DecidableEq, Repr

/-- A place in the tree: the names that lead to it from the root. -/
abbrev Place := List String

structure World where
  /-- The tree; what is at a place is the first node for it. -/
  nodes : List (Place × Node) := []
  /-- The directory that paths start from, unless they start at the root. -/
  home : Place := []
  /-- The directories in which programs are looked for by name, as paths. -/
  searchPath : List String := []
  /-- What is left of standard input. -/
  input : List UInt8 := []
  /-- The reason why standard input cannot be read, if there is one. -/
  inputFault : Option OsFault := none
  output : List UInt8 := []
  /-- The compilers that were started, with source and executable, latest first. -/
  started : List (String × String × String) := []
deriving DecidableEq, Repr

namespace World

/-- The bytes that a name may have. -/
def longestName : Nat := 255

def longestPath : Nat := 4095

/-! ## Where paths lead -/

/-- What is at a place. The root is a directory. -/
def node? (world : World) : Place → Option Node
  | [] => some .directory
  | place => world.nodes.lookup place

def put (world : World) (place : Place) (node : Node) : World :=
  { world with nodes := (place, node) :: world.nodes.filter (·.1 != place) }

/-- The fault that it is to look into a place that is no directory. -/
def checkDirectory (world : World) (place : Place) : Except OsFault Unit :=
  match world.node? place with
  | some .directory => .ok ()
  | some _ => .error .notDirectory
  | none => .error .notFound

/-- The place to which one part of a path leads from a directory. There need not be anything. -/
def enter (world : World) (place : Place) (part : String) : Except OsFault Place := do
  world.checkDirectory place
  if part = "." then return place
  if part = ".." then return place.dropLast
  if longestName < part.utf8ByteSize then throw .nameTooLong
  return place ++ [part]

def walk (world : World) (place : Place) (parts : List String) : Except OsFault Place := parts.foldlM world.enter place

/-- The directory in which the last part of a route is looked up, and that part; the root is the dot in itself. -/
def locate (world : World) (route : Route) : Except OsFault (Place × String) := do
  let start := if route.fromRoot then [] else world.home
  let directory ← world.walk start route.parts.dropLast
  world.checkDirectory directory
  return (directory, route.parts.getLast?.getD ".")

/-- The route of a path, if the path is neither empty nor too long. -/
def routeOf (path : String) : Except OsFault Route :=
  if path.isEmpty then .error .notFound
  else if longestPath < path.utf8ByteSize then .error .nameTooLong
  else .ok (Route.ofPath path)

def find (world : World) (path : String) : Except OsFault Node := do
  let route ← routeOf path
  let (directory, last) ← world.locate route
  let place ← world.enter directory last
  match world.node? place with
  | none => throw .notFound
  | some .directory => return .directory
  | some node => if route.toDirectory then throw .notDirectory else return node

/-! ## Files -/

/-- All that is left of standard input, which is used up by this. -/
def takeInput (world : World) : Except OsFault (List UInt8 × World) :=
  match world.inputFault with
  | some fault => .error fault
  | none => .ok (world.input, { world with input := [] })

def bytesAt (world : World) (path : String) : Except OsFault (List UInt8 × World) := do
  match ← world.find path with
  | .directory => throw .isDirectory
  | .file bytes => return (bytes, world)
  | .device .input => world.takeInput
  | .device .full => throw (.other "Cannot allocate memory (os error 12)")
  | .device _ => return ([], world)
  | .executable status => return ([0x7F, 0x45, 0x4C, 0x46, 0xFF, status.toUInt8], world)

/-- A name that always leads to a directory. -/
def isDots (part : String) : Bool := part == "." || part == ".."

/-- Opens a file for writing, empties it or makes it, and gives its place. -/
def create (world : World) (path : String) : Except OsFault (Place × World) := do
  let route ← routeOf path
  let (directory, last) ← world.locate route
  if isDots last || route.toDirectory then throw .isDirectory
  let place ← world.enter directory last
  match world.node? place with
  | some .directory => throw .isDirectory
  | some (.device _) => return (place, world)
  | some (.executable _) => throw .permissionDenied
  | some (.file _) | none => return (place, world.put place (.file []))

def write (world : World) (place : Place) (bytes : List UInt8) : Except OsFault World :=
  match world.node? place with
  | some (.device .full) => if bytes.isEmpty then .ok world else .error .noSpace
  | some (.device .output) => .ok { world with output := world.output ++ bytes }
  | some (.device _) => .ok world
  | _ => .ok (world.put place (.file bytes))

def writeFile (world : World) (path : String) (bytes : List UInt8) : Except OsFault World := do
  let (place, world) ← world.create path
  world.write place bytes

/-! ## Directories -/

def makeDirectory (world : World) (route : Route) : Except OsFault World := do
  let (directory, last) ← world.locate route
  if isDots last then throw .exists
  let place ← world.enter directory last
  match world.node? place with
  | some _ => throw .exists
  | none => return world.put place .directory

def isDirectory (world : World) (route : Route) : Bool :=
  match world.locate route with
  | .error _ => false
  | .ok (directory, last) =>
    match world.enter directory last with
    | .error _ => false
    | .ok place => world.node? place == some .directory

def ensureDirectory (world : World) (route : Route) : Except OsFault World :=
  match world.makeDirectory route with
  | .error fault => if world.isDirectory route then .ok world else .error fault
  | world => world

/-- Makes a directory, and those around it if that is what it takes. The parts are given backwards. -/
def makeAround (world : World) (fromRoot : Bool) : List String → Except OsFault World
  | [] => .ok world
  | part :: parts =>
    let route : Route := { fromRoot, parts := (part :: parts).reverse, toDirectory := false }
    match world.ensureDirectory route with
    | .error .notFound => do (← world.makeAround fromRoot parts).ensureDirectory route
    | result => result

/-- Makes the directory of a path and those around it, as far as they do not exist. -/
def makeDirectories (world : World) (path : String) : Except OsFault World := do
  let route ← routeOf path
  world.makeAround route.fromRoot route.parts.reverse

/-! ## Programs -/

/-- Starts the program that a path leads to, and gives its status. -/
def statusAt (world : World) (path : String) : Except OsFault Nat := do
  match ← world.find path with
  | .executable status => return status
  | _ => throw .permissionDenied

/-- Starts the first program of that name in the directories given. A node that cannot be started is passed over, but counts
in the end. -/
def search (world : World) (name : String) (fault : OsFault) : List String → Except OsFault Nat
  | [] => .error fault
  | directory :: directories =>
    match world.statusAt (directory ++ "/" ++ name) with
    | .ok status => .ok status
    | .error .permissionDenied => world.search name .permissionDenied directories
    | .error _ => world.search name fault directories

/-- Starts a compiler. A name with a slash is a path. -/
def compile (world : World) (compiler source binary : String) : Except OsFault (Nat × World) := do
  let status ←
    if compiler.toList.contains '/' then world.statusAt compiler
    else if compiler.isEmpty then throw .notFound
    else if longestName < compiler.utf8ByteSize then throw .nameTooLong
    else world.search compiler .notFound world.searchPath
  return (status, { world with started := (compiler, source, binary) :: world.started })

/-! ## A common tree -/

def commonDirectories : List Place :=
  [["bin"], ["dev"], ["etc"], ["home"], ["lib"], ["opt"], ["proc"], ["root"], ["run"], ["sbin"], ["sys"], ["tmp"],
    ["tmp", "work"], ["usr"], ["usr", "bin"], ["usr", "lib"], ["usr", "local"], ["usr", "local", "bin"], ["var"]]

def commonDevices : List (String × Device) :=
  [("null", .null), ("full", .full), ("stdin", .input), ("stdout", .output), ("stderr", .log)]

/-- A common tree with some programs and an empty working directory. -/
def common (programs : List (String × Nat)) : World where
  nodes :=
    commonDirectories.map (·, .directory) ++
    commonDevices.map (fun (name, device) => (["dev", name], .device device)) ++
    programs.flatMap fun (name, status) =>
      [(["bin", name], .executable status), (["usr", "bin", name], .executable status)]
  home := ["tmp", "work"]
  searchPath := ["/usr/local/bin", "/usr/bin", "/bin"]

/-- A common tree with some files in the working directory, and with the directories around them. -/
def ofFiles (programs : List (String × Nat)) (files : List (String × List UInt8)) : World :=
  files.foldl (fun world (path, bytes) =>
    let made : Except OsFault World := do
      let world ← match Path.parent? path with
        | none | some "" => .ok world
        | some parent => world.makeDirectories parent
      world.writeFile path bytes
    match made with
    | .ok world => world
    | .error _ => world) (common programs)

end World

def attempt {α : Type} (change : World → Except OsFault (α × World)) : StateM World (Except OsFault α) := fun world =>
  match change world with
  | .ok (a, world) => (.ok a, world)
  | .error fault => (.error fault, world)

instance : Host (StateM World) where
  readFile path := attempt fun world => world.bytesAt path
  readInput := attempt World.takeInput
  createFile path := attempt fun world => return ((), (← world.create path).2)
  createDirectories path := attempt fun world => return ((), ← world.makeDirectories path)
  writeFile path bytes := attempt fun world => return ((), ← world.writeFile path bytes)
  print bytes := modify fun world => { world with output := world.output ++ bytes }
  compile compiler source binary := attempt fun world => world.compile compiler source binary

end Bracketry.CommandLine
