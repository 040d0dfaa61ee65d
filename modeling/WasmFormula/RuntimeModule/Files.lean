import WasmFormula.RuntimeModule

/-!
# Runtime modules in files

A runtime module may be given by a path. A `FileStore` is a tree of directories and files with a
working directory, and `FileStore.read` follows a path through it, name by name: an empty name and `.`
stay where they are, `..` goes up, and every other name goes down.
-/

namespace WasmFormula

/-- What a path leads to. -/
inductive FileNode where
  | directory
  | file (bytes : Bytes)
  deriving DecidableEq

/-- A store of files. Places in it are given by the names on the way to them, last one first. -/
structure FileStore where
  workingDirectory : List String
  node? : List String → Option FileNode

namespace FileStore

/-- The greatest number of bytes of a name. -/
def maxNameLength : Nat := 255

/-- A path has fewer bytes than this. -/
def pathBound : Nat := 4096

/-- Follow names from a place on. -/
def follow (store : FileStore) (place : List String) : List String → Except ReadFailure FileNode
  | [] =>
    match store.node? place with
    | some node => .ok node
    | none => .error .notFound
  | name :: rest =>
    match store.node? place with
    | none => .error .notFound
    | some (.file _) => .error .notDirectory
    | some .directory =>
      if name = "" ∨ name = "." then store.follow place rest
      else if name = ".." then store.follow place.tail rest
      else if maxNameLength < name.utf8ByteSize then .error .nameTooLong
      else store.follow (name :: place) rest

/-- What a path leads to. A path that starts with a slash starts at the root. -/
def lookup (store : FileStore) (path : String) : Except ReadFailure FileNode :=
  if path.contains '\x00' then .error .badName
  else if path = "" then .error .notFound
  else if pathBound ≤ path.utf8ByteSize then .error .nameTooLong
  else
    store.follow (if path.startsWith "/" then [] else store.workingDirectory) (path.splitOn "/")

/-- The bytes of the file behind a path. -/
def read (store : FileStore) (path : String) : Except ReadFailure Bytes :=
  match store.lookup path with
  | .ok (.file bytes) => .ok bytes
  | .ok .directory => .error .isDirectory
  | .error failure => .error failure

/-- The directories right below the root. -/
def rootDirectories : List String :=
  ["bin", "boot", "dev", "etc", "home", "lib", "media", "mnt", "opt", "proc", "root", "run", "sbin",
    "srv", "sys", "tmp", "usr", "var"]

/-- The name of the working directory, which is a directory below `home`. -/
def workName : String := "work"

/-- A store with the usual directories below the root, an empty working directory and the null
device. -/
def bare : FileStore where
  workingDirectory := [workName, "home"]
  node?
    | [] => some .directory
    | [name] => if name ∈ rootDirectories then some .directory else none
    | place =>
      if place = ["null", "dev"] then some (.file [])
      else if place = [workName, "home"] then some .directory
      else none

/-- A store with one file more, in the working directory. -/
def withFile (store : FileStore) (name : String) (bytes : Bytes) : FileStore :=
  { store with
    node? := fun place =>
      if place = name :: store.workingDirectory then some (.file bytes) else store.node? place }

end FileStore

/-- Load the runtime module behind a path. -/
def RuntimeModule.ofFile (store : FileStore) (path : String) : Except LoadError RuntimeModule :=
  match store.read path with
  | .ok bytes => RuntimeModule.ofBytes bytes
  | .error failure => .error (.unreadable failure)

end WasmFormula
