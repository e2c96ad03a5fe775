import PingDelivery.Bytes
import PingDelivery.Dict

/-! # A file system

Directories and files below one top directory, by their path. The operations are those a store
needs, each a single step of the operating system; a step that fails has no effect. -/

namespace PingDelivery.Store

/-- Names from the top directory down. -/
abbrev Path := List String

namespace Path

/-- Names between slashes; an empty name and a single point mean nothing, two points go up. -/
def ofText (s : String) : Path :=
  ((s.splitOn "/").foldl (fun acc n =>
    if n = "" ∨ n = "." then acc else if n = ".." then acc.tail else n :: acc) []).reverse

def key (p : Path) : String := "/".intercalate p

/-- Every path from the top to this one, the top itself apart. -/
def prefixes (p : Path) : List Path := (List.range p.length).map fun n => p.take (n + 1)

end Path

inductive Entry where
  | file (content : Bytes)
  | directory
  deriving DecidableEq

/-- Why the operating system refuses a step. -/
inductive OsError where
  | notFound
  | alreadyExists
  | notDirectory
  | isDirectory
  deriving DecidableEq, Repr

def OsError.text : OsError → String
  | notFound => "No such file or directory (os error 2)"
  | alreadyExists => "File exists (os error 17)"
  | notDirectory => "Not a directory (os error 20)"
  | isDirectory => "Is a directory (os error 21)"

structure FileSystem where
  entries : Dict Entry
  deriving DecidableEq

namespace FileSystem

def empty : FileSystem := ⟨.empty⟩

/-- The top directory always exists. -/
def entryAt (fs : FileSystem) (p : Path) : Option Entry :=
  if p = [] then some .directory else fs.entries.get? p.key

def put (fs : FileSystem) (p : Path) (e : Entry) : FileSystem := ⟨fs.entries.insert p.key e⟩

def erase (fs : FileSystem) (p : Path) : FileSystem := ⟨fs.entries.erase p.key⟩

/-- What is wrong with the way to a path, if anything: every directory above it must be one. -/
def blocked (fs : FileSystem) (p : Path) : Option OsError :=
  p.prefixes.dropLast.findSome? fun q =>
    match fs.entryAt q with
    | some .directory => none
    | some (.file _) => some .notDirectory
    | none => some .notFound

/-- Names directly below a directory, in order. -/
def children (fs : FileSystem) (dir : Path) : List String :=
  let pre := if dir = [] then [] else dir.key.toList ++ ['/']
  fs.entries.keys.filterMap fun k =>
    let k := k.toList
    let name := k.drop pre.length
    if pre.isPrefixOf k && !name.isEmpty && !name.contains '/' then some (String.ofList name)
    else none

/-! ## Steps -/

inductive Step where
  | create (p : Path)
  | write (p : Path) (content : Bytes)
  | sync (p : Path)
  | rename (source target : Path)
  | remove (p : Path)
  deriving DecidableEq

/-- Opens a file for writing and empties it. -/
def create (fs : FileSystem) (p : Path) : Except OsError FileSystem :=
  match fs.blocked p, fs.entryAt p with
  | some e, _ => .error e
  | none, some .directory => .error .isDirectory
  | none, _ => .ok (fs.put p (.file []))

def rename (fs : FileSystem) (source target : Path) : Except OsError FileSystem :=
  match fs.entryAt source, fs.entryAt target with
  | some (.file _), some .directory => .error .isDirectory
  | some e, _ => .ok ((fs.erase source).put target e)
  | none, _ => .error .notFound

def remove (fs : FileSystem) (p : Path) : Except OsError FileSystem :=
  match fs.blocked p, fs.entryAt p with
  | some e, _ => .error e
  | none, some .directory => .error .isDirectory
  | none, some (.file _) => .ok (fs.erase p)
  | none, none => .error .notFound

def read (fs : FileSystem) (p : Path) : Except OsError Bytes :=
  match fs.blocked p, fs.entryAt p with
  | some e, _ => .error e
  | none, some (.file b) => .ok b
  | none, some .directory => .error .isDirectory
  | none, none => .error .notFound

def list (fs : FileSystem) (p : Path) : Except OsError (List String) :=
  match fs.blocked p, fs.entryAt p with
  | some e, _ => .error e
  | none, some .directory => .ok (fs.children p)
  | none, some (.file _) => .error .notDirectory
  | none, none => .error .notFound

/-- Makes a directory and those missing above it. -/
def makeDirectories (fs : FileSystem) (p : Path) : Except OsError FileSystem :=
  p.prefixes.foldlM (fun fs q =>
    match fs.entryAt q with
    | some .directory => .ok fs
    | some (.file _) => .error (if q = p then .alreadyExists else .notDirectory)
    | none => .ok (fs.put q .directory)) fs

def Step.apply (fs : FileSystem) : Step → Except OsError FileSystem
  | .create p => fs.create p
  | .write p b => .ok (fs.put p (.file b))
  | .sync _ => .ok fs
  | .rename s t => fs.rename s t
  | .remove p => fs.remove p

/-- Takes steps until one fails; the effects of those before it stay. -/
def follow (fs : FileSystem) : List Step → Except OsError Unit × FileSystem
  | [] => (.ok (), fs)
  | s :: r =>
    match s.apply fs with
    | .ok fs => fs.follow r
    | .error e => (.error e, fs)

end FileSystem
end PingDelivery.Store
