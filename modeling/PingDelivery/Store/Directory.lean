import PingDelivery.Store.FileSystem
import PingDelivery.Store.Program

/-! # The directory store

One file a key. A write goes to a temporary file, which is then renamed over the record, so a
record is as whole as that file was; temporary files left behind by a crash are swept when the
directory is opened. Files of other names are left alone. -/

namespace PingDelivery.Store

structure Directory where
  files : FileSystem
  root : Path
  deriving DecidableEq

namespace Directory

def recordExtension : String := "ping"

def temporaryExtension : String := "tmp"

def recordPath (root : Path) (key : String) : Path := root ++ [key ++ "." ++ recordExtension]

def temporaryPath (root : Path) (key : String) : Path := root ++ [key ++ "." ++ temporaryExtension]

/-- A file name cut at its last point, unless there is none or nothing stands before it. -/
def splitName (name : String) : String × Option String :=
  let back := name.toList.reverse
  let ext := back.takeWhile (· ≠ '.')
  match back.drop ext.length with
  | [] | [_] => (name, none)
  | _ :: stem => (String.ofList stem.reverse, some (String.ofList ext.reverse))

def isTemporary (name : String) : Bool := (splitName name).2 == some temporaryExtension

/-- The key of a record's file name. -/
def keyOf? (name : String) : Option String :=
  let (stem, ext) := splitName name
  if ext = some recordExtension ∧ ValidKey stem then some stem else none

/-- The steps that write a record. -/
def putSteps (root : Path) (key : String) (b : Bytes) : List FileSystem.Step :=
  let tmp := temporaryPath root key
  [.create tmp, .write tmp b, .sync tmp, .rename tmp (recordPath root key), .sync root]

def deleteSteps (root : Path) (key : String) : List FileSystem.Step :=
  [.remove (recordPath root key), .sync root]

def osFailure (e : OsError) : Error := .io e.text

def put (d : Directory) (key : String) (b : Bytes) : Except Error Unit × Directory × List Notice :=
  match d.files.follow (putSteps d.root key b) with
  | (.ok (), fs) => (.ok (), { d with files := fs }, [.storedRecord key b.length])
  | (.error e, fs) => (.error (osFailure e), { d with files := fs }, [])

def get (d : Directory) (key : String) : Except Error (Option Bytes) :=
  match d.files.read (recordPath d.root key) with
  | .ok b => .ok (some b)
  | .error .notFound => .ok none
  | .error e => .error (osFailure e)

def delete (d : Directory) (key : String) : Except Error Unit × Directory × List Notice :=
  match d.files.follow (deleteSteps d.root key) with
  | (.ok (), fs) => (.ok (), { d with files := fs }, [.deletedRecord key])
  | (.error .notFound, _) => (.ok (), d, [])
  | (.error e, fs) => (.error (osFailure e), { d with files := fs }, [])

def keys (d : Directory) : Except Error (List String) :=
  match d.files.list d.root with
  | .ok names => .ok (names.filterMap keyOf?)
  | .error e => .error (osFailure e)

def serve : (c : Call) → Directory → Result c × Directory × List Notice
  | .put k b, d => if ValidKey k then d.put k b else (.error (.invalidKey k), d, [])
  | .get k, d => (if ValidKey k then d.get k else .error (.invalidKey k), d, [])
  | .delete k, d => if ValidKey k then d.delete k else (.error (.invalidKey k), d, [])
  | .list, d => (d.keys, d, [])

def backend : Backend Directory := ⟨serve⟩

/-! ## Opening -/

/-- Removes temporary files one by one and counts them. -/
def sweep (root : Path) : List String → Nat → FileSystem → Except OsError Nat × FileSystem
  | [], n, fs => (.ok n, fs)
  | name :: r, n, fs =>
    if isTemporary name then
      match fs.remove (root ++ [name]) with
      | .ok fs => sweep root r (n + 1) fs
      | .error .notFound => sweep root r n fs
      | .error e => (.error e, fs)
    else sweep root r n fs

/-- How messages name a directory of the session. -/
def display (root : Path) : String := "/".intercalate ("<root>" :: root)

/-- Makes the directory if it is missing and sweeps it. -/
def openAt (files : FileSystem) (root : Path) :
    Except Error Directory × FileSystem × List Notice :=
  match files.makeDirectories root with
  | .error e => (.error (osFailure e), files, [])
  | .ok files =>
    match files.list root with
    | .error e => (.error (osFailure e), files, [])
    | .ok names =>
      match sweep root names 0 files with
      | (.error e, files) => (.error (osFailure e), files, [])
      | (.ok n, files) =>
        (.ok ⟨files, root⟩, files,
          if 0 < n then [.sweptTemporaries n (display root)] else [])

end Directory
end PingDelivery.Store
