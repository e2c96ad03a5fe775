import PingDelivery.Bytes

/-! # Calls on a store

A store keeps bytes under keys. There are four calls; each either gives its answer or fails, and a
failed call has had no effect. Keys become file names, so their form is narrow. -/

namespace PingDelivery.Store

inductive Error where
  | io (reason : String)
  | invalidKey (key : String)
  | invalidPath (path : String)
  deriving DecidableEq, Repr

def Error.text : Error → String
  | io reason => "IO error: " ++ reason
  | invalidKey key => "Invalid storage key: " ++ key
  | invalidPath path => "Invalid storage path: " ++ path

def isKeyChar (c : Char) : Bool := c.isAlphanum || c == '-' || c == '_'

/-- One to 128 letters, digits, hyphens and underscores. -/
def ValidKey (key : String) : Prop :=
  key.toList ≠ [] ∧ key.toList.length ≤ 128 ∧ key.toList.all isKeyChar = true

instance (key : String) : Decidable (ValidKey key) := by unfold ValidKey; infer_instance

inductive Call where
  | put (key : String) (bytes : Bytes)
  | get (key : String)
  | delete (key : String)
  | list
  deriving DecidableEq

namespace Call

/-- What a call gives when it succeeds. -/
def Answer : Call → Type
  | put _ _ | delete _ => Unit
  | get _ => Option Bytes
  | list => List String

def name : Call → String
  | put _ _ => "put"
  | get _ => "get"
  | delete _ => "delete"
  | list => "list"

/-- The key that a call is about. -/
def key? : Call → Option String
  | put k _ | get k | delete k => some k
  | list => none

/-- Whether the call may change the store. -/
def writes : Call → Bool
  | put _ _ | delete _ => true
  | get _ | list => false

end Call

abbrev Result (c : Call) := Except Error c.Answer

end PingDelivery.Store
