/-! # JSON values

A number is an integer of at most 64 bits or, failing that, the text it was written with. An
object keeps its members in the order of the document. -/

namespace PingDelivery

inductive Json where
  | null
  | bool (b : Bool)
  | int (n : Int)
  | real (text : String)
  | str (s : String)
  | arr (items : List Json)
  | obj (members : List (String × Json))
  deriving Inhabited

namespace Json

/-- The member of that name, if the value is an object that has one. -/
def field? : Json → String → Option Json
  | obj ms, k => (ms.find? fun m => m.1 == k).map (·.2)
  | _, _ => none

def str? : Json → Option String
  | str s => some s
  | _ => none

def int? : Json → Option Int
  | int n => some n
  | _ => none

def nat? : Json → Option Nat
  | int n => if 0 ≤ n then some n.toNat else none
  | _ => none

def bool? : Json → Option Bool
  | bool b => some b
  | _ => none

def arr? : Json → Option (List Json)
  | arr l => some l
  | _ => none

def obj? : Json → Option (List (String × Json))
  | obj l => some l
  | _ => none

def nat (n : Nat) : Json := int n

/-- Null where there is nothing. -/
def option {α : Type} (f : α → Json) : Option α → Json
  | none => null
  | some a => f a

def list {α : Type} (f : α → Json) (l : List α) : Json := arr (l.map f)

/-- A member that is left out where there is nothing to show. -/
def optional (name : String) : Option Json → List (String × Json)
  | none => []
  | some v => [(name, v)]

end Json
end PingDelivery
