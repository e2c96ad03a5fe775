import PingDelivery.Json.Typed
import PingDelivery.Json.Writer

/-! # Metric values

A metric holds one value of one of five types. `typeName` is the group it is sent in and `content`
the value it is sent as; `json` is the form that names the type beside the value, and `read` reads
that form. -/

namespace PingDelivery

inductive Metric where
  | counter (n : Int64)
  | quantity (n : Int64)
  | boolean (b : Bool)
  | string (s : String)
  | stringList (l : List String)
  deriving DecidableEq

namespace Metric

def typeName : Metric → String
  | counter _ => "counter"
  | quantity _ => "quantity"
  | boolean _ => "boolean"
  | string _ => "string"
  | stringList _ => "string_list"

def content : Metric → Json
  | counter n | quantity n => .int n.toInt
  | boolean b => .bool b
  | string s => .str s
  | stringList l => .list .str l

def variantName : Metric → String
  | counter _ => "Counter"
  | quantity _ => "Quantity"
  | boolean _ => "Boolean"
  | string _ => "String"
  | stringList _ => "StringList"

def json (m : Metric) : Json := .obj [(m.variantName, m.content)]

def ofVariant? : String × Json → Option Metric
  | ("Counter", .int n) => some (counter (Int64.ofInt n))
  | ("Quantity", .int n) => some (quantity (Int64.ofInt n))
  | ("Boolean", .bool b) => some (boolean b)
  | ("String", .str s) => some (string s)
  | ("StringList", .arr l) => (l.mapM Json.str?).map stringList
  | _ => none

def contentReader (name : String) : Option (Option (Json.Reader Json)) :=
  if name = "Counter" ∨ name = "Quantity" then some (some Json.Reader.int64)
  else if name = "Boolean" then some (some Json.Reader.boolean)
  else if name = "String" then some (some Json.Reader.text)
  else if name = "StringList" then some (some Json.Reader.texts)
  else none

def reader : Json.Reader Metric := do
  match ofVariant? (← Json.Reader.variant contentReader) with
  | some m => return m
  | none => Json.Reader.fail .dataError

def read (s : String) : Except Json.Fault Metric := Json.Reader.run reader s

end Metric
end PingDelivery
