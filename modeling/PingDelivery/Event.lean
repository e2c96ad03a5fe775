import PingDelivery.Dict
import PingDelivery.Json.Typed
import PingDelivery.Json.Writer
import PingDelivery.Time.Instant

/-! # Recorded events

An event says when something happened, in milliseconds since the epoch, and what. Its extra values
are shown only if there are any. -/

namespace PingDelivery

structure Event where
  timestamp : Int64
  category : String
  name : String
  extra : Dict String
  deriving DecidableEq

namespace Event

/-- An event of this moment, without extra values. -/
def happened (now : Time.Instant) (category name : String) : Event :=
  ⟨Int64.ofInt now.millis, category, name, .empty⟩

def withExtra (e : Event) (key value : String) : Event :=
  { e with extra := e.extra.insert key value }

def extraJson (d : Dict String) : Json := .obj (d.entries.map fun p => (p.1, .str p.2))

def json (e : Event) : Json :=
  .obj ([("timestamp", .int e.timestamp.toInt), ("category", .str e.category),
    ("name", .str e.name)] ++ (if e.extra.isEmpty then [] else [("extra", extraJson e.extra)]))

def fields : List Json.Reader.Field :=
  [⟨"timestamp", Json.Reader.int64, none, none⟩, ⟨"category", Json.Reader.text, none, none⟩,
    ⟨"name", Json.Reader.text, none, none⟩,
    ⟨"extra", Json.Reader.textMap, some (.obj []), some (.obj [])⟩]

def textEntries? (l : List (String × Json)) : Option (Dict String) :=
  (l.mapM fun (p : String × Json) => p.2.str?.map fun s => (p.1, s)).map Dict.ofList

def ofValues? : List Json → Option Event
  | [.int t, .str c, .str n, .obj e] =>
    (textEntries? e).map fun extra => ⟨Int64.ofInt t, c, n, extra⟩
  | _ => none

def reader : Json.Reader Event := do
  match ofValues? (← Json.Reader.record fields) with
  | some e => return e
  | none => Json.Reader.fail .dataError

def read (s : String) : Except Json.Fault Event := Json.Reader.run reader s

end Event
end PingDelivery
