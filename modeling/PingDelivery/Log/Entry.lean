import PingDelivery.Json.Writer
import PingDelivery.Log.Level
import PingDelivery.Time.Rfc3339

/-! # Entries of the log

What one line of the log says, and the two forms it is written in. -/

namespace PingDelivery.Log

structure Entry where
  level : Level
  target : String
  message : String
  fields : List (String × Json)

namespace Entry

def hasField (e : Entry) (name : String) : Bool :=
  name == "message" || e.fields.any (·.1 == name)

/-- The name of a level on the right of five places. -/
def levelColumn (l : Level) : String :=
  String.ofList (List.replicate (5 - l.upperName.length) ' ') ++ l.upperName

def compact (now : Time.Instant) (e : Entry) : String :=
  Time.Rfc3339.writeMicros now ++ " " ++ levelColumn e.level ++ " " ++ e.target ++ ": " ++ e.message
    ++ String.join (e.fields.map fun f => " " ++ f.1 ++ "=" ++ f.2.write)

/-- The fields stand beside the message, not below it. -/
def json (now : Time.Instant) (e : Entry) : Json :=
  .obj ([("timestamp", .str (Time.Rfc3339.writeMicros now)), ("level", .str e.level.upperName),
    ("message", .str e.message)] ++ e.fields ++ [("target", .str e.target)])

def line (f : Format) (now : Time.Instant) (e : Entry) : String :=
  match f with
  | .compact => e.compact now
  | .json => (e.json now).write

end Entry
end PingDelivery.Log
