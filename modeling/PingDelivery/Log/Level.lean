import PingDelivery.Json.Typed

/-! # Log levels and formats

Levels order from errors to traces. Both levels and formats are read from JSON by their lower-case
names. -/

namespace PingDelivery.Log

inductive Level where
  | error
  | warn
  | info
  | debug
  | trace
  deriving DecidableEq, Repr

namespace Level

def all : List Level := [error, warn, info, debug, trace]

def name : Level → String
  | error => "error"
  | warn => "warn"
  | info => "info"
  | debug => "debug"
  | trace => "trace"

/-- As log lines show it. -/
def upperName : Level → String
  | error => "ERROR"
  | warn => "WARN"
  | info => "INFO"
  | debug => "DEBUG"
  | trace => "TRACE"

/-- Greater for what is said less often. -/
def rank : Level → Nat
  | error => 1
  | warn => 2
  | info => 3
  | debug => 4
  | trace => 5

def ofName? (s : String) : Option Level := all.find? fun l => l.name == s

def read (s : String) : Except Json.Fault Level :=
  Json.Reader.run (do
    let (name, _) ← Json.Reader.variant fun n => (ofName? n).map fun _ => none
    match ofName? name with
    | some l => return l
    | none => Json.Reader.fail .dataError) s

end Level

inductive Format where
  | compact
  | json
  deriving DecidableEq, Repr

namespace Format

def name : Format → String
  | compact => "compact"
  | json => "json"

def ofName? (s : String) : Option Format := [compact, json].find? fun f => f.name == s

def read (s : String) : Except Json.Fault Format :=
  Json.Reader.run (do
    let (name, _) ← Json.Reader.variant fun n => (ofName? n).map fun _ => none
    match ofName? name with
    | some f => return f
    | none => Json.Reader.fail .dataError) s

end Format
end PingDelivery.Log
