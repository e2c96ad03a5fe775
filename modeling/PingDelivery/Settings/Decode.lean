import PingDelivery.Settings.Basic

/-! # Settings from trees of values

A settings document of either format is a tree of values. Missing fields keep their defaults and
unknown ones are passed over; a value of the wrong kind or out of range makes the whole document
unreadable. What the formats do not share is in their `Dialect`. -/

namespace PingDelivery.Settings.Decode

/-- Whether a list of values may be longer than the fields it stands for, and which values a
strategy's name may carry as its content. -/
structure Dialect where
  surplus : Bool
  empty : Json → Bool

namespace Dialect

def isNull : Json → Bool
  | .null => true
  | _ => false

def isEmptyGroup : Json → Bool
  | .arr [] | .obj [] => true
  | _ => false

def json : Dialect := ⟨false, isNull⟩

def toml : Dialect := ⟨true, isEmptyGroup⟩

end Dialect

abbrev Decoder (α : Type) := Json → Option α

def string : Decoder String := Json.str?

def boolean : Decoder Bool := Json.bool?

def natBelow (bound : Nat) : Decoder Nat := fun v => do
  let n ← v.nat?
  if n < bound then some n else none

def word : Decoder Nat := natBelow 0x10000000000000000

def halfWord : Decoder UInt32 := fun v => (natBelow 0x100000000 v).map UInt32.ofNat

def millis : Decoder Span := fun v => (word v).map Span.ofMillis

def nullable {α : Type} (d : Decoder α) : Decoder (Option α)
  | .null => some none
  | v => (d v).map some

def strategyOfName? (s : String) : Option Upload.Strategy :=
  [Upload.Strategy.exponential, .linear, .fixed].find? fun x => x.name == s

def strategy (d : Dialect) : Decoder Upload.Strategy
  | .str s => strategyOfName? s
  | .obj [(s, v)] => if d.empty v then strategyOfName? s else none
  | _ => none

/-- A field of a record: its name and what a value for it does. -/
abbrev Setter (α : Type) := String × (Json → α → Option α)

def setter {α β : Type} (name : String) (d : Decoder β) (put : β → α → α) : Setter α :=
  (name, fun v a => (d v).map fun b => put b a)

/-- Fields by name from an object, or in their order from a list. -/
def record {α : Type} (d : Dialect) (setters : List (Setter α)) (start : α) : Decoder α
  | .obj ms => ms.foldlM (fun a m =>
      match setters.find? (·.1 == m.1) with
      | some s => s.2 m.2 a
      | none => some a) start
  | .arr vs =>
    if setters.length < vs.length ∧ ¬ d.surplus then none
    else (setters.zip vs).foldlM (fun a p => p.1.2 p.2 a) start
  | _ => none

def backoff (d : Dialect) : Decoder Upload.Backoff.Config :=
  record d
    [setter "strategy" (strategy d) fun v c => { c with strategy := v },
      setter "base_delay" millis fun v c => { c with base := v },
      setter "max_delay" millis fun v c => { c with ceiling := v },
      setter "jitter" boolean fun v c => { c with jitter := v }]
    .standard

def client (d : Dialect) : Decoder ClientSettings :=
  record d
    [setter "application_id" string fun v c => { c with applicationId := v },
      setter "server_endpoint" string fun v c => { c with serverEndpoint := v },
      setter "user_agent" (nullable string) fun v c => { c with userAgent := v },
      setter "channel" (nullable string) fun v c => { c with channel := v },
      setter "max_events" word fun v c => { c with maxEvents := v },
      setter "log_pings" boolean fun v c => { c with logPings := v },
      setter "ping_tag" (nullable string) fun v c => { c with tag := v }]
    .standard

def lifecycle (d : Dialect) : Decoder LifecycleSettings :=
  record d
    [setter "storage_path" string fun v l => { l with storagePath := v },
      setter "max_ping_size" word fun v l => { l with maxPingSize := v },
      setter "max_upload_attempts" halfWord fun v l => { l with maxAttempts := v },
      setter "upload_timeout" millis fun v l => { l with uploadTimeout := v },
      setter "upload_interval" millis fun v l => { l with uploadInterval := v },
      setter "compress_uploads" boolean fun v l => { l with compress := v },
      setter "max_pending_pings" word fun v l => { l with maxPings := v },
      setter "max_pending_bytes" word fun v l => { l with maxBytes := v },
      setter "backoff" (backoff d) fun v l => { l with backoff := v }]
    .standard

def settings (d : Dialect) : Decoder Settings :=
  record d
    [setter "client" (client d) fun v s => { s with client := v },
      setter "lifecycle" (lifecycle d) fun v s => { s with lifecycle := v }]
    .standard

end PingDelivery.Settings.Decode
