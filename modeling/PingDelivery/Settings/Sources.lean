import PingDelivery.Environment
import PingDelivery.Settings.Decode
import PingDelivery.Toml.Document

/-! # Where settings come from

A settings file gives the settings to start with, variables replace single ones, and the check comes
last: a variable can mend what a file left wrong. -/

namespace PingDelivery

/-- What stands at the path of a settings file. -/
inductive SettingsFile where
  | missing
  | holding (content : Bytes)
  deriving DecidableEq, Repr

namespace Settings

def ofToml (s : String) : Except ConfigError Settings :=
  match (Toml.parse s).bind (Decode.settings .toml) with
  | some x => .ok x
  | none => .error .malformed

def ofFile : SettingsFile → Except ConfigError Settings
  | .missing => .error (.file "No such file or directory (os error 2)")
  | .holding b =>
    match b.text? with
    | none => .error (.file "stream did not contain valid UTF-8")
    | some s => ofToml s

/-! ## Variables -/

def wordLimit : Nat := 0xFFFFFFFFFFFFFFFF

def attemptLimit : Nat := 0xFFFFFFFF

/-- A span that a variable gives in milliseconds. -/
def millisFrom (env : Environment) (name : String) (current : Span) : Except ConfigError Span :=
  (env.value name (Text.readNat wordLimit) (Upload.Backoff.wordMillis current)).map Span.ofMillis

def clientFrom (env : Environment) (c : ClientSettings) : Except ConfigError ClientSettings := do
  let maxEvents ← env.value "PING_MAX_EVENTS" (Text.readNat wordLimit) c.maxEvents
  let logPings ← env.value "PING_LOG_PINGS" Text.readBool c.logPings
  return {
    applicationId := env.text "PING_APPLICATION_ID" c.applicationId
    serverEndpoint := env.text "PING_SERVER_ENDPOINT" c.serverEndpoint
    userAgent := env.optionalText "PING_USER_AGENT" c.userAgent
    channel := env.optionalText "PING_CHANNEL" c.channel
    maxEvents
    logPings
    tag := env.optionalText "PING_DEBUG_VIEW_TAG" c.tag }

def lifecycleFrom (env : Environment) (l : LifecycleSettings) :
    Except ConfigError LifecycleSettings := do
  let maxPingSize ← env.value "PING_MAX_PING_SIZE" (Text.readNat wordLimit) l.maxPingSize
  let attempts ← env.value "PING_MAX_UPLOAD_ATTEMPTS" (Text.readNat attemptLimit)
    l.maxAttempts.toNat
  let uploadTimeout ← millisFrom env "PING_UPLOAD_TIMEOUT_MS" l.uploadTimeout
  let uploadInterval ← millisFrom env "PING_UPLOAD_INTERVAL_MS" l.uploadInterval
  let compress ← env.value "PING_COMPRESS_UPLOADS" Text.readBool l.compress
  return { l with
    storagePath := env.text "PING_STORAGE_PATH" l.storagePath
    maxPingSize
    maxAttempts := UInt32.ofNat attempts
    uploadTimeout
    uploadInterval
    compress }

/-- The settings with what the variables replace; of two unreadable ones the first is named, in the
order of the fields. -/
def overridden (s : Settings) (env : Environment) : Except ConfigError Settings := do
  let client ← clientFrom env s.client
  let lifecycle ← lifecycleFrom env s.lifecycle
  return ⟨client, lifecycle⟩

/-! ## Loading -/

def load (file : Option SettingsFile) (env : Environment) : Except ConfigError Settings := do
  let start ← match file with
    | some f => ofFile f
    | none => .ok standard
  let s ← start.overridden env
  s.validated

end Settings
end PingDelivery
