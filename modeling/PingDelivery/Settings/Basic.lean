import PingDelivery.Configuration.Basic
import PingDelivery.Json.Writer
import PingDelivery.Queue.Basic
import PingDelivery.Upload.Plan

/-! # Settings

What a settings file and the environment decide: the client's part becomes a configuration draft,
the lifecycle's part the queue's quotas and the plan of uploads. -/

namespace PingDelivery

structure ClientSettings where
  applicationId : String
  serverEndpoint : String
  userAgent : Option String
  channel : Option String
  maxEvents : Nat
  logPings : Bool
  tag : Option String
  deriving DecidableEq, Repr

def ClientSettings.standard : ClientSettings :=
  ⟨"", Configuration.defaultEndpoint, none, none, Configuration.defaultMaxEvents, false, none⟩

structure LifecycleSettings where
  storagePath : String
  maxPingSize : Nat
  maxAttempts : UInt32
  uploadTimeout : Span
  uploadInterval : Span
  compress : Bool
  maxPings : Nat
  maxBytes : Nat
  backoff : Upload.Backoff.Config
  deriving DecidableEq, Repr

namespace LifecycleSettings

def defaultMaxPingSize : Nat := 1024 * 1024

def standard : LifecycleSettings where
  storagePath := "/tmp/ping-lifecycle/pending_pings"
  maxPingSize := defaultMaxPingSize
  maxAttempts := Queue.Config.standard.maxAttempts
  uploadTimeout := .ofSeconds 30
  uploadInterval := .ofSeconds 60
  compress := true
  maxPings := Queue.Config.standard.maxPings
  maxBytes := Queue.Config.standard.maxBytes
  backoff := .standard

def queueConfig (s : LifecycleSettings) : Queue.Config := ⟨s.maxAttempts, s.maxPings, s.maxBytes⟩

def plan (s : LifecycleSettings) : Upload.Plan :=
  ⟨s.uploadTimeout, s.uploadInterval, s.compress, s.backoff⟩

/-- Checks in this order: ping size, attempts, timing, number of pings, back-off. -/
def check (l : LifecycleSettings) : Except ConfigError Unit :=
  if l.maxPingSize = 0 then .error .zeroMaxPingSize
  else if l.maxAttempts = 0 then .error .zeroMaxAttempts
  else if l.uploadTimeout.isZero || l.uploadInterval.isZero then .error .zeroTiming
  else if l.maxPings = 0 then .error .zeroMaxPings
  else if l.backoff.ceiling < l.backoff.base then
    .error (.backoffOrder l.backoff.base l.backoff.ceiling)
  else .ok ()

end LifecycleSettings

structure Settings where
  client : ClientSettings
  lifecycle : LifecycleSettings
  deriving DecidableEq, Repr

namespace Settings

def standard : Settings := ⟨.standard, .standard⟩

/-! ## Checking -/

/-- The draft of a configuration, with the version that a missing user agent is made from. -/
def draft (s : Settings) (version : String) : Configuration.Draft :=
  let c := s.client
  ⟨c.applicationId, c.serverEndpoint, c.userAgent, version, c.channel, c.maxEvents, c.logPings,
    c.tag⟩

def configuration (s : Settings) (version : String) : Except ConfigError Configuration :=
  (s.draft version).build

/-- Checks in this order: endpoint, number of events, tag, lifecycle, application id. -/
def validate (s : Settings) : Except ConfigError Unit := do
  let _ ← Configuration.parseEndpoint s.client.serverEndpoint
  if s.client.maxEvents = 0 then .error .zeroMaxEvents else
  let _ ← Configuration.parseTag s.client.tag
  s.lifecycle.check
  if Text.allBlank s.client.applicationId then .error .blankApplicationId else .ok ()

/-- The settings themselves, if they pass. -/
def validated (s : Settings) : Except ConfigError Settings :=
  match s.validate with
  | .ok () => .ok s
  | .error e => .error e

end Settings

/-! ## Written form

Spans are written in milliseconds, cut to 64 bits. -/

def Upload.Strategy.name : Upload.Strategy → String
  | exponential => "exponential_backoff"
  | linear => "linear_backoff"
  | fixed => "fixed_delay"

def millisJson (d : Span) : Json := .nat (Upload.Backoff.wordMillis d)

def Upload.Backoff.Config.json (c : Upload.Backoff.Config) : Json :=
  .obj [("strategy", .str c.strategy.name), ("base_delay", millisJson c.base),
    ("max_delay", millisJson c.ceiling), ("jitter", .bool c.jitter)]

def ClientSettings.json (c : ClientSettings) : Json :=
  .obj [("application_id", .str c.applicationId), ("server_endpoint", .str c.serverEndpoint),
    ("user_agent", .option .str c.userAgent), ("channel", .option .str c.channel),
    ("max_events", .nat c.maxEvents), ("log_pings", .bool c.logPings),
    ("ping_tag", .option .str c.tag)]

def LifecycleSettings.json (l : LifecycleSettings) : Json :=
  .obj [("storage_path", .str l.storagePath), ("max_ping_size", .nat l.maxPingSize),
    ("max_upload_attempts", .nat l.maxAttempts.toNat), ("upload_timeout", millisJson l.uploadTimeout),
    ("upload_interval", millisJson l.uploadInterval), ("compress_uploads", .bool l.compress),
    ("max_pending_pings", .nat l.maxPings), ("max_pending_bytes", .nat l.maxBytes),
    ("backoff", l.backoff.json)]

def Settings.json (s : Settings) : Json :=
  .obj [("client", s.client.json), ("lifecycle", s.lifecycle.json)]

end PingDelivery
