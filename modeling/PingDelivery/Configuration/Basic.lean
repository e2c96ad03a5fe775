import PingDelivery.Configuration.Error
import PingDelivery.Notice
import PingDelivery.Text.Blank

/-! # The client configuration

What a client is set up with: who it is, where its pings go, and how much it buffers. A `Draft` is
what an application asks for; `Draft.build` checks it and gives the configuration, which no longer
changes. -/

namespace PingDelivery

def operatingSystem : String := "linux"

/-- The user agent of clients that do not set one. -/
def defaultUserAgent (version : String) : String :=
  programName ++ "/" ++ version ++ " (Rust on " ++ operatingSystem ++ ")"

/-- Sent as a header value: not empty and free of control characters. -/
def Sendable (s : String) : Prop := s.toList ≠ [] ∧ s.toList.all (!Text.isControl ·) = true

instance (s : String) : Decidable (Sendable s) := by unfold Sendable; infer_instance

structure Configuration where
  applicationId : String
  endpoint : Url
  userAgent : String
  channel : Option String
  maxEvents : Nat
  logPings : Bool
  tag : Option Tag
  userAgent_sendable : Sendable userAgent
  maxEvents_pos : 0 < maxEvents
  deriving DecidableEq

namespace Configuration

def defaultEndpoint : String := "https://incoming.telemetry.mozilla.org"

def defaultMaxEvents : Nat := 500

structure Draft where
  applicationId : String
  endpoint : String
  userAgent : Option String
  version : String
  channel : Option String
  maxEvents : Nat
  logPings : Bool
  tag : Option String
  deriving DecidableEq, Repr

def Draft.ofId (applicationId : String) : Draft :=
  ⟨applicationId, defaultEndpoint, none, programVersion, none, defaultMaxEvents, false, none⟩

/-- The endpoint must be an absolute web address. -/
def parseEndpoint (s : String) : Except ConfigError Url :=
  match Url.parse s with
  | .error e => .error (.unreadableEndpoint s e)
  | .ok (.other _) => .error (.notWebAddress s)
  | .ok (.web u) => .ok u

def parseTag : Option String → Except ConfigError (Option Tag)
  | none => .ok none
  | some s =>
    match Tag.parse s with
    | .ok t => .ok (some t)
    | .error e => .error (.tag e)

def Draft.agent (d : Draft) : String := d.userAgent.getD (defaultUserAgent d.version)

/-- Checks in this order: id, endpoint, number of events, tag, user agent. -/
def Draft.build (d : Draft) : Except ConfigError Configuration :=
  if Text.allBlank d.applicationId then .error .blankApplicationId
  else
    match parseEndpoint d.endpoint with
    | .error e => .error e
    | .ok endpoint =>
      if hm : 0 < d.maxEvents then
        match parseTag d.tag with
        | .error e => .error e
        | .ok tag =>
          if ha : Sendable d.agent then
            .ok ⟨d.applicationId, endpoint, d.agent, d.channel, d.maxEvents, d.logPings, tag, ha, hm⟩
          else .error .unsendableUserAgent
      else .error .zeroMaxEvents

/-! ## The form for debugging -/

def escapeDebug (c : Char) : List Char :=
  if c = '"' ∨ c = '\\' then ['\\', c]
  else if c = '\t' then ['\\', 't']
  else if c = '\n' then ['\\', 'n']
  else if c = '\r' then ['\\', 'r']
  else if c.toNat = 0 then ['\\', '0']
  else if c.toNat < 32 ∨ c.toNat = 127 then
    "\\u\x7b".toList ++ Nat.toDigits 16 c.toNat ++ "\x7d".toList
  else [c]

/-- A text in quotes; ASCII only is meant. -/
def debugText (s : String) : String :=
  String.ofList ('"' :: s.toList.flatMap escapeDebug ++ ['"'])

def debugOption (f : String → String) : Option String → String
  | none => "None"
  | some s => "Some(" ++ f s ++ ")"

def debug (c : Configuration) : String :=
  "Configuration \x7b application_id: " ++ debugText c.applicationId ++ ", server_endpoint: " ++
    debugText c.endpoint.text ++ ", user_agent: " ++ debugText c.userAgent ++ ", channel: " ++
    debugOption debugText c.channel ++ ", max_events: " ++ toString c.maxEvents ++
    ", log_pings: " ++ toString c.logPings ++ ", ping_tag: " ++
    debugOption (fun s => "PingTag(" ++ debugText s ++ ")") (c.tag.map (·.text)) ++ ", .. \x7d"

def isAscii (s : String) : Bool := s.toList.all (·.toNat < 128)

/-- Shown only where the texts are ASCII. -/
def debug? (c : Configuration) : Option String :=
  if isAscii c.applicationId && isAscii c.userAgent && c.channel.all isAscii then some c.debug
  else none

end Configuration
end PingDelivery
