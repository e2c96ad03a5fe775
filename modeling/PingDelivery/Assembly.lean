import PingDelivery.Configuration.Basic
import PingDelivery.Json.Writer
import PingDelivery.Snapshot
import PingDelivery.Submission
import PingDelivery.Time.Rfc3339

/-! # Assembling pings

A snapshot becomes a ping: `document` is the JSON value that is sent, `assemble` checks, draws the
id and stamps the delivery metadata. The size is looked at last, when the id has been drawn. -/

namespace PingDelivery

inductive AssemblyError where
  | invalidDocumentType (documentType : String)
  | emptySnapshot (documentType : String)
  | payloadTooLarge (documentType : String) (size limit : Nat)
  deriving DecidableEq, Repr

def AssemblyError.text : AssemblyError → String
  | invalidDocumentType t => "Invalid document type: '" ++ t ++ "'"
  | emptySnapshot t => "Ping '" ++ t ++ "' has nothing to send"
  | payloadTooLarge t size limit =>
    "Ping '" ++ t ++ "' is " ++ toString size ++ " bytes, limit is " ++ toString limit

namespace Assembly

/-- What a ping is assembled from beside the snapshot. -/
structure Request where
  documentType : String
  reason : Option String
  clientId : Option Uuid
  deriving DecidableEq

/-- The metrics by the group of their type, in order. -/
def grouped (metrics : Dict Metric) : Dict (Dict Json) :=
  metrics.foldl (fun groups id m =>
    let group := (groups.get? m.typeName).getD .empty
    groups.insert m.typeName (group.insert id m.content)) .empty

def metricsJson (metrics : Dict Metric) : Json :=
  .obj ((grouped metrics).entries.map fun g => (g.1, .obj g.2.entries))

def pingInfo (r : Request) (id : Uuid) (s : Snapshot) : Json :=
  .obj ([("ping_type", .str r.documentType), ("document_id", .str id.text),
    ("start_time", .str (Time.Rfc3339.writeMillis s.startTime)),
    ("end_time", .str (Time.Rfc3339.writeMillis s.endTime))] ++
    Json.optional "reason" (r.reason.map .str))

def clientInfo (r : Request) (c : Configuration) : Json :=
  .obj ([("application_id", .str c.applicationId)] ++
    Json.optional "client_id" (r.clientId.map fun id => .str id.text) ++
    Json.optional "app_channel" (c.channel.map .str) ++
    [("telemetry_sdk_build", .str programVersion)])

/-- The document: metrics and events only where there are any. -/
def document (r : Request) (c : Configuration) (id : Uuid) (s : Snapshot) : Json :=
  .obj ([("ping_info", pingInfo r id s), ("client_info", clientInfo r c)] ++
    (if s.metrics.isEmpty then [] else [("metrics", metricsJson s.metrics)]) ++
    (if s.events.isEmpty then [] else [("events", .list Event.json s.events)]))

def metadata (r : Request) (c : Configuration) (id : Uuid) : Metadata where
  serverEndpoint := c.endpoint.text
  path := Submission.path c.applicationId r.documentType id
  userAgent := c.userAgent
  channel := c.channel
  tag := c.tag.map (·.text)

/-- What is wrong before an id is drawn. -/
def refusal? (r : Request) (s : Snapshot) : Option AssemblyError :=
  if ¬ Submission.IsDocumentType r.documentType then some (.invalidDocumentType r.documentType)
  else if s.isEmpty then some (.emptySnapshot r.documentType)
  else none

/-- The ping of a snapshot that is not refused, under the id drawn for it. -/
def ping (r : Request) (c : Configuration) (s : Snapshot) (id : Uuid) (now : Time.Instant) : Ping :=
  .fresh id r.documentType (document r c id s).bytes now (metadata r c id)

/-- The ping under a drawn id, unless its payload is over the limit. -/
def sized (p : Ping) (limit : Nat) : Except AssemblyError Ping :=
  if limit < p.size then .error (.payloadTooLarge p.documentType p.size limit) else .ok p

/-- Assembles with the id that would be drawn next; says also whether it was drawn. -/
def assemble (r : Request) (c : Configuration) (s : Snapshot) (limit : Nat) (fresh : Uuid)
    (now : Time.Instant) : Except AssemblyError Ping × Bool :=
  match refusal? r s with
  | some e => (.error e, false)
  | none => (sized (ping r c s fresh now) limit, true)

/-- What an assembled ping is reported as. -/
def notice (p : Ping) : Notice := .assembled p.id p.documentType p.size

end Assembly
end PingDelivery
