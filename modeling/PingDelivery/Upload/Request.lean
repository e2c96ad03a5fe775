import PingDelivery.Configuration.Basic
import PingDelivery.Dict
import PingDelivery.Ping
import PingDelivery.Time.Rfc2822

/-! # Upload requests

One attempt to deliver a ping. Where it goes, under which user agent and what it carries come from
the ping alone; the present configuration only adds its tag to pings that have none. -/

namespace PingDelivery.Upload

structure Request where
  documentId : Uuid
  url : String
  headers : Dict String
  compressed : Bool
  /-- The payload before compression. -/
  body : Bytes
  deriving DecidableEq

namespace Request

def tagHeader : String := "X-Debug-ID"

/-- The tag stamped on the ping, else the configured one. -/
def tagFor (c : Configuration) (p : Ping) : Option String :=
  p.metadata.tag.or (c.tag.map (·.text))

def fixedHeaders (now : Time.Instant) (p : Ping) : List (String × String) :=
  [("Content-Type", "application/json; charset=utf-8"), ("Date", Time.Rfc2822.write now),
    ("User-Agent", p.metadata.userAgent), ("X-Client-Type", programName),
    ("X-Client-Version", programVersion)]

def headersFor (c : Configuration) (compress : Bool) (now : Time.Instant) (p : Ping) :
    Dict String :=
  .ofList (fixedHeaders now p ++
    (match tagFor c p with | none => [] | some t => [(tagHeader, t)]) ++
    (if compress then [("Content-Encoding", "gzip")] else []))

def ofPing (c : Configuration) (compress : Bool) (now : Time.Instant) (p : Ping) : Request where
  documentId := p.id
  url := p.url
  headers := headersFor c compress now p
  compressed := compress
  body := p.payload

/-- The payload trace, where the configuration asks for it. -/
def trace (c : Configuration) (p : Ping) : Option Notice :=
  if c.logPings then some (.payload p) else none

end Request
end PingDelivery.Upload
