import PingDelivery.Json.Typed
import PingDelivery.Json.Writer

/-! # Delivery metadata

Where and how a ping is to be delivered, stamped on it when it is assembled, so that a later change
of the configuration does not change the delivery of a ping that waits. -/

namespace PingDelivery

structure Metadata where
  serverEndpoint : String
  path : String
  userAgent : String
  channel : Option String
  tag : Option String
  deriving DecidableEq

namespace Metadata

def withoutTrailingSlashes (s : String) : String :=
  String.ofList (s.toList.reverse.dropWhile (· == '/')).reverse

/-- The submission path behind the endpoint, whose own trailing slashes go. -/
def url (m : Metadata) : String := withoutTrailingSlashes m.serverEndpoint ++ m.path

def json (m : Metadata) : Json :=
  .obj [("server_endpoint", .str m.serverEndpoint), ("path", .str m.path),
    ("user_agent", .str m.userAgent), ("channel", .option .str m.channel),
    ("ping_tag", .option .str m.tag)]

def fields : List Json.Reader.Field :=
  [⟨"server_endpoint", Json.Reader.text, none, none⟩, ⟨"path", Json.Reader.text, none, none⟩,
    ⟨"user_agent", Json.Reader.text, none, none⟩,
    ⟨"channel", Json.Reader.nullable Json.Reader.text, some .null, none⟩,
    ⟨"ping_tag", Json.Reader.nullable Json.Reader.text, some .null, none⟩]

def ofValues? : List Json → Option Metadata
  | [.str s, .str p, .str u, c, t] => some ⟨s, p, u, c.str?, t.str?⟩
  | _ => none

def reader : Json.Reader Metadata := do
  match ofValues? (← Json.Reader.record fields) with
  | some m => return m
  | none => Json.Reader.fail .dataError

def read (s : String) : Except Json.Fault Metadata := Json.Reader.run reader s

end Metadata
end PingDelivery
