import PingDelivery.Upload.Request

/-! # Requests as they are sent

What the uploader is handed for one attempt. The body is compressed where that is wanted; how, is
somebody else's business, of which no more is known than that it can be undone. A body that could not
be compressed goes as it is, and then the request does not say otherwise. -/

namespace PingDelivery.Upload

structure Gzip where
  zip : Bytes → Option Bytes
  unzip : Bytes → Option Bytes
  unzip_zip : ∀ b z, zip b = some z → unzip z = some b

structure Wire where
  documentId : Uuid
  url : String
  headers : Dict String
  body : Bytes
  deriving DecidableEq

namespace Wire

def ofPing (g : Gzip) (c : Configuration) (compress : Bool) (now : Time.Instant) (p : Ping) : Wire :=
  match if compress then g.zip p.payload else none with
  | some z => ⟨p.id, p.url, Request.headersFor c true now p, z⟩
  | none => ⟨p.id, p.url, Request.headersFor c false now p, p.payload⟩

def isCompressed (w : Wire) : Bool := w.headers.get? "Content-Encoding" = some "gzip"

/-- The body as its receiver reads it. -/
def content? (g : Gzip) (w : Wire) : Option Bytes :=
  if w.isCompressed then g.unzip w.body else some w.body

end Wire
end PingDelivery.Upload
