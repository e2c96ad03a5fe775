import PingDelivery.Store.Program

/-! # The client id

One id for the installation, kept in the store under a key that is no id and so no ping. It is
drawn once; what cannot be read as an id is replaced. -/

namespace PingDelivery.ClientId

def key : String := "client_info_client_id"

/-- The stored bytes as an id, if they are the text of one. -/
def ofBytes? (b : Bytes) : Option Uuid := b.text?.bind Uuid.parse?

def write (id : Uuid) : Store.Program (Except Store.Error Uuid) :=
  .call (.put key (Bytes.ofText id.text)) fun
    | .error e => .done (.error e)
    | .ok _ => .tell (.clientIdGenerated id) (.done (.ok id))

/-- The stored id, or a fresh one in its place; says also whether the fresh one was drawn. -/
def loadOrCreate (fresh : Uuid) : Store.Program (Except Store.Error Uuid × Bool) :=
  .call (.get key) fun
    | .error e => .done (.error e, false)
    | .ok none => (write fresh).bind fun r => .done (r, true)
    | .ok (some b) =>
      match ofBytes? b with
      | some id => .done (.ok id, false)
      | none => .tell .clientIdUnreadable ((write fresh).bind fun r => .done (r, true))

end PingDelivery.ClientId
