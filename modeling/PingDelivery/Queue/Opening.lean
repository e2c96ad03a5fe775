import PingDelivery.Queue.Basic

/-! # Opening a queue

The queue is rebuilt from the store: records under ids are read, unreadable ones deleted, the rest
put in order of their sequence numbers, and of those the oldest deleted until both quotas hold.
Any failing call gives the opening up; what it has deleted by then would be deleted again. So does a
record at which the reader panics, and that record stays where it is. -/

namespace PingDelivery.Queue

abbrev Loading (α : Type) := Store.Program (Ended Store.Error α)

/-- Reads the records under the keys, in their order, and counts those it had to delete. -/
def load : List String → List Ping → Nat → Loading (List Ping × Nat)
  | [], found, corrupt => .done (.ok (found.reverse, corrupt))
  | k :: keys, found, corrupt =>
    if Record.isPingKey k then
      .call (.get k) fun
        | .error e => .done (.error e)
        | .ok none => load keys found corrupt
        | .ok (some b) =>
          match Record.decode k b with
          | .ok p => load keys (p :: found) corrupt
          | .panic => .done .panic
          | .error e =>
            .tell (.discardedRecord k e) (.call (.delete k) fun
              | .error e => .done (.error e)
              | .ok _ => load keys found (corrupt + 1))
    else load keys found corrupt

/-- By sequence number, then by age. -/
def precedes (a b : Ping) : Bool :=
  a.sequence < b.sequence || (a.sequence = b.sequence && Decidable.decide (a.createdAt ≤ b.createdAt))

def ordered (l : List Ping) : List Ping := l.mergeSort precedes

def totalSize (l : List Ping) : Nat := l.foldr (fun p n => p.size + n) 0

def Config.admits (c : Config) (l : List Ping) : Bool :=
  l.length ≤ c.maxPings && totalSize l ≤ c.maxBytes

/-- Deletes from the front until the quotas hold, and counts. -/
def trim (c : Config) : List Ping → Nat → Store.Program (Except Store.Error (List Ping × Nat))
  | [], dropped => .done (.ok ([], dropped))
  | p :: r, dropped =>
    if c.admits (p :: r) then .done (.ok (p :: r, dropped))
    else .call (storeDelete p.id) fun
      | .error e => .done (.error e)
      | .ok _ => trim c r (dropped + 1)

/-- A healthy queue of these pings, numbered on behind the last one. -/
def restored (c : Config) (pings : List Ping) (corrupt dropped : Nat) : Queue where
  config := c
  pings := pings
  nextSequence := pings.getLast?.elim 0 (·.sequence + 1)
  faulted := false
  report := ⟨pings.length, corrupt, dropped⟩

def failed {α : Type} (e : Store.Error) : Store.Program (Ended QueueError α) :=
  .done (.error (.storage e))

/-- Opens the queue over a store. -/
def rehydrate (c : Config) : Store.Program (Ended QueueError Queue) :=
  .call .list fun
    | .error e => failed e
    | .ok keys => (load keys [] 0).bind fun
      | .error e => failed e
      | .panic => .done .panic
      | .ok (found, corrupt) => (trim c (ordered found) 0).bind fun
        | .error e => failed e
        | .ok (pings, dropped) =>
          told (if 0 < dropped then some (.quotaExceeded dropped) else none)
            (.tell (.rehydrated pings.length) (.done (.ok (restored c pings corrupt dropped))))

end PingDelivery.Queue
