import PingDelivery.Log.Level
import PingDelivery.Queue.Error
import PingDelivery.Span
import PingDelivery.Upload.Summary

/-! # Notices

Everything the program reports about its work, as values: each has a level and a text, and the
payload trace has fields beside its text. Operations hand their notices out beside their result;
nothing depends on them. -/

namespace PingDelivery

/-- The name that pings carry of the program that assembled them. -/
def programName : String := "ping-lifecycle"

def programVersion : String := "0.1.0"

inductive Notice where
  | storedRecord (key : String) (size : Nat)
  | deletedRecord (key : String)
  | sweptTemporaries (count : Nat) (directory : String)
  | clientIdUnreadable
  | clientIdGenerated (id : Uuid)
  | discardedRecord (key : String) (e : Record.Error)
  | quotaExceeded (deleted : Nat)
  | rehydrated (count : Nat)
  | queued (id : Uuid) (documentType : String) (sequence : UInt64)
  | removed (id : Uuid)
  | exhausted (id : Uuid) (attempts : UInt32)
  | queueSuspended (e : Store.Error)
  | thresholdReached (limit : Nat) (ping : String)
  | assembled (id : Uuid) (documentType : String) (size : Nat)
  | payload (p : Ping)
  | uploading (p : Ping)
  | abandoned (id : Uuid)
  | uploaded (id : Uuid) (documentType : String)
  | refused (id : Uuid) (reason : String)
  | retained (id : Uuid) (attempts : UInt32) (reason : String)
  | dropped (id : Uuid) (attempts : UInt32) (reason : String)
  | uploadsSuspended (e : QueueError)
  | backingOff (wait : Span)
  | runFinished (summary : Upload.Summary)
  | runFailed (e : Upload.RunError)
  | workerStopping (e : Upload.RunError)
  | workerExited
  | workerStarted
  | registered (name : String) (includeClientId : Bool)
  | opened (applicationId : String) (restored : Nat)
  | nothingBuffered (documentType : String)
  | oversized (documentType : String) (size limit : Nat)
  | notQueued (documentType : String) (e : QueueError)
  | shutDown
  deriving DecidableEq

namespace Notice

def level : Notice → Log.Level
  | queueSuspended _ | uploadsSuspended _ | workerStopping _ => .error
  | sweptTemporaries _ _ | clientIdUnreadable | discardedRecord _ _ | quotaExceeded _
  | exhausted _ _ | refused _ _ | retained _ _ _ | dropped _ _ _ | runFailed _ | oversized _ _ _
  | notQueued _ _ => .warn
  | clientIdGenerated _ | rehydrated _ | payload _ | abandoned _ | uploaded _ _ | opened _ _
  | shutDown => .info
  | storedRecord _ _ | deletedRecord _ | queued _ _ _ | removed _ | thresholdReached _ _
  | assembled _ _ _ | uploading _ | backingOff _ | runFinished _ | workerExited | workerStarted
  | registered _ _ | nothingBuffered _ => .debug

/-- The number of the attempt that a ping is on. -/
def attemptNumber (p : Ping) : Nat := p.attempts.toNat + 1

def text : Notice → String
  | storedRecord key size => "Stored record " ++ key ++ " (" ++ toString size ++ " bytes)"
  | deletedRecord key => "Deleted record " ++ key
  | sweptTemporaries n dir =>
    "Removed " ++ toString n ++ " incomplete record(s) from " ++ dir
  | clientIdUnreadable => "Stored client id is unreadable, generating a new one"
  | clientIdGenerated id => "Generated new client id " ++ id.text
  | discardedRecord key e => "Discarding unreadable pending ping " ++ key ++ ": " ++ e.text
  | quotaExceeded n =>
    "Pending ping quota exceeded, deleted " ++ toString n ++ " oldest ping(s)"
  | rehydrated n => "Rehydrated " ++ toString n ++ " pending ping(s)"
  | queued id type seq =>
    "Queued ping " ++ id.text ++ " (" ++ type ++ ") at position " ++ toString seq.toNat
  | removed id => "Removed ping " ++ id.text ++ " from queue"
  | exhausted id n =>
    "Deleting ping " ++ id.text ++ " after " ++ toString n.toNat ++ " recoverable failures"
  | queueSuspended e => "Pending ping storage failed, suspending queue: " ++ e.text
  | thresholdReached limit ping =>
    "Event threshold of " ++ toString limit ++ " reached for ping '" ++ ping ++
      "', forcing assembly"
  | assembled id type size =>
    "Assembled " ++ programName ++ " ping " ++ id.text ++ " (" ++ type ++ ", " ++ toString size ++
      " bytes)"
  | payload p => p.payload.lossyText
  | uploading p =>
    "Uploading ping " ++ p.id.text ++ " (" ++ p.documentType ++ ") to " ++ p.url ++
      " (attempt " ++ toString (attemptNumber p) ++ ")"
  | abandoned id => "Upload of ping " ++ id.text ++ " abandoned by shutdown"
  | uploaded id type => "Uploaded ping " ++ id.text ++ " (" ++ type ++ ")"
  | refused id reason => "Deleting ping " ++ id.text ++ " after unrecoverable failure: " ++ reason
  | retained id n reason =>
    "Recoverable failure for ping " ++ id.text ++ " (attempt " ++ toString n.toNat ++ "): " ++
      reason
  | dropped id n reason =>
    "Ping " ++ id.text ++ " dropped after " ++ toString n.toNat ++ " attempts: " ++ reason
  | uploadsSuspended e => "Suspending uploads after storage fault: " ++ e.text
  | backingOff wait => "Backing off uploads for " ++ wait.text
  | runFinished summary => "Upload run finished: " ++ summary.text
  | runFailed e => "Upload run failed: " ++ e.text
  | workerStopping e => "Upload worker stopping: " ++ e.text
  | workerExited => "Upload worker exited"
  | workerStarted => "Background upload worker started"
  | registered name optsIn =>
    "Registered ping '" ++ name ++ "' (client id: " ++ toString optsIn ++ ")"
  | opened app n =>
    "Ping lifecycle opened for '" ++ app ++ "' with " ++ toString n ++ " pending ping(s)"
  | nothingBuffered type => "Ping '" ++ type ++ "' has nothing buffered, not submitting"
  | oversized type size limit =>
    "Dropping ping '" ++ type ++ "': " ++ toString size ++ " bytes exceeds the " ++
      toString limit ++ " byte limit"
  | notQueued type e => "Could not queue ping '" ++ type ++ "', measurements kept: " ++ e.text
  | shutDown => "Ping lifecycle shut down"

/-- Values beside the text. -/
def fields : Notice → List (String × Json)
  | payload p =>
    [("attempt", .nat (attemptNumber p)), ("document_type", .str p.documentType),
      ("ping_id", .str p.id.text)]
  | _ => []

end Notice
end PingDelivery
