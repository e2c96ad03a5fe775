import PingDelivery.Upload.Backoff

/-! # How uploads are run -/

namespace PingDelivery.Upload

/-- Timing and form of uploads: how long one may take, how often the worker looks, whether bodies
are compressed and how failed runs are spaced. -/
structure Plan where
  timeout : Span
  interval : Span
  compress : Bool
  backoff : Backoff.Config
  deriving DecidableEq, Repr

end PingDelivery.Upload
