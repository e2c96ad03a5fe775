import PingDelivery.Span
import PingDelivery.Tag
import PingDelivery.Text.Reading
import PingDelivery.Url.Basic

/-! # Why settings or a configuration are refused -/

namespace PingDelivery

inductive ConfigError where
  | unreadableEndpoint (endpoint : String) (e : Url.Error)
  | notWebAddress (endpoint : String)
  | blankApplicationId
  | zeroMaxEvents
  | unsendableUserAgent
  | zeroMaxPingSize
  | zeroMaxAttempts
  | zeroTiming
  | zeroMaxPings
  | backoffOrder (base ceiling : Span)
  | tag (e : TagError)
  | file (reason : String)
  | malformed
  | badVariable (name : String) (e : Text.Unreadable)
  deriving DecidableEq

namespace ConfigError

/-- The text of an error in an endpoint, a setting or a variable, behind the words for its kind. -/
def text : ConfigError → String
  | unreadableEndpoint s e => "Invalid URL: Invalid endpoint URL '" ++ s ++ "': " ++ e.text
  | notWebAddress s => "Invalid URL: Endpoint URL '" ++ s ++ "' must be an absolute http(s) URL"
  | blankApplicationId => "Invalid configuration: Application id must not be empty"
  | zeroMaxEvents => "Invalid configuration: Max events must be greater than 0"
  | unsendableUserAgent =>
    "Invalid configuration: User agent must be non-empty and free of control characters"
  | zeroMaxPingSize => "Invalid configuration: Max ping size must be greater than 0"
  | zeroMaxAttempts => "Invalid configuration: Max upload attempts must be greater than 0"
  | zeroTiming => "Invalid configuration: Upload timeout and interval must be greater than 0"
  | zeroMaxPings => "Invalid configuration: Pending ping quota must allow at least one ping"
  | backoffOrder base ceiling =>
    "Invalid configuration: Backoff base delay (" ++ base.text ++ ") exceeds max delay (" ++
      ceiling.text ++ ")"
  | tag e => "Invalid ping tag: " ++ e.text
  | file reason => "File error: " ++ reason
  | malformed => "Parse error"
  | badVariable name e => "Environment error: Invalid " ++ name ++ ": " ++ e.text

end ConfigError
end PingDelivery
