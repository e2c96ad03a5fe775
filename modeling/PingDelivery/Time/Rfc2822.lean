import PingDelivery.Text.Digits
import PingDelivery.Time.Instant

/-! # Times as RFC 2822 text

The form of a mail or HTTP date, in UTC: `Tue, 1 Jul 2003 00:52:10 +0000`. The day is not
padded. -/

namespace PingDelivery.Time.Rfc2822

def weekdays : List String := ["Sun", "Mon", "Tue", "Wed", "Thu", "Fri", "Sat"]

def months : List String :=
  ["Jan", "Feb", "Mar", "Apr", "May", "Jun", "Jul", "Aug", "Sep", "Oct", "Nov", "Dec"]

def write (t : Instant) : String :=
  let d := t.date
  (weekdays[Date.weekday t.days]?.getD "") ++ ", " ++ toString d.day ++ " " ++
    (months[d.month - 1]?.getD "") ++ " " ++ String.ofList (Text.padded 4 d.year.toNat) ++ " " ++
    String.ofList (Text.padded 2 t.hour) ++ ":" ++ String.ofList (Text.padded 2 t.minute) ++ ":" ++
    String.ofList (Text.padded 2 t.second) ++ " +0000"

end PingDelivery.Time.Rfc2822
