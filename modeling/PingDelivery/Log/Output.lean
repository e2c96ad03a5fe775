import PingDelivery.Log.Filter

/-! # Where log lines go

A program has one place for its log. It is set up once; later calls change nothing. Where another
party has set one up before, ours is refused. -/

namespace PingDelivery.Log

inductive Output where
  | absent
  | foreign
  | installed (filter : Filter) (format : Format)

inductive SetupError where
  | taken
  deriving DecidableEq, Repr

def SetupError.text : SetupError → String
  | taken => "Failed to install tracing subscriber: " ++
      "a global default trace dispatcher has already been set"

namespace Output

/-- The filter that the user asks for, or the built-in one where that is absent or unreadable. -/
def chosenFilter (wanted : Option String) (l : Level) : Filter :=
  (wanted.bind Filter.read?).getD (Filter.builtIn l)

def setUp (wanted : Option String) (l : Level) (f : Format) :
    Output → Except SetupError Unit × Output
  | absent => (.ok (), installed (chosenFilter wanted l) f)
  | foreign => (.error .taken, foreign)
  | installed filter format => (.ok (), installed filter format)

/-- The line that an entry leads to, if it passes. -/
def line? (o : Output) (now : Time.Instant) (e : Entry) : Option String :=
  match o with
  | installed filter format => if filter.passes e then some (e.line format now) else none
  | _ => none

theorem setUp_again (wanted wanted' : Option String) (l l' : Level) (f f' : Format) (o : Output) :
    (setUp wanted' l' f' (setUp wanted l f o).2).2 = (setUp wanted l f o).2 := by
  cases o <;> rfl

end Output
end PingDelivery.Log
