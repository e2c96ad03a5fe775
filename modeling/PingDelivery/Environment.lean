import PingDelivery.Bytes
import PingDelivery.Configuration.Error
import PingDelivery.Dict

/-! # Environment variables

A variable holds bytes. One whose bytes are no text counts as unset, and what is unset leaves a
setting as it was. -/

namespace PingDelivery

abbrev Environment := Dict Bytes

namespace Environment

def text? (env : Environment) (name : String) : Option String :=
  (env.get? name).bind Bytes.text?

/-- The setting that a variable replaces as it stands. -/
def text (env : Environment) (name : String) (current : String) : String :=
  (env.text? name).getD current

def optionalText (env : Environment) (name : String) (current : Option String) : Option String :=
  (env.text? name).or current

/-- The setting that a variable replaces if it can be read; if not, the error names the variable. -/
def value {α : Type} (env : Environment) (name : String)
    (read : String → Except Text.Unreadable α) (current : α) : Except ConfigError α :=
  match env.text? name with
  | none => .ok current
  | some s =>
    match read s with
    | .ok v => .ok v
    | .error e => .error (.badVariable name e)

theorem text_of_unset {env : Environment} {name : String} (h : env.text? name = none)
    (current : String) : env.text name current = current := by
  simp [text, h]

theorem value_of_unset {α : Type} {env : Environment} {name : String}
    (h : env.text? name = none) (read : String → Except Text.Unreadable α) (current : α) :
    env.value name read current = .ok current := by
  simp [value, h]

end Environment
end PingDelivery
