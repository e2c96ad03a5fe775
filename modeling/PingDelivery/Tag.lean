/-! # Debug tags

A tag marks pings for a debug view. It is sent as a header value and is therefore short and made of
letters, digits and hyphens. -/

namespace PingDelivery

def isTagChar (c : Char) : Bool := c.isAlphanum || c == '-'

def maxTagLength : Nat := 20

structure Tag where
  text : String
  nonempty : text.toList ≠ []
  length_le : text.toList.length ≤ maxTagLength
  allowed : text.toList.all isTagChar = true
  deriving DecidableEq

inductive TagError where
  | empty
  | tooLong (length : Nat)
  | invalidCharacters (text : String)
  deriving DecidableEq, Repr

def TagError.text : TagError → String
  | empty => "tag must not be empty"
  | tooLong n => "tag is " ++ toString n ++ " characters, limit is " ++ toString maxTagLength
  | invalidCharacters s => "tag '" ++ s ++ "' contains characters outside [A-Za-z0-9-]"

namespace Tag

/-- The length is looked at before the characters. -/
def parse (s : String) : Except TagError Tag :=
  if hn : s.toList ≠ [] then
    if hl : s.toList.length ≤ maxTagLength then
      if ha : s.toList.all isTagChar = true then .ok ⟨s, hn, hl, ha⟩
      else .error (.invalidCharacters s)
    else .error (.tooLong s.toList.length)
  else .error .empty

@[simp] theorem parse_text (t : Tag) : parse t.text = .ok t := by
  simp only [parse, t.nonempty, t.length_le, t.allowed, ne_eq, not_false_eq_true, dite_true]

end Tag
end PingDelivery
