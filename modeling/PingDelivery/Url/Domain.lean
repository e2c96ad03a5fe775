import PingDelivery.Unicode.Composition
import PingDelivery.Unicode.Direction
import PingDelivery.Unicode.Joining
import PingDelivery.Url.Address
import PingDelivery.Url.DomainMapping
import PingDelivery.Url.Punycode

/-! # Domain names

A name may come in any script and is written in ASCII. Its characters are mapped and composed; each
label that then holds more than ASCII is written in Punycode behind `xn--`, and a label that comes
in that form must be what writing its content gives. Lengths and hyphens are free. -/

namespace PingDelivery.Url

/-- Characters that no domain may contain. -/
def forbiddenInDomain (c : Char) : Bool :=
  c.toNat ≤ 32 || c.toNat == 127 ||
    ['%', '#', '/', ':', '<', '>', '?', '@', '[', '\\', ']', '^', '|'].contains c

def isAscii (s : List Char) : Bool := s.all (·.toNat < 128)

/-- What a label in Punycode starts with. -/
def punycodeMark : List Char := ['x', 'n', '-', '-']

/-- The longest content and the longest written form that are dealt with. -/
def maxContent : Nat := 1000

def maxWritten : Nat := 2000

/-- A label as its reader sees it and as it is written. -/
structure Label where
  content : List Char
  written : List Char

/-- Whether a label may stand beyond ASCII: its characters stand for themselves, it does not start
with a mark, and joiners are in their place. -/
def isWellFormed (content : List Char) : Bool :=
  content.all DomainMapping.isPlain && !(content.head?.any Unicode.isMark) &&
    Unicode.joinersPlaced [] content

/-- Reads a label whose characters are mapped and composed. -/
def label? (s : List Char) : Option Label :=
  if s.take 4 = punycodeMark ∧ isAscii s then
    if maxWritten < s.length - 4 then none else
    match Punycode.decode? (s.drop 4) with
    | none => none
    | some c =>
      if ¬ isAscii c ∧ isWellFormed c ∧ Unicode.composed c = c then some ⟨c, s⟩ else none
  else if isAscii s then some ⟨s, s⟩
  else if isWellFormed s ∧ s.length ≤ maxContent ∧ s.take 4 ≠ punycodeMark then
    some ⟨s, punycodeMark ++ Punycode.encode s⟩
  else none

/-- The name as it is written in ASCII, if it is one. -/
def domainToAscii? (s : List Char) : Option (List Char) := do
  let mapped ← s.mapM DomainMapping.map?
  let labels ← (pieces '.' (Unicode.composed mapped.flatten)).mapM label?
  if labels.any (·.written.any forbiddenInDomain) then none
  else if labels.any (fun l => Unicode.runsRight l.content) ∧
      ¬ labels.all (fun l => Unicode.isArranged l.content) then none
  else some (['.'].intercalate (labels.map (·.written)))

end PingDelivery.Url
