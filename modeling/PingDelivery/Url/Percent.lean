import PingDelivery.Bytes

/-! # Percent encoding

A byte is written as a percent sign and two upper-case digits. Which ASCII characters are encoded
differs by the part of a URL; bytes of other characters always are. -/

namespace PingDelivery.Url

def upperDigit (n : Nat) : Char := if n < 10 then Char.ofNat (48 + n) else Char.ofNat (55 + n)

def percentByte (b : UInt8) : List Char :=
  ['%', upperDigit (b.toNat / 16), upperDigit (b.toNat % 16)]

def encodeChar (encoded : Char → Bool) (c : Char) : List Char :=
  if c.toNat < 128 ∧ ¬ encoded c then [c]
  else (Bytes.ofText (String.singleton c)).flatMap percentByte

def encode (encoded : Char → Bool) (s : List Char) : List Char := s.flatMap (encodeChar encoded)

def isControlByte (c : Char) : Bool := c.toNat < 32 || c.toNat == 127

def inFragment (c : Char) : Bool := isControlByte c || [' ', '"', '<', '>', Char.ofNat 96].contains c

def inPath (c : Char) : Bool := inFragment c || ['#', '?', '{', '}'].contains c

def inUserinfo (c : Char) : Bool :=
  inPath c || ['/', ':', ';', '=', '@', '[', '\\', ']', '^', '|'].contains c

/-- In the query of a web address, which encodes the single quote too. -/
def inQuery (c : Char) : Bool :=
  isControlByte c || [' ', '"', '#', '<', '>', Char.ofNat 39].contains c

/-- Bytes with every encoded one decoded; a percent sign without two digits stands for itself. -/
def decode : Bytes → Bytes
  | [] => []
  | 37 :: a :: b :: r =>
    match Bytes.hexValue? (Char.ofNat a.toNat), Bytes.hexValue? (Char.ofNat b.toNat) with
    | some x, some y => UInt8.ofNat (16 * x + y) :: decode r
    | _, _ => 37 :: decode (a :: b :: r)
  | x :: r => x :: decode r

end PingDelivery.Url
