import PingDelivery.Bytes
import PingDelivery.Json.Basic

/-! # Compact JSON text

No blanks. A string escapes the quote, the backslash and the controls below space, the latter by
their short escape where there is one; every other character stands for itself. -/

namespace PingDelivery.Json

def escapeChar (c : Char) : List Char :=
  if c = '"' then ['\\', '"']
  else if c = '\\' then ['\\', '\\']
  else if c = '\n' then ['\\', 'n']
  else if c = '\r' then ['\\', 'r']
  else if c = '\t' then ['\\', 't']
  else if c.toNat = 8 then ['\\', 'b']
  else if c.toNat = 12 then ['\\', 'f']
  else if c.toNat < 32 then
    ['\\', 'u', '0', '0', Bytes.hexDigit (c.toNat / 16), Bytes.hexDigit (c.toNat % 16)]
  else [c]

def quoteChars (s : String) : List Char := '"' :: s.toList.flatMap escapeChar ++ ['"']

def intChars (n : Int) : List Char :=
  if n < 0 then '-' :: Nat.toDigits 10 n.natAbs else Nat.toDigits 10 n.toNat

mutual
def chars : Json → List Char
  | null => ['n', 'u', 'l', 'l']
  | bool true => ['t', 'r', 'u', 'e']
  | bool false => ['f', 'a', 'l', 's', 'e']
  | int n => intChars n
  | real t => t.toList
  | str s => quoteChars s
  | arr [] => ['[', ']']
  | arr (v :: r) => '[' :: chars v ++ itemChars r ++ [']']
  | obj [] => ['{', '}']
  | obj ((k, v) :: r) => '{' :: quoteChars k ++ ':' :: chars v ++ memberChars r ++ ['}']

def itemChars : List Json → List Char
  | [] => []
  | v :: r => ',' :: chars v ++ itemChars r

def memberChars : List (String × Json) → List Char
  | [] => []
  | (k, v) :: r => ',' :: quoteChars k ++ ':' :: chars v ++ memberChars r
end

def write (v : Json) : String := String.ofList (chars v)

def bytes (v : Json) : Bytes := Bytes.ofText (write v)

end PingDelivery.Json
