import PingDelivery.Url.Address
import PingDelivery.Url.Domain
import PingDelivery.Url.Percent

/-! # Absolute URLs

`Url.parse` reads a text the way web clients do: blanks around it and line breaks inside it do not
count, backslashes are slashes, the host and the path come out in one canonical form, and `text`
writes that form. Only web addresses (http and https) are taken apart; of other absolute URLs the
scheme is kept. -/

namespace PingDelivery

namespace Url

inductive Error where
  | relativeWithoutBase
  | emptyHost
  | invalidPort
  | invalidIpv4
  | invalidIpv6
  | invalidDomain
  | invalidHostCharacter
  deriving DecidableEq, Repr

def Error.text : Error → String
  | relativeWithoutBase => "relative URL without a base"
  | emptyHost => "empty host"
  | invalidPort => "invalid port number"
  | invalidIpv4 => "invalid IPv4 address"
  | invalidIpv6 => "invalid IPv6 address"
  | invalidDomain => "invalid international domain name"
  | invalidHostCharacter => "invalid domain character"

inductive Host where
  | domain (name : List Char)
  | ipv4 (address : Nat)
  | ipv6 (pieces : List Nat)
  deriving DecidableEq, Repr

def Host.chars : Host → List Char
  | domain name => name
  | ipv4 n => ipv4Chars n
  | ipv6 ns => '[' :: ipv6Chars ns ++ [']']

end Url

/-- A web address in canonical form. The user name and password are kept as they are written, with
the colon that parts them. -/
structure Url where
  secure : Bool
  userinfo : List Char
  host : Url.Host
  port : Option Nat
  path : List (List Char)
  query : Option (List Char)
  fragment : Option (List Char)
  deriving DecidableEq

namespace Url

def scheme (u : Url) : String := if u.secure then "https" else "http"

def defaultPort (secure : Bool) : Nat := if secure then 443 else 80

def authorityChars (u : Url) : List Char :=
  (if u.userinfo.isEmpty then [] else u.userinfo ++ ['@']) ++ u.host.chars ++
    (match u.port with | none => [] | some p => ':' :: Nat.toDigits 10 p)

/-- Segments, each behind a slash. -/
def pathChars (segments : List (List Char)) : List Char := segments.flatMap ('/' :: ·)

def marked (mark : Char) : Option (List Char) → List Char
  | none => []
  | some s => mark :: s

def chars (u : Url) : List Char :=
  u.scheme.toList ++ "://".toList ++ u.authorityChars ++ pathChars u.path ++ marked '?' u.query ++
    marked '#' u.fragment

def text (u : Url) : String := String.ofList u.chars

/-- What an absolute URL turned out to be. -/
inductive Absolute where
  | web (u : Url)
  | other (scheme : String)

/-! ## Parts of a text -/

def isTrimmed (c : Char) : Bool := c.toNat ≤ 32

def isLineChar (c : Char) : Bool := c == '\t' || c == '\n' || c == '\r'

/-- The text that counts: no controls or blanks around it, no tabs and line ends inside. -/
def significant (s : String) : List Char :=
  (((s.toList.dropWhile isTrimmed).reverse.dropWhile isTrimmed).reverse).filter (!isLineChar ·)

def isSchemeChar (c : Char) : Bool := c.isAlphanum || c == '+' || c == '-' || c == '.'

/-- The scheme in lower case and what stands behind its colon. -/
def splitScheme (s : List Char) : Option (List Char × List Char) :=
  let name := s.takeWhile isSchemeChar
  match name, s.drop name.length with
  | c :: _, ':' :: rest => if c.isAlpha then some (name.map Char.toLower, rest) else none
  | _, _ => none

inductive Kind where
  | special
  | file
  | plain
  deriving DecidableEq

def kindOf (scheme : List Char) : Kind :=
  let s := String.ofList scheme
  if ["http", "https", "ws", "wss", "ftp"].contains s then .special
  else if s = "file" then .file
  else .plain

def isSlash (k : Kind) (c : Char) : Bool := c == '/' || (k != .plain && c == '\\')

def endsAuthority (k : Kind) (c : Char) : Bool := isSlash k c || c == '?' || c == '#'

/-! ## Hosts -/

def parseHost (s : List Char) : Except Error Host :=
  if s.head? = some '[' then
    if 1 < s.length ∧ s.getLast? = some ']' then
      match ipv6? (s.drop 1).dropLast with
      | some ns => .ok (.ipv6 ns)
      | none => .error .invalidIpv6
    else .error .invalidIpv6
  else
    match (Bytes.text? (decode (Bytes.ofText (String.ofList s)))).bind fun t =>
        domainToAscii? t.toList with
    | none => .error .invalidDomain
    | some [] => .error .emptyHost
    | some d =>
      if endsInNumber d then
        match ipv4? d with
        | some n => .ok (.ipv4 n)
        | none => .error .invalidIpv4
      else .ok (.domain d)

def forbiddenInHost (c : Char) : Bool :=
  c.toNat == 0 || [' ', '#', '/', ':', '<', '>', '?', '@', '[', '\\', ']', '^', '|'].contains c

/-- The host of a scheme that does not know domains. -/
def parseOpaqueHost (s : List Char) : Except Error Host :=
  if s.head? = some '[' then parseHost s
  else if s.any forbiddenInHost then .error .invalidHostCharacter
  else .ok (.domain (encode isControlByte s))

/-- The host's text: up to a colon that does not stand in brackets. -/
def spanHost : Bool → List Char → List Char × List Char
  | _, [] => ([], [])
  | inside, c :: r =>
    if c = ':' ∧ ¬ inside then ([], c :: r)
    else
      let inside := if c = '[' then true else if c = ']' then false else inside
      let (h, rest) := spanHost inside r
      (c :: h, rest)

/-- The port, if it is not the default one, from the text behind the host. -/
def parsePort (default? : Option Nat) (s : List Char) : Except Error (Option Nat) :=
  if s.all Char.isDigit then
    if s.isEmpty then .ok none
    else
      let n := s.foldl (fun n c => Nat.min (10 * n + (c.toNat - 48)) 65536) 0
      if 65535 < n then .error .invalidPort
      else .ok (if some n = default? then none else some n)
  else .error .invalidPort

/-- User name and password, percent-encoded; an empty password goes with its colon. -/
def userinfoChars (s : List Char) : List Char :=
  let name := s.takeWhile (· ≠ ':')
  let password := (s.drop name.length).drop 1
  encode inUserinfo name ++ (if password.isEmpty then [] else ':' :: encode inUserinfo password)

/-- What stands before and behind the last @. -/
def splitUserinfo (s : List Char) : Option (List Char) × List Char :=
  if s.contains '@' then
    let back := s.reverse.takeWhile (· ≠ '@')
    (some (s.take (s.length - back.length - 1)), back.reverse)
  else (none, s)

structure Authority where
  userinfo : List Char
  host : Host
  port : Option Nat

/-- A text cut where its authority ends. -/
def spanAuthority (k : Kind) (s : List Char) : List Char × List Char :=
  let auth := s.takeWhile (!endsAuthority k ·)
  (auth, s.drop auth.length)

/-- Reads the text between the slashes and what follows it; `more` says whether anything does. -/
def parseAuthority (k : Kind) (default? : Option Nat) (s : List Char) (more : Bool) :
    Except Error Authority := do
  let (user?, s) := splitUserinfo s
  let user := userinfoChars (user?.getD [])
  if user? = some [] ∧ s.isEmpty ∧ more then .error .emptyHost else
  let (hostText, rest) := spanHost false s
  if k = .special ∧ hostText.isEmpty then .error .emptyHost else
  let host ← if k = .plain then parseOpaqueHost hostText else parseHost hostText
  if hostText.isEmpty ∧ (rest.head? = some ':' ∨ ¬ user.isEmpty) then .error .emptyHost else
  let port ← match rest with
    | ':' :: digits => parsePort default? (digits.takeWhile (· ≠ '\\'))
    | _ => .ok none
  return ⟨user, host, port⟩

/-! ## Paths -/

def isDoublePoint (s : List Char) : Bool :=
  ["..", ".%2e", "%2e.", "%2e%2e"].contains (String.ofList (s.map Char.toLower))

def isSinglePoint (s : List Char) : Bool :=
  [".", "%2e"].contains (String.ofList (s.map Char.toLower))

/-- A segment that looks like the letter of a drive is never given up. -/
def isDriveLetter : List Char → Bool
  | [c, m] => c.isAlpha && (m == ':' || m == '|')
  | _ => false

/-- The segments before the last one, the nearest first, after one more. -/
def advance (before : List (List Char)) (segment : List Char) : List (List Char) :=
  if isDoublePoint segment then
    match before with
    | [] => []
    | d :: r => if isDriveLetter d then d :: r else r
  else if isSinglePoint segment then before
  else segment :: before

/-- Goes through the segments; a last one that only moves leaves an empty one in its place. -/
def walk : List (List Char) → List (List Char) → List (List Char)
  | before, [] => ([] :: before).reverse
  | before, [s] =>
    (if isDoublePoint s ∨ isSinglePoint s then [] :: advance before s else s :: before).reverse
  | before, s :: r => walk (advance before s) r

def normalizePath (s : List Char) : List (List Char) :=
  let s := match s with
    | '/' :: r => r
    | s => s
  walk [] (pieces '/' (encode inPath s))

/-! ## Whole texts -/

def splitAt (mark : Char) (s : List Char) : List Char × Option (List Char) :=
  let front := s.takeWhile (· ≠ mark)
  (front, (s.drop front.length).tail?)

def parseWeb (secure : Bool) (s : List Char) : Except Error Url := do
  let (auth, s) := spanAuthority .special (s.dropWhile (isSlash .special))
  let a ← parseAuthority .special (some (defaultPort secure)) auth (!s.isEmpty)
  let (s, fragment) := splitAt '#' s
  let (s, query) := splitAt '?' s
  return ⟨secure, a.userinfo, a.host, a.port,
    normalizePath (s.map fun c => if c = '\\' then '/' else c),
    query.map (encode inQuery), fragment.map (encode inFragment)⟩

/-- The host of a file URL, unless it is a drive letter. -/
def checkFile (s : List Char) : Except Error Unit :=
  match s with
  | a :: b :: s =>
    if isSlash .file a && isSlash .file b then
      let host := s.takeWhile (!endsAuthority .file ·)
      if host.isEmpty || isDriveLetter host then .ok () else (parseHost host).map fun _ => ()
    else .ok ()
  | _ => .ok ()

def checkOther (k : Kind) (scheme s : List Char) : Except Error Unit :=
  match k, s with
  | .file, s => checkFile s
  | .special, s =>
    let default? := if scheme = "ftp".toList then some 21
      else if scheme = "wss".toList then some 443 else some 80
    let (auth, s) := spanAuthority .special (s.dropWhile (isSlash .special))
    (parseAuthority .special default? auth (!s.isEmpty)).map fun _ => ()
  | .plain, '/' :: '/' :: s =>
    let (auth, s) := spanAuthority .plain s
    (parseAuthority .plain none auth (!s.isEmpty)).map fun _ => ()
  | .plain, _ => .ok ()

def parse (s : String) : Except Error Absolute :=
  match splitScheme (significant s) with
  | none => .error .relativeWithoutBase
  | some (scheme, rest) =>
    if scheme = "http".toList then (parseWeb false rest).map .web
    else if scheme = "https".toList then (parseWeb true rest).map .web
    else (checkOther (kindOf scheme) scheme rest).map fun _ => .other (String.ofList scheme)

end Url
end PingDelivery
