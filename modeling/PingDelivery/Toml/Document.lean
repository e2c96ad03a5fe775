import PingDelivery.Toml.Lexeme

/-! # TOML documents

A document is read line by line into a tree of tables. How a table came to be decides what may
still be added to it: a header defines a table once, dotted keys make tables that no header may
define again, and what is written in braces or brackets is closed. -/

namespace PingDelivery.Toml

/-! ## Keys and values -/

def isBareChar (c : Char) : Bool := c.isAlphanum || c == '_' || c == '-'

def simpleKey : Reader String := do
  match (← get) with
  | '"' :: r => set r; lineString '"'
  | '\x27' :: r => set r; lineString '\x27'
  | s =>
    let k := s.takeWhile isBareChar
    if k.isEmpty then failure
    set (s.drop k.length)
    return String.ofList k

/-- A key with the points between its parts; blanks around them do not count. -/
def dottedKey : Nat → Reader (List String)
  | 0 => failure
  | fuel + 1 => do
    skipSpace
    let k ← simpleKey
    skipSpace
    match (← get) with
    | '.' :: r => set r; return k :: (← dottedKey fuel)
    | _ => return [k]

/-- How many parts a key has at most, and how deep values may be nested. -/
def maxDepth : Nat := 79

def key : Reader (List String) := do
  let path ← dottedKey ((← get).length + 1)
  if path.length ≤ maxDepth then return path else failure

def skipComment : Reader Unit := do
  match (← get) with
  | '#' :: r => set (r.dropWhile isPrintable)
  | _ => pure ()

/-- Blanks, comments and line ends, as they may stand between the items of a list. -/
def skipLines : Nat → Reader Unit
  | 0 => pure ()
  | fuel + 1 => do
    skipSpace
    skipComment
    match newline? (← get) with
    | some r => set r; skipLines fuel
    | none => pure ()

def skipAllLines : Reader Unit := do skipLines ((← get).length + 1)

/-- Adds a value to a table in braces; the tables on the way may only be made by dotted keys of the
same braces. `made` says which they are. -/
def insertInline (v : Json) : List String → List (String × Json) → List (List String) →
    List String → Option (List (String × Json) × List (List String))
  | [], _, _, _ => none
  | [k], ms, made, _ => if ms.any (·.1 == k) then none else some (ms ++ [(k, v)], made)
  | k :: r, ms, made, above =>
    let here := above ++ [k]
    match ms.find? (·.1 == k) with
    | none => do
      let (inner, made) ← insertInline v r [] (here :: made) here
      return (ms ++ [(k, .obj inner)], made)
    | some (_, .obj inner) => do
      if ¬ made.contains here then none else
      let (inner, made) ← insertInline v r inner made here
      return (ms.map fun m => if m.1 == k then (k, .obj inner) else m, made)
    | some _ => none

def listItems (item : Reader Json) : Nat → List Json → Reader Json
  | 0, _ => failure
  | fuel + 1, acc => do
    skipAllLines
    match (← get) with
    | ']' :: r => set r; return .arr acc.reverse
    | _ =>
      let v ← item
      skipAllLines
      match (← get) with
      | ',' :: r => set r; listItems item fuel (v :: acc)
      | ']' :: r => set r; return .arr (v :: acc).reverse
      | _ => failure

def braceItems (item : Reader Json) :
    Nat → List (String × Json) → List (List String) → Reader Json
  | 0, _, _ => failure
  | fuel + 1, ms, made => do
    let path ← key
    take '='
    skipSpace
    let v ← item
    skipSpace
    match insertInline v path ms made [] with
    | none => failure
    | some (ms, made) =>
      match (← get) with
      | ',' :: r => set r; braceItems item fuel ms made
      | '}' :: r => set r; return .obj ms
      | _ => failure

def leaf : Reader Json := do
  match (← get) with
  | '"' :: _ => return .str (← quoted '"')
  | '\x27' :: _ => return .str (← quoted '\x27')
  | _ => scalar

/-- A value in which so many brackets and braces may still be opened. -/
def value : Nat → Reader Json
  | 0 => leaf
  | depth + 1 => do
    match (← get) with
    | '[' :: r => set r; listItems (value depth) (r.length + 1) []
    | '{' :: r => do
      set r
      skipSpace
      match (← get) with
      | '}' :: r => set r; return .obj []
      | r => braceItems (value depth) (r.length + 1) [] []
    | _ => leaf

/-! ## Tables -/

inductive Origin where
  /-- Came up on the way to another table. -/
  | implicit
  /-- Was made by a dotted key. -/
  | dotted
  /-- Has a header of its own. -/
  | explicit
  deriving DecidableEq

inductive Node where
  | leaf (v : Json)
  | table (origin : Origin) (members : List (String × Node))
  | tables (items : List (List (String × Node)))

abbrev Members := List (String × Node)

def Members.get? (ms : Members) (k : String) : Option Node := (ms.find? (·.1 == k)).map (·.2)

def Members.set (ms : Members) (k : String) (n : Node) : Members :=
  if ms.any (·.1 == k) then ms.map fun m => if m.1 == k then (k, n) else m else ms ++ [(k, n)]

/-- Changes the table at the end of a path; tables that are missing on the way come up. A dotted
key may not pass a table that has a header. -/
def descend (dotted : Bool) (change : Origin → Members → Option Members) :
    List String → Origin → Members → Option Members
  | [], origin, ms => change origin ms
  | k :: r, _, ms => do
    match ms.get? k with
    | none =>
      let origin := if dotted then .dotted else .implicit
      let inner ← descend dotted change r origin []
      return ms.set k (.table origin inner)
    | some (.leaf _) => none
    | some (.table origin inner) =>
      if dotted ∧ origin = .explicit then none
      else
        let inner ← descend dotted change r origin inner
        return ms.set k (.table origin inner)
    | some (.tables items) =>
      match items.getLast? with
      | none => none
      | some last =>
        let inner ← descend dotted change r .explicit last
        return ms.set k (.tables (items.dropLast ++ [inner]))

/-- Adds a key and its value to a table. Behind points the table must be one that points made. -/
def addKey (path : List String) (v : Json) (ms : Members) : Option Members := do
  let k ← path.getLast?
  descend true (fun origin ms =>
    if path.length ≠ 1 ∧ origin ≠ .dotted then none
    else if (ms.get? k).isSome then none
    else some (ms ++ [(k, .leaf v)])) path.dropLast .explicit ms

/-- Defines the table of a header, which may have come up before but not been defined. -/
def openTable (path : List String) (root : Members) : Option Members := do
  let k ← path.getLast?
  descend false (fun _ ms =>
    match ms.get? k with
    | none => some (ms ++ [(k, .table .explicit [])])
    | some (.table .implicit inner) => some (ms.set k (.table .explicit inner))
    | some _ => none) path.dropLast .explicit root

/-- Adds a table to the list of a doubled header. -/
def openItem (path : List String) (root : Members) : Option Members := do
  let k ← path.getLast?
  descend false (fun _ ms =>
    match ms.get? k with
    | none => some (ms ++ [(k, .tables [[]])])
    | some (.tables items) => some (ms.set k (.tables (items ++ [[]])))
    | some _ => none) path.dropLast .explicit root

/-! ## Lines -/

/-- The document so far, and the table that the next keys go to. -/
structure State where
  root : Members
  path : List String

def lift {α : Type} (o : Option α) : Reader α := StateT.lift o

def endLine : Reader Unit := do
  skipSpace
  skipComment
  match (← get) with
  | [] => pure ()
  | s =>
    match newline? s with
    | some r => set r
    | none => failure

def header (st : State) : Reader State := do
  match (← get) with
  | '[' :: r => do
    set r
    let path ← key
    take ']'
    take ']'
    return ⟨← lift (openItem path st.root), path⟩
  | _ => do
    let path ← key
    take ']'
    return ⟨← lift (openTable path st.root), path⟩

def keyValue (st : State) : Reader State := do
  let path ← key
  take '='
  skipSpace
  let v ← value maxDepth
  let root ← lift (descend false (fun _ ms => addKey path v ms) st.path .explicit st.root)
  return { st with root := root }

def lines : Nat → State → Reader State
  | 0, _ => failure
  | fuel + 1, st => do
    skipSpace
    match (← get) with
    | [] => return st
    | c :: r =>
      let st ← if c = '[' then do set r; header st
        else if c = '#' ∨ c = '\n' ∨ c = '\r' then pure st
        else keyValue st
      endLine
      lines fuel st

mutual
def Node.json : Node → Json
  | .leaf v => v
  | .table _ ms => .obj (membersJson ms)
  | .tables items => .arr (itemsJson items)

def membersJson : List (String × Node) → List (String × Json)
  | [] => []
  | (k, n) :: r => (k, n.json) :: membersJson r

def itemsJson : List (List (String × Node)) → List Json
  | [] => []
  | ms :: r => .obj (membersJson ms) :: itemsJson r
end

/-- A whole document as a tree of values; a mark of the byte order may stand in front. -/
def parse (s : String) : Option Json :=
  let cs := match s.toList with
    | c :: r => if c.toNat = 0xFEFF then r else c :: r
    | [] => []
  ((lines (cs.length + 1) ⟨[], []⟩).run cs).map fun p => .obj (membersJson p.1.root)

end PingDelivery.Toml
