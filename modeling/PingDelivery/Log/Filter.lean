import PingDelivery.Log.Entry
import PingDelivery.Text.Blank
import PingDelivery.Text.Reading

/-! # Log filters

A filter is a list of rules. A rule may ask for a target, which stands for all targets it is the
start of, and for fields; the most specific rule that concerns an entry decides, and of equal ones
the last. Without such a rule nothing is logged. Rules that are about spans concern no entry. -/

namespace PingDelivery.Log

structure Rule where
  target : Option String
  fields : List String
  /-- The level up to which entries pass; `none` lets nothing pass. -/
  limit : Option Level
  deriving DecidableEq, Repr

namespace Rule

def concerns (r : Rule) (e : Entry) : Bool :=
  r.target.all (fun t => t.toList.isPrefixOf e.target.toList) && r.fields.all e.hasField

def allows (r : Rule) (l : Level) : Bool := r.limit.any fun m => decide (l.rank ≤ m.rank)

def targetSize (r : Rule) : Nat := (r.target.map fun t => t.utf8ByteSize + 1).getD 0

/-- Whether `b` decides where both concern an entry: the longer target, then the greater number of
fields, then the later in the order of names. -/
def yieldsTo (a b : Rule) : Bool :=
  if a.targetSize ≠ b.targetSize then a.targetSize < b.targetSize
  else if a.fields.length ≠ b.fields.length then a.fields.length < b.fields.length
  else !b.fields.lex a.fields fun x y => decide (x < y)

end Rule

abbrev Filter := List Rule

namespace Filter

def deciding (f : Filter) (e : Entry) : Option Rule :=
  (f.filter (·.concerns e)).foldl (fun best r =>
    match best with
    | none => some r
    | some b => if b.yieldsTo r then some r else some b) none

def passes (f : Filter) (e : Entry) : Bool := (f.deciding e).any (·.allows e.level)

theorem passes_nil (e : Entry) : passes [] e = false := rfl

/-! ## Reading -/

def levelOfName? (s : String) : Option (Option Level) :=
  let s := s.map Char.toLower
  if s = "off" then some none else (Level.ofName? s).map some

def levelOfNumber? (s : String) : Option (Option Level) :=
  match Text.readNat 0xFFFFFFFFFFFFFFFF s with
  | .ok 0 => some none
  | .ok n => (Level.all.find? fun l => l.rank == n).map some
  | .error _ => none

/-- A level by its name, in any case, or by its number. -/
def level? (s : String) : Option (Option Level) := (levelOfNumber? s).or (levelOfName? s)

/-- What stands behind the mark of equality; nothing stands for everything. -/
def limit? (s : List Char) : Option (Option Level) :=
  if s.isEmpty then some (some .trace) else level? (String.ofList s)

/-- Letters, digits and the signs that join them; beyond ASCII all but blanks and controls. -/
def mayStart (c : Char) : Bool :=
  c.isAlphanum || c == '-' || c == ':' || c == '_' ||
    (128 ≤ c.toNat && !Text.isBlank c && !Text.isControl c)

/-- A part of a filter: a rule about entries, or one that concerns spans alone. -/
inductive Part where
  | entries (r : Rule)
  | spans

/-- What follows an opening bracket: a span's name, or one field in braces, which may come with a
value. Only a field without either is about entries. -/
def bracket? (target : Option String) (s : List Char) : Option Part := do
  let name := s.takeWhile fun c => c ≠ ']' ∧ c ≠ '\x7b'
  let rule (fields : Option (List String)) (r : List Char) : Option Part := do
    let limit ← match r with
      | [] => some (some Level.trace)
      | '=' :: l => limit? l
      | _ => none
    return match fields with
      | some fs => .entries ⟨target, fs, limit⟩
      | none => .spans
  match s.drop name.length with
  | ']' :: r => rule none r
  | '\x7b' :: r =>
    let field := r.takeWhile (· ≠ '\x7d')
    if field.isEmpty then none else
    match r.drop field.length with
    | '\x7d' :: ']' :: r =>
      rule (if name.isEmpty ∧ ¬ field.contains '=' then some [String.ofList field] else none) r
    | _ => none
  | _ => none

/-- Reads one part. Blanks around it are no fault, but they stay where they are: what is cut out
behind them begins that much earlier. -/
def part? (s : List Char) : Option Part :=
  match Text.trim s with
  | [] => none
  | '[' :: r => bracket? none r
  | c :: r =>
    if ¬ mayStart c then none else
    let head := (c :: r).takeWhile fun c => c ≠ '=' ∧ c ≠ '['
    let target := String.ofList (s.take head.length)
    match (c :: r).drop head.length with
    | '=' :: _ => (limit? (s.drop (head.length + 1))).map fun l => .entries ⟨some target, [], l⟩
    | '[' :: r => bracket? (some target) r
    | _ =>
      let whole := String.ofList s
      match level? whole with
      | some l => some (.entries ⟨none, [], l⟩)
      | none => some (.entries ⟨some whole, [], some .trace⟩)

/-- Reads a list of parts with commas between them; one that cannot be read spoils all. -/
def read? (s : String) : Option Filter :=
  if s.isEmpty then some [] else
  (((s.splitOn ",").map String.toList).mapM part?).map fun parts =>
    parts.filterMap fun
      | .entries r => some r
      | .spans => none

/-! ## The built-in filter -/

/-- Where payloads are traced. -/
def payloadTarget : String := "ping_lifecycle::pings"

/-- Everything up to the level; the store and the executor less, the payload trace always. -/
def builtIn (l : Level) : Filter :=
  [⟨none, [], some l⟩, ⟨some "sled", [], some .warn⟩, ⟨some "tokio", [], some .warn⟩,
    ⟨some payloadTarget, [], some .info⟩]

def ruleText (r : Rule) : String :=
  let limit := (r.limit.map Level.name).getD "off"
  match r.target with
  | none => limit
  | some t => t ++ "=" ++ limit

/-- The text of a filter whose rules ask for no fields. -/
def text (f : Filter) : String := ",".intercalate (f.map ruleText)

end Filter
end PingDelivery.Log
