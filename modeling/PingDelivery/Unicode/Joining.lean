import PingDelivery.Unicode.Marks

/-! # Joiners

Two invisible characters say whether letters join. In a domain name the one that parts letters may
stand where joined letters would meet, and both may stand behind a mark that takes the vowel. -/

namespace PingDelivery.Unicode

/-- Letters that join what follows. -/
def joiningForward : Ranges := .ofText
  "620 6 2 2-4 5-C 2-6 2-1 24-1 A-E 13-25 2-1 A 2 2-1 29-2 3 13-2 6-3 2-8 2 2 2-1 20-A 4-E 3-3 2
  3-2 3-5 4B-20 57-4 3 2-9 2 B 2-3 3 1E 3-4 2 11-9 6-1 3-5 2-E F3F 19-58 F-21 2 8F96-32 624E-4 9
  6-9 2-2 B-3 92 2 4-2 2-1 2 3 1D-1 152-21 2 1A0-1 2-1 69-2 2-10 D-2 1D-3 3-B 2F 2-1 5 3-1 2-1 2 3
  6-1 D957-21"

/-- Letters that join what stands before. -/
def joiningBackward : Ranges := .ofText
  "620 2-1D 2-9 24-1 2-2 6-5A 2 19-1 B-2 3 11 2-1D 1E-32 4B-20 56-18 8 2-3 2-3 6-12 4 3-6 11-C 2-1A
  F3F 19-58 F-21 2 8F96-31 624F-5 2 2-1 4-8 2-9 3 7-4 91-11 18-5 153-22 19F-2 2-1 69-14 D-3 1C-11
  2F 2-4 2-7 2-3 5-1 D958-21"

/-- Characters that joining passes over. -/
def transparent : Ranges := .ofText
  "300-3F 3 4-8 2-1F 114-6 108-2C 2 2-1 2-1 2 49-A 31-14 11 66-6 3-5 3-1 2-3 24 1F-1A 5C-A 3B-8 A
  19-3 2-8 2-2 2-4 2C-2 3C-8 2B-17 2-1F 38 2 5-7 5 4-6 B-1 1E 3B 5-3 9 15-1 1B 3-1 3A 5-1 5-1 3-2
  4 1F-1 4 C-1 3A 5-4 2-1 5 15-1 17-5 2 3B 3 2-3 9 8-1 C-1 1F 3E D 33 4 38 2-2 6-2 2-3 8-1 C-1 1E
  3B 3 7 6-1 15-1 1D-1 3A-1 5-3 9 15-1 1E 49 8-2 2 5B 3-6 D-7 63 3-8 C-6 4A-1 1C 2 2 38-1 2 6-4 2
  2-2 2-1 6-5 2-3 2-3 2-3 2-3 2-3 2-B 2-2 A 67-3 2-5 2-1 3-1 1A-1 5-2 11-3 E 3-1 7 10 2C0-2 3B3-2
  1E-1 1F-1 1F-1 44-6 9 3-A A A8-1 23 77-2 5-1 A 7-2 DC-1 3 3B 2-6 2 2 3-7 7-9 3 31-2D 3-B 15-3 31
  2-4 2 6 29-8 D-1 21-3 3-1 2-2 39 2-1 4 2-2 3B-7 3-1 99-2 2-C 2-6 5 7 4-1 C7-3F 2D1-20 BFF-2 8E
  61-1F 22B-3 6C-1 75D5-3 2-9 21-1 51-1 111 4 5 1A-1 6 98-1 1B-11 E 27-7 1A-A 2F-2 31 3-3 3-1 28
  44-5 3-1 3-1 D 9 30 34 2-2 3-1 6-1 2 2B-1 9 EF 3 5 4F31 302-F 3CE E3 96-4 687-2 2-1 6-3 29-2 5
  A6-1 23E-3 42-4 13E-1 4E-5 47-A 32-3 7C 37-E 2A 3-1 B-2 32-3 3-1 8 3E-2 25-4 2-7 3F D-1 35-8 B-3
  3 60-2 3 2-1 7 3 9E 4-7 16-1 3A-1 4 26-6 4-4 47-5 E 2 2 F-1 56-7 3-2 2 18 55-5 2 5-1 2-1 EF-3
  7-1 2-1 1C-1 56-7 3 2-1 6B 2 3-5 2 66 2 3-3 2-4 104-8 2-1 101-1 2 5 91-3 3-1 5 21-9 29-5 3-3 9
  A-5 3-2 2F-C 2-1 C7 2-2 2 CA-6 2-5 2 53-15 3-6 2-1 2-1 7B-5 4 2-1 2-6 2 49-1 4 2 15C-1 C-1 35-4
  6 2 18 14E6 7-E 2CC9-B 4-2 9C1-4 3C-6 419 40-3 52 4CB9-1 1262-2D 3-16 221-2 12-7 3-6 1F-3 95-2
  7BC-36 5-31 9 F 17-4 2-E 551-6 2-10 3-6 2-1 2-4 65 A1-6 178 3E-3 1FD-3 FF-1 F4 3 8-1 6 1DB-6
  6E-7"

def nonJoiner : Nat := 0x200C
def joiner : Nat := 0x200D

def behindVirama (before : List Char) : Bool := before.head?.any (combiningClass · == virama)

/-- Whether a letter of the set comes first, transparent characters apart. -/
def meets (set : Ranges) (s : List Char) : Bool :=
  (s.dropWhile transparent.contains).head?.any set.contains

/-- Whether every joiner is in its place; `before` is what stands before it, the nearest first. -/
def joinersPlaced : List Char → List Char → Bool
  | _, [] => true
  | before, c :: r =>
    (if c.toNat = joiner then behindVirama before
      else if c.toNat = nonJoiner then
        behindVirama before || (meets joiningForward before && meets joiningBackward r)
      else true) && joinersPlaced (c :: before) r

end PingDelivery.Unicode
