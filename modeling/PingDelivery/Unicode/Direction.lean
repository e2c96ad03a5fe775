import PingDelivery.Unicode.Ranges

/-! # Writing direction

The classes of characters that texts of mixed direction are arranged by, as far as the rule for
domain names tells them apart. -/

namespace PingDelivery.Unicode

inductive Direction where
  | left
  | right
  | arabicNumber
  | number
  | neutral
  | mark
  deriving DecidableEq, Repr

/-- Letters of scripts that run from right to left. -/
def rightLetters : Ranges := .ofText
  "5BE 2 3 3 A-1A 5-5 14 3 2 E 2-2D 23-2 2-3 5-5C 10-1 8-1 B-13 3 2-1D 1E-58 C F-2A A-1 5 4-17 5 A
  4 8-E 2-18 6 2-A 6-1E 12-29 F2E9-10 2B1 98D-5 3 2-2B 2-1 4 3-16 2-47 9-8 31-12 2-1 6-20 5-19 6
  41-37 5-13 3-2E 10-3 2-2 2-1C B-8 8-8 8-3F 21-24 7-B A-35 B-15 3-1A 6-19 8-3 D-6 51-48 78-32
  8-29 15D-29 4 3-1 4F-27 9-15 C-8 17-11 5-3 27-1B 15-16 D80A-C4 3-8 53-21 8 5-9 5-1 312-43 4D-3C"

def arabicNumbers : Ranges := .ofText "660-9 2-1 106C4-9 127-1E"

def numbers : Ranges := .ofText "6F0-9 FBE8-1A"

def neutrals : Ranges := .ofText
  "A1-6 2 2-1 2 2-1 5-1 4 4 18 20 1C2-1 8-D 3-5 7-1 6-8 2-10 76 81 194 3-2 77-1 2-1 2 2-1 5B 74 B
  10D-3 1F9-1 8 F6 102-7 7E-6 1C1 FB-3 453-9 67 29B-1 13F 15-9 7-A 136 4-1 99-21 60D-1 3 2-4 2-B 4
  9-2 3 3-3 2 2-7 4-C 2-6 42-7 2-17 44 4 C 3-1 6-1 4 2 2 2 5 C 7-3 6-3 3D-1 5-9B 3 3-F7 3-A 46-19
  2-90 1A-A A1-1C0 2-152 101-10B 2-66 4-64 2-96 3-1F 2-68 E6-5 F-6 101-5D 23-19 2-3 2-52 10F 2-1
  4-18 10 7 6-2 61 5B C5-23 1BDD-3F 5691-36 147-2 64 B-1 81-21 67 A0-3 D-1 3B-3 2F3-1 51D3-11 80
  2E-2 46-1 2BB 3F-4C 4-C 4 77F 21A-6 513-13 5FB-C 969-1C 4FF1 6207-1 16-41 4 BB-56 FA9 BF1-1
  10F-2B 5-63 D-E 3-E 2-E 2-24 16-4 20 3E-2 3E B3-5 9B-3D7 6-F 4-C 4-73 D-58 8-B 5 10-B 5-37 9-9
  7-27 9-1D 3-1 4F-153 D-D 3-4 4-4 4-6 A-1C 4-A 6-5 B-9 7-7 9-6 A-92 2-36"

def nonspacingMarks : Ranges := .ofText
  "300-3F 3 4-8 2-1F 114-6 108-2C 2 2-1 2-1 2 49-A 31-14 11 66-6 3-5 3-1 2-3 24 1F-1A 5C-A 3B-8 A
  19-3 2-8 2-2 2-4 2C-2 3D-7 2B-17 2-1F 38 2 5-7 5 4-6 B-1 1E 3B 5-3 9 15-1 1B 3-1 3A 5-1 5-1 3-2
  4 1F-1 4 C-1 3A 5-4 2-1 5 15-1 17-5 2 3B 3 2-3 9 8-1 C-1 1F 3E D 33 4 38 2-2 6-2 2-3 8-1 C-1 1E
  3B 10-1 15-1 1D-1 3A-1 5-3 9 15-1 1E 49 8-2 2 5B 3-6 D-7 63 3-8 C-5 4B-1 1C 2 2 38-1 2 6-4 2 2-2
  2-1 6-5 2-3 2-3 2-3 2-3 2-3 2-B 2-2 A 67-3 2-5 2-1 3-1 1A-1 5-2 11-3 E 3-1 7 10 2C0-2 3B3-2 1E-1
  1F-1 1F-1 44-6 9 3-A A A8-1 23 77-2 5-1 A 7-2 DC-1 3 3B 2-6 2 2 3-7 7-9 3 31-1E 32-3 31 2-4 2 6
  29-8 D-1 21-3 3-1 2-2 39 2-1 4 2-2 3B-7 3-1 99-2 2-C 2-6 5 7 4-1 C7-3F 2D1-20 BFF-2 8E 61-1F
  22B-3 6C-1 75D5-3 2-9 21-1 51-1 111 4 5 1A-1 6 98-1 1B-11 E 27-7 1A-A 2F-2 31 3-3 3-1 28 44-5
  3-1 3-1 D 9 30 34 2-2 3-1 6-1 2 2B-1 9 EF 3 5 4F31 302-F 3CE E3 96-4 687-2 2-1 6-3 29-2 5 A6-1
  23E-3 184-1 9A-A 32-3 7C 37-E 2A 3-1 B-2 32-3 3-1 8 3E-2 25-4 2-7 3F D-1 35-8 B-3 3 60-2 3 2-1 7
  A1 4-7 16-1 3A-1 4 26-6 4-4 C4-7 3-2 2 18 55-5 2 5-1 2-1 EF-3 7-1 2-1 1C-1 56-7 3 2-1 6B 2 3-5 2
  66-2 3-3 2-4 104-8 2-1 101-1 2 5 91-3 3-1 5 21-5 3-1 29-5 3-3 9 A-5 3-2 2F-C 2-1 197-6 2-5 55-15
  3-6 2-1 2-1 7B-5 4 2-1 2-6 2 49-1 4 2 15C-1 4BFC-4 3C-6 419 40-3 52 4CB9-1 1262-2D 3-16 221-2
  12-7 3-6 1F-3 95-2 7BC-36 5-31 9 F 17-4 2-E 551-6 2-10 3-6 2-1 2-4 106-6 178 3E-3 5E1-6 6E-6"

def direction (c : Char) : Direction :=
  if c.isDigit then .number
  else if c.toNat < 128 then if c.isAlpha then .left else .neutral
  else if rightLetters.contains c then .right
  else if arabicNumbers.contains c then .arabicNumber
  else if numbers.contains c then .number
  else if neutrals.contains c then .neutral
  else if nonspacingMarks.contains c then .mark
  else .left

/-- Whether a label makes its domain one of mixed direction. -/
def runsRight (label : List Char) : Bool :=
  label.any fun c => [Direction.right, .arabicNumber].contains (direction c)

/-- The rule for labels of a domain of mixed direction: a label starts with a letter, holds only
classes of that letter's direction, and ends with a letter or a number; numbers of both kinds do not
stand together. -/
def isArranged (label : List Char) : Bool :=
  let ds := label.map direction
  let last := (ds.reverse.dropWhile (· == .mark)).head?
  match ds.head? with
  | none => true
  | some .left =>
    ds.all ([Direction.left, .number, .neutral, .mark].contains ·) &&
      (last == some .left || last == some .number)
  | some .right =>
    ds.all (· != .left) && last != some .neutral &&
      !(ds.contains .number && ds.contains .arabicNumber)
  | some _ => false

end PingDelivery.Unicode
