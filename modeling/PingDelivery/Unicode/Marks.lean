import PingDelivery.Unicode.Ranges

/-! # Combining marks

Which characters are marks on the one before them (general category M), and the classes in which
marks keep their order. -/

namespace PingDelivery.Unicode

def marks : Ranges := .ofText
  "300-3F 3 4-8 2-1F 114-6 108-2C 2 2-1 2-1 2 49-A 31-14 11 66-6 3-5 3-1 2-3 24 1F-1A 5C-A 3B-8 A
  19-3 2-8 2-2 2-4 2C-2 3D-7 2B-17 2-20 37-2 2-11 2-6 B-1 1E-2 39 2-6 3-1 3-2 A B-1 1B 3-2 39 2-4
  5-1 3-2 4 1F-1 4 C-2 39 2-7 2-2 2-2 15-1 17-5 2-2 39 2-6 3-1 3-2 8-2 B-1 1F 3C-4 4-2 2-3 A 29-4
  38 2-6 2-2 2-3 8-1 C-1 1E-2 39 2-6 2-2 2-3 8-1 C-1 1D-3 38-1 2-6 2-2 2-3 A B-1 1E-2 47 5-5 2 2-7
  13-1 3E 3-6 D-7 63 3-8 C-5 4B-1 1C 2 2 5-1 32-1 2 6-6 2-2 2-1 6-5 2-3 2-3 2-3 2-3 2-3 2-B 2-2 A
  65-13 18-3 5-2 2-2 3-6 4-3 E-B 2 B-3 2C0-2 3B3-3 1D-2 1E-1 1F-1 43-1D A A8-1 23 77-B 5-B DC-4
  3A-9 2-1C 3 31-1E 32-4 30-10 27-8 D-2 1F-C 39-D 31-13 99-2 2-14 5 7 3-2 C7-3F 2D1-20 BFF-2 8E
  61-1F 22B-5 6A-1 75D5-3 2-9 21-1 51-1 111 4 5 18-4 5 54-1 33-11 1B-11 E 27-7 1A-C 2D-3 30-D 25
  44-D D 9-1 2E-2 33 2-2 3-1 6-1 2 2A-4 6-1 ED-7 2-1 4F31 302-F 3CE E3 96-4 687-2 2-1 6-3 29-2 5
  A6-1 23E-3 184-1 9A-A 32-3 7B-2 36-E 2A 3-1 B-3 2E-A 8 3E-2 25-D 11-1 2D D-2 31-D 9-3 2-1 5D-B 7
  A1-B 16-3 38-1 2-6 3-1 3-2 A B-1 3-6 4-4 C1-11 18 52-13 EC-6 3-8 1C-1 53-10 6B-C 66-E 101-E F6-5
  2-1 3-3 2 2-1 8E-6 3-6 4 1D-9 29-6 2-3 9 A-A 2F-F 196-7 2-7 53-15 2-D 7B-5 4 2-1 2-6 2 43-4 2-1
  2-4 15C-3 4BFA-4 3C-6 419 2-36 8-3 52 C-1 4CAC-1 1262-2D 3-16 21F-4 4-5 9-7 3-6 1F-3 95-2 7BC-36
  5-31 9 F 17-4 2-E 551-6 2-10 3-6 2-1 2-4 106-6 178 3E-3 5E1-6 6E-6"

def isMark (c : Char) : Bool := 0x300 ≤ c.toNat && marks.contains c

/-- The marks of each class but 0. -/
def classes : List (Nat × Ranges) :=
  List.map (fun p : Nat × String => (p.1, Ranges.ofText p.2)) [
    (1, "334-4 199C E-6 3EA-1 5-2 B-1 4-1 E94E 60B7-4 51AA 14C9-2"),
    (6, "16FF0-1"),
    (7, "93C 80 80 80 80 100 80 37B AFD B2 51 8D7C 6707 B9 57 6C B3 52-1 10A 7D FD F7 183 109 3FF CC08"),
    (8, "3099-1"),
    (9, "94D 80 80 80 80 80 80 80 6E-1 11 7D 70 80 CA B5-1 6DA-1 1F 9E 28E E4 66-1 47-1 118C 7A87 26 98
      8F 6D 136 F7 5E52 607 2A F 3A 7A-1 8C 75 B5 63 F5 80 FD 80 77 75 10E 104-1 A2 54 13 52 1A6 105-1
      52"),
    (10, "5B0"),
    (11, "5B1"),
    (12, "5B2"),
    (13, "5B3"),
    (14, "5B4"),
    (15, "5B5"),
    (16, "5B6"),
    (17, "5B7"),
    (18, "5B8 F"),
    (19, "5B9-1"),
    (20, "5BB"),
    (21, "5BC"),
    (22, "5BD"),
    (23, "5BF"),
    (24, "5C1"),
    (25, "5C2"),
    (26, "FB1E"),
    (27, "64B 2A5"),
    (28, "64C 2A5"),
    (29, "64D 2A5"),
    (30, "618 36"),
    (31, "619 36"),
    (32, "61A 36"),
    (33, "651"),
    (34, "652"),
    (35, "670"),
    (36, "711"),
    (84, "C55"),
    (91, "C56"),
    (103, "E38-1"),
    (107, "E48-3"),
    (118, "EB8-1"),
    (122, "EC8-3"),
    (129, "F71"),
    (130, "F72 8-3 3"),
    (132, "F74"),
    (202, "321-1 5-1 1AA8"),
    (214, "1DCE"),
    (216, "31B C1E 1C22C-1 8-4"),
    (218, "1DFA 1230"),
    (220, "316-3 3-4 3-3 3-A 6-3 B-2 4-1 5-3 3-1 237 5 5 7-5 3 1B 90-1 6 3 84 7 3 44 3 3-2 2-1 2 4 2 2 2 AA
      B 5C-2 3E-2 34-4 10 3 3 4-2 7 3-1 58 5C6-1 1C 2 8F C7 8AE DD 67 36-5 3 2-1 3-1 6 A2 169-4 3-3 E
      D5 8 5 2A 4 2 2E9 4-3 883C-2 187 5373-6 3D0 E3 72D 2D AC 460-1 4 2-3 33 2 C1F6-7 8-1 1745-6"),
    (222, "59A 13 138C 16F4"),
    (224, "302E-1"),
    (226, "1D16D"),
    (228, "5AE 12FB 54E-1 1233"),
    (230, "300-14 29-2 3 4 4-2 4-2 5 4 8-C 114-4 10B-3 2-2 3-5 7-1 2-1 3 15 4C-7 3C-1 3-4 2-1 78-6 3-3 2
      3-1 3-1 44 2-1 2-1 4 3 2-2 2 2 2 2-1 A1-6 2 23-3 2-8 2-2 2-4 6B 4-3 2B-4 6-D 3-1 2-1 2-2 7-2 2-1
      3-4 52 2-1 AA 584-1 3-1 3D6-2 47E 15D DD 5E-7 34-4 7-1 5-1 3-4 2-3 9D 2-6 15D-2 8-1 5 14 4-1
      C7-1 2-6 2-1 5-24 6 3 2D2-1 3-3 4-1 5 6 2 7 BFF-2 EF-1F 7870 5-9 21-1 51-1 1EF-11 1BF 2-1 4-1
      6-1 2 535F-6 8-1 547-4 695 29 AD 23F-3 184-1 9C-2 2 36 2 17C-2 264-6 4-4 EA 56D2-6 664F-4 21-3
      95-2 DBC-6 2-10 3-6 2-1 2-4 106-6 178 3E-3 655-5"),
    (232, "315 5 3E 1A9E 1236"),
    (233, "35C 3 3 1A9A"),
    (234, "35D-1 2-1 1A6C")]

/-- The canonical combining class; 0 for everything that marks may stand on. -/
def combiningClass (c : Char) : Nat :=
  if c.toNat < 0x300 then 0 else ((classes.find? (·.2.contains c)).map (·.1)).getD 0

/-- The class of the marks that take the vowel from a letter. -/
def virama : Nat := 9

end PingDelivery.Unicode
