/-! Small letters for capital ones, in the alphabets that give every capital one small letter: Latin
with its accents, Greek, Cyrillic and Armenian. Every other character stays as it is. -/
namespace TagTemplate.Text

/-- Capitals that stand in a row, from the first to the last, and how far behind each its small
letter is. -/
def capitalRuns : List (Nat × Nat × Nat) :=
  [(0x41, 0x5A, 32), (0xC0, 0xD6, 32), (0xD8, 0xDE, 32), (0x386, 0x386, 38), (0x388, 0x38A, 37),
    (0x38C, 0x38C, 64), (0x38E, 0x38F, 63), (0x391, 0x3A1, 32), (0x3A3, 0x3AB, 32),
    (0x400, 0x40F, 80), (0x410, 0x42F, 32), (0x531, 0x556, 48)]

def capitalPairs : List (Nat × Nat) :=
  [(0x100, 0x12F), (0x132, 0x137), (0x139, 0x148), (0x14A, 0x177), (0x179, 0x17E),
    (0x460, 0x481), (0x48A, 0x4BF), (0x4C1, 0x4CE), (0x4D0, 0x52F)]

def lowerChar (c : Char) : Char :=
  let n := c.toNat
  match capitalRuns.find? fun (first, last, _) => first ≤ n && n ≤ last with
  | some (_, _, distance) => Char.ofNat (n + distance)
  | none =>
    match capitalPairs.find? fun (first, last) => first ≤ n && n ≤ last with
    | some (first, _) => if (n - first) % 2 = 0 then Char.ofNat (n + 1) else c
    | none => c

def lower (cs : List Char) : List Char :=
  cs.map lowerChar

end TagTemplate.Text
