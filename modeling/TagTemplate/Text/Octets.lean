import TagTemplate.Text.Quoted

/-! Octets as texts: how messages show them, and how four letters stand for three of them. -/
namespace TagTemplate.Text.Octets

/-- One octet between quotes. Those that are no ASCII characters, or hidden ones, are written by
number. -/
def shownOctet (quote : Char) (o : UInt8) : List Char :=
  let c := Char.ofNat o.toNat
  if o.toNat < 0x7F then quoteChar quote c else '\\' :: 'x' :: hexDigits 2 o.toNat

def shown (os : List UInt8) : String :=
  let quote := quoteFor (os.map fun o => Char.ofNat o.toNat)
  String.ofList ('b' :: quote :: os.flatMap (shownOctet quote) ++ [quote])

def sixBits? (c : Char) : Option Nat :=
  if 'A' ≤ c && c ≤ 'Z' then some (c.toNat - 'A'.toNat)
  else if 'a' ≤ c && c ≤ 'z' then some (c.toNat - 'a'.toNat + 26)
  else if '0' ≤ c && c ≤ '9' then some (c.toNat - '0'.toNat + 52)
  else if c = '+' then some 62
  else if c = '/' then some 63
  else none

/-- Where reading stands: how many letters of a group of four are read, the bits of the last one
that belong to the next octet, and the equals signs behind it. -/
structure Group where
  letters : Nat
  left : Nat
  pads : Nat

/-- Reads one letter: what it completes, and the bits that are left. -/
def Group.add (g : Group) (bits : Nat) : List UInt8 × Group :=
  match g.letters with
  | 0 => ([], ⟨1, bits, 0⟩)
  | 1 => ([.ofNat (g.left * 4 + bits / 16)], ⟨2, bits % 16, 0⟩)
  | 2 => ([.ofNat (g.left * 16 + bits / 4)], ⟨3, bits % 4, 0⟩)
  | _ => ([.ofNat (g.left * 64 + bits)], ⟨0, 0, 0⟩)

/-- Reads letters in groups of four. Equals signs fill the last group and end the text; characters
that stand for nothing are passed over. -/
def ofLettersFrom? (g : Group) : List Char → Option (List UInt8)
  | [] => if g.letters = 0 then some [] else none
  | c :: rest =>
    if c = '=' then
      let g := if 2 ≤ g.letters then { g with pads := g.pads + 1 } else g
      if 2 ≤ g.letters ∧ 4 ≤ g.letters + g.pads then some [] else ofLettersFrom? g rest
    else
      match sixBits? c with
      | none => ofLettersFrom? g rest
      | some bits =>
        let (os, g) := g.add bits
        (ofLettersFrom? g rest).map (os ++ ·)

def ofLetters? (cs : List Char) : Option (List UInt8) :=
  ofLettersFrom? ⟨0, 0, 0⟩ cs

end TagTemplate.Text.Octets
