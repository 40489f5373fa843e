import TagTemplate.Number.Power

/-! The Mersenne Twister with 624 words of 32 bits, seeded by an integer of any size. The sign of
the seed does not count. Draws are binary64 numbers from zero to below one. -/
namespace TagTemplate.Random

structure MersenneTwister where
  words : Array UInt32
  used : Nat
  deriving DecidableEq

namespace MersenneTwister

def size : Nat := 624

def shift : Nat := 397

/-- The state that follows from one word by a linear rule. -/
def spread (seed : UInt32) : Array UInt32 :=
  ((List.range (size - 1)).foldl
    (fun (words, last) (i : Nat) =>
      let next : UInt32 := (1812433253 : UInt32) * (last ^^^ (last >>> 30)) + UInt32.ofNat (i + 1)
      (words.push next, next))
    (#[seed], seed)).1

def wordsOf : (fuel : Nat) → Nat → List UInt32
  | 0, n => [UInt32.ofNat n]
  | fuel + 1, n =>
    if n < twoPow 32 then [UInt32.ofNat n] else UInt32.ofNat n :: wordsOf fuel (n / twoPow 32)

/-- Where a pass over the words stands: the place of the word to be changed. -/
structure Mixing where
  words : Array UInt32
  place : Nat

/-- Changes the word at the place and steps on; the first word follows the last one. -/
def Mixing.step (m : Mixing) (change : UInt32 → UInt32 → UInt32) : Mixing :=
  let before := m.words.getD (m.place - 1) 0
  let words := m.words.setIfInBounds m.place
    (change (m.words.getD m.place 0) (before ^^^ (before >>> 30)))
  if m.place + 1 < size then ⟨words, m.place + 1⟩
  else ⟨words.setIfInBounds 0 (words.getD (size - 1) 0), 1⟩

def ofKey (key : Array UInt32) : MersenneTwister :=
  let mixed := (List.range (max size key.size)).foldl
    (fun m i =>
      let j := i % key.size
      m.step fun word mix => (word ^^^ (mix * 1664525)) + key.getD j 0 + UInt32.ofNat j)
    (⟨spread 19650218, 1⟩ : Mixing)
  let settled := (List.range (size - 1)).foldl
    (fun m _ =>
      let place := UInt32.ofNat m.place
      m.step fun word mix => (word ^^^ (mix * 1566083941)) - place)
    mixed
  ⟨settled.words.setIfInBounds 0 0x80000000, size⟩

def ofSeed (seed : Int) : MersenneTwister :=
  ofKey (wordsOf (seed.natAbs.log2 / 32 + 1) seed.natAbs).toArray

/-- The next generation of words, each from itself, its neighbour and a far one. -/
def regenerate (words : Array UInt32) : Array UInt32 :=
  (List.range size).foldl
    (fun words i =>
      let y := (words.getD i 0 &&& 0x80000000) ||| (words.getD ((i + 1) % size) 0 &&& 0x7fffffff)
      let twist : UInt32 := if y &&& 1 = 0 then 0 else 0x9908b0df
      words.setIfInBounds i (words.getD ((i + shift) % size) 0 ^^^ (y >>> 1) ^^^ twist))
    words

def temper (y : UInt32) : UInt32 :=
  let y := y ^^^ (y >>> 11)
  let y := y ^^^ ((y <<< 7) &&& 0x9d2c5680)
  let y := y ^^^ ((y <<< 15) &&& 0xefc60000)
  y ^^^ (y >>> 18)

def nextWord (g : MersenneTwister) : UInt32 × MersenneTwister :=
  let g := if g.used < size then g else ⟨regenerate g.words, 0⟩
  (temper (g.words.getD g.used 0), ⟨g.words, g.used + 1⟩)

/-- A number from zero to below one, with 53 random bits. -/
def draw (g : MersenneTwister) : Float × MersenneTwister :=
  let (high, g) := g.nextWord
  let (low, g) := g.nextWord
  let bits := (high >>> 5).toNat * twoPow 26 + (low >>> 6).toNat
  (Float.ofNat bits / 9007199254740992, g)

end MersenneTwister
end TagTemplate.Random
