import TagTemplate.Random.MersenneTwister

/-! Sources of draws. -/
namespace TagTemplate.Random

/-- Where draws come from: a seeded generator, or given numbers over and over. -/
inductive Generator where
  | twister (g : MersenneTwister)
  | cycle (numbers : List Float) (used : Nat)

namespace Generator

def ofSeed (seed : Option Int) : Generator :=
  twister (.ofSeed (seed.getD 0))

/-- The next number. There is none if no numbers are given. -/
def draw : Generator → Option Float × Generator
  | twister g =>
    let (number, g) := g.draw
    (some number, twister g)
  | cycle numbers used =>
    (numbers[used % numbers.length]?, cycle numbers (used + 1))

end Generator
end TagTemplate.Random
