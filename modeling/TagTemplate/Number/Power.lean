/-! Powers of two, which place the bits of a number, and powers of ten, which place its digits. -/
namespace TagTemplate

def twoPow (n : Nat) : Nat := Nat.pow 2 n

def tenPow (n : Nat) : Nat := Nat.pow 10 n

theorem twoPow_pos (n : Nat) : 0 < twoPow n := Nat.pow_pos (by decide)

end TagTemplate
