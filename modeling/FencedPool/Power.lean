/-!
# Power — powers of two and of ten

Powers of two bound what fits a machine word; powers of ten are the places of decimal digits.

This file defines `Power.two` and `Power.ten`.
-/

namespace FencedPool

namespace Power

def two (n : Nat) : Nat := Nat.pow 2 n

def ten (n : Nat) : Nat := Nat.pow 10 n

end Power

end FencedPool
