/-!
# Sizes

Lengths and capacities are natural numbers that fit in 64 bits. Doubling is the only arithmetic on
them that could leave that range, and it stops at the largest size.

Models the doubling in `grow` and `next_at_ceiling` of `LexBuffer`, from the module `buffer` of
`lexkit_core`.
-/

set_option autoImplicit false

namespace Lexing.Size

def max : Nat := UInt64.size - 1

/-- A size is read back from 64 bits. -/
theorem toNat_toUInt64 {n : Nat} (fits : n ≤ max) : n.toUInt64.toNat = n := by
  have largest : max < UInt64.size := by decide
  exact UInt64.toNat_ofNat_of_lt' (by omega)

/-- Twice a size, or the largest size where that would be too much. -/
def double (n : Nat) : Nat := min (2 * n) max

end Lexing.Size
