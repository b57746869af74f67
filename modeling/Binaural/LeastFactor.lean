/-!
The least factor of a natural number, by trial division.

The size of a transform is split by it, and the primes are the numbers that it leaves alone.
-/

namespace Binaural

/-- The least divisor of `n` from `d` on, or `n` itself once the squares of the candidates pass
it. -/
def leastFactorFrom (n d : Nat) : Nat :=
  if n < d * d then n
  else if n % d = 0 then d
  else leastFactorFrom n (d + 1)
termination_by n + 1 - d
decreasing_by
  have := Nat.le_mul_self d
  omega

/-- The least divisor of a number above 1 that is itself above 1. -/
def leastFactor (n : Nat) : Nat := leastFactorFrom n 2

/-- Whether a number is prime: it is above 1 and its own least factor. -/
def isPrime (n : Nat) : Bool := 2 ≤ n && leastFactor n == n

/-- A search from 2 or above does not end below 2. -/
theorem two_le_leastFactorFrom {n d : Nat} (hn : 2 ≤ n) (hd : 2 ≤ d) :
    2 ≤ leastFactorFrom n d := by
  fun_induction leastFactorFrom n d with
  | case1 => exact hn
  | case2 => exact hd
  | case3 d _ _ ih => exact ih (by omega)

/-- The least factor of a number above 1 is above 1. -/
theorem two_le_leastFactor {n : Nat} (hn : 2 ≤ n) : 2 ≤ leastFactor n :=
  two_le_leastFactorFrom hn (Nat.le_refl 2)

/-- The quotient by the least factor is smaller, which is why a transform that splits off the factor
ends. -/
theorem div_leastFactor_lt {n : Nat} (hn : 2 ≤ n) : n / leastFactor n < n :=
  Nat.div_lt_self (by omega) (two_le_leastFactor hn)

end Binaural
