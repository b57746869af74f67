import Binaural.LeastFactor
import Binaural.SampleRate

/-!
The table of primes that goes with a dataset. Lengths of delay lines are rounded to primes, which
are looked up in it.
-/

namespace Binaural.Primes

/-- The table reaches one prime past this. -/
def defaultLimit : Nat := sampleRate * 5

/-- Entries of the table are numbers of 32 bits. -/
def bound : Nat := Nat.pow 2 32

/-- The least prime from `n` on that is below a bound. -/
def firstFrom? (n bound : Nat) : Option Nat :=
  if n < bound then
    if isPrime n then some n else firstFrom? (n + 1) bound
  else none
termination_by bound - n

/-- All primes below a number, ascending. -/
def below (n : Nat) : List Nat := (List.range n).filter isPrime

/-- All primes up to the first one above the limit, which is the last; all primes below the bound
if there is none. -/
def table (limit : Nat) : List Nat :=
  match firstFrom? (limit + 1) bound with
  | some last => below (last + 1)
  | none => below bound

end Binaural.Primes
