import Binaural.Primes
import Mathlib.Data.Nat.Nth
import Mathlib.Data.Nat.PrimeFin
import Mathlib.Tactic.IntervalCases
import Mathlib.Tactic.NormNum.Prime

/-!
The table of primes has all of them, up to the first one above its limit.

The table can be collected from anything that yields the primes one after the other
(`Primes.Collects`): numbers are taken until one is above the limit, which is still taken, or does
not fit in 32 bits, which is not.

* `isPrime_iff`: the test by the least factor is that of the library.
* `Primes.Listed` says which numbers the table has, without any search: the primes below the bound
  that follow no prime above the limit. The table has them (`Primes.mem_table_iff`), and so has
  what is collected (`Primes.Collects.mem_iff_listed`).
* `Primes.table_complete`: so both are one list, and its end is known from the next prime.
-/

namespace Binaural

/-! ## The test -/

/-- The search finds the least factor if it begins at or below it. -/
theorem leastFactorFrom_eq_minFac {n d : ℕ} (above : 2 ≤ n) (start : 2 ≤ d) (below : d ≤ n.minFac) :
    leastFactorFrom n d = n.minFac := by
  fun_induction leastFactorFrom n d with
  | case1 d passed =>
      have prime : n.Prime := by
        by_contra composite
        have square := Nat.minFac_sq_le_self (by omega) composite
        have larger := Nat.mul_le_mul below below
        rw [pow_two] at square
        omega
      exact prime.minFac_eq.symm
  | case2 d _ divides =>
      exact le_antisymm below (Nat.minFac_le_of_dvd start (Nat.dvd_of_mod_eq_zero divides))
  | case3 d _ indivisible ih =>
      have other : d ≠ n.minFac := by
        intro same
        exact indivisible (Nat.mod_eq_zero_of_dvd (same ▸ n.minFac_dvd))
      exact ih (by omega) (by omega)

theorem isPrime_iff {n : ℕ} : isPrime n = true ↔ n.Prime := by
  rw [isPrime, Bool.and_eq_true, decide_eq_true_iff, beq_iff_eq, Nat.prime_def_minFac]
  refine and_congr_right fun above => ?_
  have factor : 2 ≤ n.minFac := (Nat.minFac_prime (by omega)).two_le
  rw [leastFactor, leastFactorFrom_eq_minFac above le_rfl factor]

namespace Primes

/-! ## The table -/

/-- A number of the table: a prime that fits, of which all smaller primes are within the limit. -/
structure Listed (limit p : ℕ) : Prop where
  prime : p.Prime
  fits : p < bound
  within : ∀ q, q.Prime → q < p → q ≤ limit

theorem firstFrom?_eq_some {n bound q : ℕ} (found : firstFrom? n bound = some q) :
    IsLeast {p | p.Prime ∧ n ≤ p} q ∧ q < bound := by
  fun_induction firstFrom? n bound with
  | case1 n inside prime =>
      cases found
      exact ⟨⟨⟨isPrime_iff.mp prime, le_rfl⟩, fun p member => member.2⟩, inside⟩
  | case2 n inside composite ih =>
      rcases ih found with ⟨⟨⟨prime, further⟩, least⟩, fits⟩
      refine ⟨⟨⟨prime, by omega⟩, fun p member => least ⟨member.1, ?_⟩⟩, fits⟩
      have other : n ≠ p := by
        intro same
        exact composite (isPrime_iff.mpr (same ▸ member.1))
      have from_n := member.2
      omega
  | case3 n outside => cases found

theorem firstFrom?_eq_none {n bound : ℕ} (none_found : firstFrom? n bound = none) :
    ∀ p, p.Prime → n ≤ p → bound ≤ p := by
  fun_induction firstFrom? n bound with
  | case1 n inside prime => cases none_found
  | case2 n inside composite ih =>
      intro p prime from_n
      have other : n ≠ p := by
        intro same
        exact composite (isPrime_iff.mpr (same ▸ prime))
      exact ih none_found p prime (by omega)
  | case3 n outside =>
      intro p _ from_n
      omega

theorem mem_below_iff {n p : ℕ} : p ∈ below n ↔ p.Prime ∧ p < n := by
  rw [below, List.mem_filter, List.mem_range, isPrime_iff, and_comm]

theorem pairwise_below (n : ℕ) : (below n).Pairwise (· < ·) :=
  List.pairwise_lt_range.filter _

theorem mem_table_iff {limit p : ℕ} : p ∈ table limit ↔ Listed limit p := by
  unfold table
  cases next : firstFrom? (limit + 1) bound with
  | some last =>
      rcases firstFrom?_eq_some next with ⟨⟨⟨last_prime, above⟩, least⟩, fits⟩
      dsimp only
      rw [mem_below_iff]
      constructor
      · intro member
        refine ⟨member.1, by omega, fun q prime smaller => ?_⟩
        by_contra beyond
        have := least ⟨prime, (by omega : limit + 1 ≤ q)⟩
        omega
      · intro listed
        refine ⟨listed.prime, ?_⟩
        by_contra beyond
        have := listed.within last last_prime (by omega)
        omega
  | none =>
      have beyond := firstFrom?_eq_none next
      dsimp only
      rw [mem_below_iff]
      constructor
      · intro member
        refine ⟨member.1, member.2, fun q prime smaller => ?_⟩
        by_contra above
        have := beyond q prime (by omega)
        omega
      · intro listed
        exact ⟨listed.prime, listed.fits⟩

theorem pairwise_table (limit : ℕ) : (table limit).Pairwise (· < ·) := by
  unfold table
  cases firstFrom? (limit + 1) bound with
  | some last => exact pairwise_below (last + 1)
  | none => exact pairwise_below bound

/-! ## Collecting -/

/-- A generator yields all primes in ascending order. -/
structure Enumerates (generator : ℕ → ℕ) : Prop where
  ascending : StrictMono generator
  primes : ∀ p, p.Prime ↔ ∃ k, generator k = p

/-- What is collected of a generator from its `k`-th number on: all numbers up to the first one
above the limit, with that one, if none before is too large for the table. -/
inductive Collects (generator : ℕ → ℕ) (limit : ℕ) : ℕ → List ℕ → Prop
  /-- A number that does not fit ends the table before it. -/
  | full {k : ℕ} : bound ≤ generator k → Collects generator limit k []
  /-- A number above the limit ends the table after it. -/
  | last {k : ℕ} : generator k < bound → limit < generator k →
    Collects generator limit k [generator k]
  | more {k : ℕ} {rest : List ℕ} : generator k < bound → generator k ≤ limit →
    Collects generator limit (k + 1) rest → Collects generator limit k (generator k :: rest)

namespace Collects

variable {generator : ℕ → ℕ} {limit k : ℕ} {table : List ℕ}

/-- Collecting from an ascending generator ends. -/
theorem exists_of_ascending (ascending : StrictMono generator) (limit k : ℕ) :
    ∃ table, Collects generator limit k table := by
  -- Every number that is taken leaves less room below the bound.
  induction room : bound - generator k using Nat.strong_induction_on generalizing k with
  | _ room ih =>
      rcases Nat.lt_or_ge (generator k) bound with fits | large
      · rcases Nat.lt_or_ge limit (generator k) with above | within
        · exact ⟨_, .last fits above⟩
        · have further := ascending (Nat.lt_add_one k)
          rcases ih (bound - generator (k + 1)) (by omega) (k + 1) rfl with ⟨rest, others⟩
          exact ⟨_, .more fits within others⟩
      · exact ⟨_, .full large⟩

/-- A number is collected if it fits and none before it is above the limit. -/
theorem mem_iff (ascending : StrictMono generator) (run : Collects generator limit k table)
    {p : ℕ} : p ∈ table ↔
      p < bound ∧ ∃ j, k ≤ j ∧ generator j = p ∧ ∀ i, k ≤ i → i < j → generator i ≤ limit := by
  induction run with
  | @full k large =>
      refine iff_of_false List.not_mem_nil fun member => ?_
      rcases member with ⟨fits, j, later, value, -⟩
      have := ascending.monotone later
      omega
  | @last k fits above =>
      rw [List.mem_singleton]
      constructor
      · intro same
        exact ⟨same ▸ fits, k, le_rfl, same.symm, fun i _ _ => by omega⟩
      · intro member
        rcases member with ⟨-, j, later, value, earlier⟩
        rcases Nat.eq_or_lt_of_le later with same | beyond
        · rw [← value, same]
        · have := earlier k le_rfl beyond
          omega
  | @more k rest fits within _ ih =>
      rw [List.mem_cons, ih]
      constructor
      · intro member
        rcases member with same | ⟨small, j, later, value, earlier⟩
        · exact ⟨same ▸ fits, k, le_rfl, same.symm, fun i _ _ => by omega⟩
        · refine ⟨small, j, by omega, value, fun i from_k before => ?_⟩
          rcases Nat.eq_or_lt_of_le from_k with same | beyond
          · exact same ▸ within
          · exact earlier i beyond before
      · intro member
        rcases member with ⟨small, j, later, value, earlier⟩
        rcases Nat.eq_or_lt_of_le later with same | beyond
        · exact .inl (by rw [← value, same])
        · exact .inr ⟨small, j, beyond, value, fun i from_k => earlier i (by omega)⟩

theorem pairwise (ascending : StrictMono generator) (run : Collects generator limit k table) :
    table.Pairwise (· < ·) := by
  induction run with
  | full => exact .nil
  | last => exact List.pairwise_singleton _ _
  | @more k rest _ _ others ih =>
      refine List.pairwise_cons.mpr ⟨fun p member => ?_, ih⟩
      rcases (others.mem_iff ascending).mp member with ⟨-, j, later, value, -⟩
      exact value ▸ ascending later

/-- From all primes exactly those are collected that belong into the table. -/
theorem mem_iff_listed (enumerates : Enumerates generator)
    (run : Collects generator limit 0 table) {p : ℕ} : p ∈ table ↔ Listed limit p := by
  have order := enumerates.ascending
  rw [run.mem_iff order]
  constructor
  · intro member
    rcases member with ⟨fits, j, -, value, earlier⟩
    refine ⟨(enumerates.primes p).mpr ⟨j, value⟩, fits, fun q prime smaller => ?_⟩
    rcases (enumerates.primes q).mp prime with ⟨i, yielded⟩
    rw [← yielded, ← value] at smaller
    exact yielded ▸ earlier i (Nat.zero_le i) (order.lt_iff_lt.mp smaller)
  · intro listed
    rcases (enumerates.primes p).mp listed.prime with ⟨j, value⟩
    refine ⟨listed.fits, j, Nat.zero_le j, value, fun i _ before => ?_⟩
    exact listed.within (generator i) ((enumerates.primes _).mpr ⟨i, rfl⟩) (value ▸ order before)

/-- What is collected from the primes is the table. -/
theorem iff_eq_table (enumerates : Enumerates generator) {collected : List ℕ} :
    Collects generator limit 0 collected ↔ collected = Primes.table limit := by
  have only : ∀ other, Collects generator limit 0 other → other = Primes.table limit := by
    intro other run
    refine (run.pairwise enumerates.ascending).eq_of_mem_iff (pairwise_table limit) fun {p} => ?_
    rw [run.mem_iff_listed enumerates, mem_table_iff]
  constructor
  · exact only collected
  · intro same
    rcases exists_of_ascending enumerates.ascending limit 0 with ⟨other, run⟩
    rw [same, ← only other run]
    exact run

end Collects

/-! ## The end of the table -/

/-- There is a next prime after every limit. -/
theorem exists_isLeast (limit : ℕ) : ∃ q, IsLeast {p | p.Prime ∧ limit < p} q := by
  rcases Nat.exists_infinite_primes (limit + 1) with ⟨p, above, prime⟩
  have some : ∃ q, q.Prime ∧ limit < q := ⟨p, prime, above⟩
  exact ⟨Nat.find some, Nat.find_spec some, fun q member => Nat.find_min' some member⟩

/-- Up to the next prime after the limit, every prime is in the table that fits. -/
theorem mem_table_iff_le {limit q p : ℕ} (next : IsLeast {p | p.Prime ∧ limit < p} q) :
    p ∈ table limit ↔ p.Prime ∧ p ≤ q ∧ p < bound := by
  rw [mem_table_iff]
  constructor
  · intro listed
    refine ⟨listed.prime, ?_, listed.fits⟩
    by_contra beyond
    have := listed.within q next.1.1 (by omega)
    have := next.1.2
    omega
  · intro member
    refine ⟨member.1, member.2.2, fun r prime smaller => ?_⟩
    by_contra above
    have := next.2 ⟨prime, (by omega : limit < r)⟩
    omega

/-- Whatever yields all primes in ascending order, collecting from it ends and gives the table. This
is an ascending list of exactly the primes up to the next one after the limit, which alone is above
the limit; or of exactly the primes of 32 bits if the next one has more, and then none is above the
limit. -/
theorem table_complete {generator : ℕ → ℕ} (enumerates : Enumerates generator) (limit : ℕ) :
    (∀ collected, Collects generator limit 0 collected ↔ collected = table limit) ∧
      (table limit).Pairwise (· < ·) ∧
      ∃ q, IsLeast {p | p.Prime ∧ limit < p} q ∧
        (q < bound → (∀ p, p ∈ table limit ↔ p.Prime ∧ p ≤ q) ∧
          (table limit).filter (limit < ·) = [q]) ∧
        (bound ≤ q → (∀ p, p ∈ table limit ↔ p.Prime ∧ p < bound) ∧
          (table limit).filter (limit < ·) = []) := by
  rcases exists_isLeast limit with ⟨q, next⟩
  have member := @mem_table_iff_le limit q
  refine ⟨fun collected => Collects.iff_eq_table enumerates, pairwise_table limit, q, next,
    fun fits => ⟨fun p => ?_, ?_⟩, fun large => ⟨fun p => ?_, ?_⟩⟩
  · rw [member next]
    exact and_congr_right fun _ => and_iff_left_of_imp fun below => by omega
  · refine ((pairwise_table limit).filter _).eq_of_mem_iff (List.pairwise_singleton _ q) ?_
    intro p
    rw [List.mem_filter, decide_eq_true_iff, member next, List.mem_singleton]
    constructor
    · intro above
      exact le_antisymm above.1.2.1 (next.2 ⟨above.1.1, above.2⟩)
    · intro same
      rw [same]
      exact ⟨⟨next.1.1, le_rfl, fits⟩, next.1.2⟩
  · rw [member next]
    exact and_congr_right fun _ => and_iff_right_of_imp fun below => by omega
  · rw [List.filter_eq_nil_iff]
    intro p listed above
    rw [member next] at listed
    have := next.2 ⟨listed.1, of_decide_eq_true above⟩
    omega

theorem enumerates_nth : Enumerates (Nat.nth Nat.Prime) where
  ascending := Nat.nth_strictMono Nat.infinite_setOfPred_prime
  primes p := by
    have range := Nat.range_nth_of_infinite Nat.infinite_setOfPred_prime
    rw [← Set.mem_range, range]
    exact Iff.rfl

/-- A limit that is no prime, one that is, and the last prime of 32 bits. -/
theorem table_complete_ends :
    Enumerates (Nat.nth Nat.Prime) ∧
      Collects (Nat.nth Nat.Prime) 10 0 [2, 3, 5, 7, 11] ∧
      Collects (Nat.nth Nat.Prime) 11 0 [2, 3, 5, 7, 11, 13] ∧
      ∀ p ∈ table 4294967291, p ≤ 4294967291 := by
  have ten := table_complete enumerates_nth 10
  have eleven := table_complete enumerates_nth 11
  rcases table_complete enumerates_nth 4294967291 with ⟨-, -, q, next, -, ends⟩
  have large : bound ≤ q := by
    by_contra fits
    have above := next.1.2
    have small : q < 4294967296 := not_le.mp fits
    have composite : ¬ q.Prime := by
      interval_cases q
      all_goals norm_num
    exact composite next.1.1
  have within := List.filter_eq_nil_iff.mp (ends large).2
  refine ⟨enumerates_nth, (ten.1 _).mpr ?_, (eleven.1 _).mpr ?_, fun p listed => ?_⟩
  · decide +kernel
  · decide +kernel
  · exact not_lt.mp fun above => within p listed (decide_eq_true above)

end Primes

end Binaural
