import Mathlib.Algebra.Order.Ring.Nat
import Mathlib.Data.List.TakeWhile
import Pipeline.Backoff

/-!
# How long retries wait

The wait doubles from one retry to the next, but what it is multiplied with has 32 bits only. The
standard limit of an hour hides this; a limit of more than 136 years does not.

* `Backoff.factor_of_le`, `Backoff.factor_of_lt`: what the first wait is multiplied with is a power
  of two up to the 32nd retry, and does not change from then on.
* `Backoff.delay?_eq_some`, `Backoff.delays_eq_map`: there is a wait before each of the retries, and
  the list of the waits has them all.
* `Backoff.wait_mono`, `Backoff.delays_laws`: whatever the first wait and the limit are, no wait is
  shorter than the one before it or longer than the limit.
* `Backoff.wait_eq_doubled_iff`, `Backoff.delay?_eq_doubled_iff`: when a wait is the first one,
  doubled from retry to retry, up to the limit.
* `Spec.retryDelays?_eq`: with the standard limit it always is.
-/

namespace Pipeline

/-! ## Lengths of time -/

namespace Duration

theorem nanos_inj {a b : Duration} : a.nanos = b.nanos ↔ a = b :=
  ⟨congrArg mk, congrArg nanos⟩

theorem nanos_min (a b : Duration) : (a.min b).nanos = Min.min a.nanos b.nanos := rfl

instance : LE Duration := ⟨fun a b => a.nanos ≤ b.nanos⟩

theorem le_iff {a b : Duration} : a ≤ b ↔ a.nanos ≤ b.nanos := Iff.rfl

theorem min_le_right (a b : Duration) : a.min b ≤ b := Nat.min_le_right a.nanos b.nanos

theorem min_le_min_right {a b : Duration} (h : a ≤ b) (c : Duration) : a.min c ≤ b.min c := by
  rw [le_iff] at h
  rw [le_iff, nanos_min, nanos_min]
  omega

theorem seconds_ofSeconds (n : Nat) : (ofSeconds n).seconds = n :=
  Nat.mul_div_cancel _ (by decide)

theorem min_ofSeconds (a b : Nat) :
    (ofSeconds a).min (ofSeconds b) = ofSeconds (Min.min a b) :=
  congrArg mk (Nat.mul_min_mul_right a b secondNanos)

theorem times?_ofSeconds {a n : Nat} (h : a * n < Text.wordLimit) :
    (ofSeconds a).times? n = some (ofSeconds (a * n)) := by
  have hn : a * secondNanos * n = a * n * secondNanos := Nat.mul_right_comm ..
  have hlt : a * n * secondNanos < limit := Nat.mul_lt_mul_of_pos_right h (by decide)
  simp only [times?, ofSeconds, hn, if_pos hlt]

theorem times?_of_lt {d : Duration} {n : Nat} (h : d.nanos * n < limit) :
    d.times? n = some ⟨d.nanos * n⟩ := if_pos h

theorem times?_of_le {d : Duration} {n : Nat} (h : limit ≤ d.nanos * n) : d.times? n = none :=
  if_neg (Nat.not_lt_of_le h)

/-- A limit makes two lengths equal if it is not above the shorter one. -/
theorem min_ofSeconds_eq_iff {a b : Nat} {limit : Duration} (h : a ≤ b) :
    (ofSeconds a).min limit = (ofSeconds b).min limit ↔
      a = b ∨ limit.nanos ≤ (ofSeconds a).nanos := by
  have hle : a * secondNanos ≤ b * secondNanos := Nat.mul_le_mul_right _ h
  have heq : a * secondNanos = b * secondNanos ↔ a = b := Nat.mul_left_inj (by decide)
  rw [← nanos_inj, nanos_min, nanos_min, ← heq]
  simp only [ofSeconds]
  omega

end Duration

/-! ## Policies -/

namespace RetryPolicy

variable {p : RetryPolicy}

theorem isEnabled_eq_false_iff :
    p.isEnabled = false ↔ Text.trim p.retryCondition = "never" ∨ p.maxRetries = 0 := by
  simp [isEnabled, never, or_iff_not_imp_left]

theorem toNat_retryDelay_pos (h : p.retryDelay ≠ 0) : 0 < p.retryDelay.toNat :=
  Nat.pos_of_ne_zero fun hd => h (UInt32.toNat_inj.mp hd)

end RetryPolicy

namespace Backoff

variable {n : Nat}

/-! ## Factors -/

theorem factor_of_le (h : n ≤ 32) : factor n = 2 ^ (n - 1) := if_pos h

theorem factor_of_lt (h : 32 < n) : factor n = 2 ^ 32 - 1 := if_neg (Nat.not_le_of_lt h)

/-- A factor has 32 bits. -/
theorem factor_lt (n : Nat) : factor n < 2 ^ 32 := by
  rcases Nat.lt_or_ge 32 n with h | h
  · rw [factor_of_lt h]
    decide
  · rw [factor_of_le h]
    exact Nat.pow_lt_pow_right (by decide) (by omega)

/-- From the 33rd retry on, the power of two does not fit. -/
theorem factor_lt_two_pow (h : 32 < n) : factor n < 2 ^ (n - 1) :=
  Nat.lt_of_lt_of_le (factor_lt n) (Nat.pow_le_pow_right (by decide) (by omega))

theorem factor_le_two_pow (n : Nat) : factor n ≤ 2 ^ (n - 1) := by
  rcases Nat.lt_or_ge 32 n with h | h
  · exact Nat.le_of_lt (factor_lt_two_pow h)
  · exact Nat.le_of_eq (factor_of_le h)

/-! ## Waits -/

/-- The wait before a retry that there is. -/
def wait (b : Backoff) (n : Nat) : Duration :=
  ((b.base.times? (factor n)).getD b.maxDelay).min b.maxDelay

theorem delay?_eq_some (b : Backoff) (h : 1 ≤ n) (hn : n ≤ b.maxRetries.toNat) :
    b.delay? n = some (b.wait n) :=
  if_neg (by omega)

/-- There is a wait before each retry, so none cuts the list of the waits short. -/
theorem delays_eq_map (b : Backoff) :
    b.delays = (List.range b.maxRetries.toNat).map fun i => b.wait (i + 1) := by
  have hfound : ((List.range b.maxRetries.toNat).map fun i => b.delay? (i + 1)) =
      ((List.range b.maxRetries.toNat).map fun i => b.wait (i + 1)).map some := by
    rw [List.map_map]
    refine List.map_congr_left fun i hi => ?_
    exact b.delay?_eq_some (Nat.succ_pos i) (List.mem_range.mp hi)
  have hall : ∀ d ∈ ((List.range b.maxRetries.toNat).map fun i => b.wait (i + 1)).map some,
      d.isSome = true :=
    List.forall_mem_map.mpr fun _ _ => rfl
  rw [delays, hfound, List.takeWhile_eq_self_iff.mpr hall, List.filterMap_map]
  exact List.filterMap_some

theorem delay?_eq_none_iff (b : Backoff) :
    b.delay? n = none ↔ n = 0 ∨ b.maxRetries.toNat < n := by
  constructor
  · intro h
    by_contra hn
    rw [delay?, if_neg hn] at h
    cases h
  · intro h
    exact if_pos h

theorem map_some_delays (b : Backoff) :
    b.delays.map some = (List.range b.maxRetries.toNat).map fun i => b.delay? (i + 1) := by
  rw [delays_eq_map, List.map_map]
  refine List.map_congr_left fun i hi => ?_
  exact (b.delay?_eq_some (Nat.succ_pos i) (List.mem_range.mp hi)).symm

theorem length_delays (b : Backoff) : b.delays.length = b.maxRetries.toNat := by
  have h := congrArg List.length b.map_some_delays
  rwa [List.length_map, List.length_map, List.length_range] at h

theorem getElem?_delays (b : Backoff) (i : Nat) : b.delays[i]? = b.delay? (i + 1) := by
  rcases Nat.lt_or_ge i b.maxRetries.toNat with hi | hi
  · rw [delays_eq_map, List.getElem?_map, List.getElem?_range hi,
      b.delay?_eq_some (Nat.succ_pos i) hi]
    rfl
  · have hlen : b.delays.length ≤ i := Nat.le_trans (Nat.le_of_eq b.length_delays) hi
    rw [List.getElem?_eq_none hlen]
    exact (b.delay?_eq_none_iff.mpr (.inr (Nat.lt_succ_of_le hi))).symm

/-! ## The order of the waits -/

theorem factor_mono {m : Nat} (h : m ≤ n) : factor m ≤ factor n := by
  rcases Nat.lt_or_ge 32 n with hn | hn
  · have hm := factor_lt m
    rw [factor_of_lt hn]
    omega
  · rw [factor_of_le hn, factor_of_le (Nat.le_trans h hn)]
    exact Nat.pow_le_pow_right (by decide) (by omega)

theorem wait_le_maxDelay (b : Backoff) (n : Nat) : b.wait n ≤ b.maxDelay :=
  Duration.min_le_right _ _

/-- Once a product is too long, all later ones are, and the wait is the limit from then on. -/
theorem wait_mono (b : Backoff) {m : Nat} (h : m ≤ n) : b.wait m ≤ b.wait n := by
  have hmul : b.base.nanos * factor m ≤ b.base.nanos * factor n :=
    Nat.mul_le_mul_left _ (factor_mono h)
  rcases Nat.lt_or_ge (b.base.nanos * factor n) Duration.limit with hn | hn
  · have hm := Nat.lt_of_le_of_lt hmul hn
    rw [wait, wait, Duration.times?_of_lt hn, Duration.times?_of_lt hm]
    exact Duration.min_le_min_right hmul _
  · have hwait : b.wait n = b.maxDelay := by
      rw [wait, Duration.times?_of_le hn, Option.getD_none]
      exact Duration.nanos_inj.mp (Nat.min_self _)
    rw [hwait]
    exact b.wait_le_maxDelay m

theorem pairwise_delays (b : Backoff) : b.delays.Pairwise (· ≤ ·) := by
  rw [delays_eq_map, List.pairwise_map]
  refine List.pairwise_lt_range.imp fun hlt => ?_
  exact b.wait_mono (Nat.succ_le_succ (Nat.le_of_lt hlt))

/-- There is a wait before each retry and before nothing else. The list of the waits has them all,
in the order of the retries; no wait is shorter than the one before it, and none is longer than the
limit. -/
theorem delays_laws (b : Backoff) :
    (∀ n, b.delay? n = none ↔ n = 0 ∨ b.maxRetries.toNat < n) ∧
    (b.delays.map some = (List.range b.maxRetries.toNat).map fun i => b.delay? (i + 1)) ∧
    b.delays.length = b.maxRetries.toNat ∧
    (∀ i, b.delays[i]? = b.delay? (i + 1)) ∧
    b.delays.Pairwise (· ≤ ·) ∧
    ∀ d ∈ b.delays, d ≤ b.maxDelay := by
  refine ⟨fun _ => b.delay?_eq_none_iff, b.map_some_delays, b.length_delays, b.getElem?_delays,
    b.pairwise_delays, ?_⟩
  intro d hd
  rw [delays_eq_map] at hd
  obtain ⟨i, -, rfl⟩ := List.mem_map.mp hd
  exact b.wait_le_maxDelay (i + 1)

/-- The first wait has half a second beyond the whole ones. The product with the 32nd factor is the
last one that fits, and the limit is the longest length that there is. -/
def steep : Backoff := ⟨40, ⟨4294967298500000000⟩, ⟨18446744073709551615999999999⟩⟩

theorem delays_laws_steep :
    steep.delays.length = 40 ∧ steep.delay? 41 = none ∧
    steep.delays[31]? = some ⟨9223372042223484928000000000⟩ ∧
    steep.delays[32]? = some steep.maxDelay ∧ steep.delays.Pairwise (· ≤ ·) ∧
    ⟨9223372042223484928000000000⟩ ∈ steep.delays ∧
    (⟨9223372042223484928000000000⟩ : Duration) ≤ steep.maxDelay := by
  obtain ⟨hnone, -, hlen, hget, hsorted, hle⟩ := delays_laws steep
  have hlast : steep.delays[31]? = some ⟨9223372042223484928000000000⟩ :=
    (hget 31).trans (by decide +kernel)
  have hcap : steep.delays[32]? = some steep.maxDelay := (hget 32).trans (by decide +kernel)
  have hmem := List.mem_of_getElem? hlast
  exact ⟨hlen, (hnone 41).mpr (.inr (by decide)), hlast, hcap, hsorted, hmem, hle _ hmem⟩

variable (p : RetryPolicy) (limit : Duration)

theorem maxRetries_ofPolicy : (ofPolicy p).maxRetries = p.maxRetries := rfl

/-- With the numbers of a policy, a product is never too long: both factors have 32 bits. -/
theorem wait_ofPolicy :
    ((ofPolicy p).withLimit limit).wait n =
      (Duration.ofSeconds (p.retryDelay.toNat * factor n)).min limit := by
  have hlt : p.retryDelay.toNat * factor n < 2 ^ 32 * 2 ^ 32 :=
    Nat.mul_lt_mul'' p.retryDelay.toNat_lt (factor_lt n)
  rw [wait, withLimit, ofPolicy, Duration.times?_ofSeconds hlt, Option.getD_some]

/-- The first wait, doubled from retry to retry, up to a limit. -/
def doubled (n : Nat) : Duration :=
  (Duration.ofSeconds (p.retryDelay.toNat * 2 ^ (n - 1))).min limit

theorem mul_factor_eq_iff :
    p.retryDelay.toNat * factor n = p.retryDelay.toNat * 2 ^ (n - 1) ↔
      n ≤ 32 ∨ p.retryDelay = 0 := by
  constructor
  · intro he
    by_contra hn
    obtain ⟨hlt, h0⟩ := not_or.mp hn
    have hmul : p.retryDelay.toNat * factor n < p.retryDelay.toNat * 2 ^ (n - 1) :=
      Nat.mul_lt_mul_of_pos_left (factor_lt_two_pow (Nat.lt_of_not_le hlt))
        (RetryPolicy.toNat_retryDelay_pos h0)
    exact Nat.ne_of_lt hmul he
  · rintro (hle | h0)
    · rw [factor_of_le hle]
    · rw [h0, UInt32.toNat_zero, Nat.zero_mul, Nat.zero_mul]

/-- A wait is the doubled one exactly if the power of two has no more than 32 bits, or there is
nothing to be doubled, or the limit is not above the greatest multiple that 32 bits allow. -/
theorem wait_eq_doubled_iff :
    ((ofPolicy p).withLimit limit).wait n = doubled p limit n ↔
      n ≤ 32 ∨ p.retryDelay = 0 ∨
        limit.nanos ≤ (Duration.ofSeconds (p.retryDelay.toNat * (2 ^ 32 - 1))).nanos := by
  have hle : p.retryDelay.toNat * factor n ≤ p.retryDelay.toNat * 2 ^ (n - 1) :=
    Nat.mul_le_mul_left _ (factor_le_two_pow n)
  rw [wait_ofPolicy, doubled, Duration.min_ofSeconds_eq_iff hle, mul_factor_eq_iff, or_assoc]
  -- What is left to compare is the limit, which only matters once the factor is the greatest one.
  rcases Nat.lt_or_ge 32 n with hn | hn
  · rw [factor_of_lt hn]
  · simp only [hn, true_or]

/-- There is a wait before each retry. It is the doubled one in just the cases that are listed; in
all others, the first wait is multiplied with the greatest number of 32 bits in place of a power
of two. -/
theorem delay?_eq_doubled_iff (h : 1 ≤ n) (hn : n ≤ p.maxRetries.toNat) :
    ∃ d, ((ofPolicy p).withLimit limit).delay? n = some d ∧
      (d = doubled p limit n ↔
        n ≤ 32 ∨ p.retryDelay = 0 ∨
          limit.nanos ≤ (Duration.ofSeconds (p.retryDelay.toNat * (2 ^ 32 - 1))).nanos) ∧
      (32 < n → d = (Duration.ofSeconds (p.retryDelay.toNat * (2 ^ 32 - 1))).min limit) := by
  refine ⟨_, delay?_eq_some _ h hn, wait_eq_doubled_iff p limit, fun hlt => ?_⟩
  rw [wait_ofPolicy, factor_of_lt hlt]

/-- As long a limit as 32 bits allow for a first wait of two seconds. -/
theorem delay?_eq_doubled_iff_longest :
    1 ≤ 40 ∧ 40 ≤ (RetryPolicy.mk "failed" 40 2).maxRetries.toNat ∧
      ((ofPolicy ⟨"failed", 40, 2⟩).withLimit (.ofSeconds 8589934590)).delay? 40 =
        some (doubled ⟨"failed", 40, 2⟩ (.ofSeconds 8589934590) 40) := by
  have hn : 40 ≤ (RetryPolicy.mk "failed" 40 2).maxRetries.toNat := by decide
  obtain ⟨d, hd, hdoubled, -⟩ :=
    delay?_eq_doubled_iff ⟨"failed", 40, 2⟩ (.ofSeconds 8589934590) (by decide) hn
  exact ⟨by decide, hn, hd.trans (congrArg some (hdoubled.mpr (.inr (.inr (by decide)))))⟩

/-- The 33rd retry after one second would wait for as many seconds as 33 bits can tell. -/
theorem delay?_short_of_doubled :
    1 ≤ 33 ∧ 33 ≤ (RetryPolicy.mk "failed" 33 1).maxRetries.toNat ∧
      ((ofPolicy ⟨"failed", 33, 1⟩).withLimit (.ofSeconds 4294967296)).delay? 33 =
        some (.ofSeconds 4294967295) ∧
      doubled ⟨"failed", 33, 1⟩ (.ofSeconds 4294967296) 33 = .ofSeconds 4294967296 := by
  decide +kernel

/-- No power of two that is too large for 32 bits shows below an hour. -/
theorem seconds_wait_ofPolicy :
    ((ofPolicy p).wait n).seconds = min (p.retryDelay.toNat * 2 ^ (n - 1)) 3600 := by
  have hhour : p.retryDelay = 0 ∨
      standardLimit.nanos ≤ (Duration.ofSeconds (p.retryDelay.toNat * (2 ^ 32 - 1))).nanos := by
    refine or_iff_not_imp_left.mpr fun h0 => ?_
    have hpos := RetryPolicy.toNat_retryDelay_pos h0
    have hle : 3600 ≤ p.retryDelay.toNat * (2 ^ 32 - 1) := by omega
    exact Nat.mul_le_mul_right _ hle
  have hwait : (ofPolicy p).wait n = doubled p standardLimit n :=
    (wait_eq_doubled_iff p standardLimit).mpr (.inr hhour)
  rw [hwait, doubled, standardLimit, Duration.min_ofSeconds, Duration.seconds_ofSeconds]

end Backoff

/-! ## Retries of a job -/

/-- A list made of a range, paired with its positions, is made of the range of these. -/
theorem map_zipIdx_map_range {α β : Type} (f : Nat → α) (g : α → β) (k : Nat) :
    (((List.range k).map fun i => f (i + 1)).zipIdx.map fun (a, i) => (i + 1, g a)) =
      (List.range' 1 k).map fun n => (n, g (f n)) := by
  refine List.ext_getElem (by simp) fun i hi hi' => ?_
  simp [Nat.add_comm]

/-- The retries of a job that is selected are none, or they are counted from one and each waits for
the doubled delay, up to an hour. There is no answer if no job is selected. -/
theorem Spec.retryDelays?_eq (s : Spec) (selection : String) :
    s.retryDelays? selection = (s.select? selection).map fun j =>
      if Text.trim j.retry.retryCondition = "never" ∨ j.retry.maxRetries = 0 then []
      else (List.range' 1 j.retry.maxRetries.toNat).map fun n =>
        (n, min (j.retry.retryDelay.toNat * 2 ^ (n - 1)) 3600) := by
  refine Option.map_congr fun j _ => ?_
  by_cases he : j.retry.isEnabled = true
  · have hnone : ¬ (Text.trim j.retry.retryCondition = "never" ∨ j.retry.maxRetries = 0) := by
      rw [← RetryPolicy.isEnabled_eq_false_iff, he]
      decide
    rw [if_pos he, if_neg hnone, Backoff.delays_eq_map, map_zipIdx_map_range]
    simp only [Backoff.seconds_wait_ofPolicy, Backoff.maxRetries_ofPolicy]
  · have hnone := RetryPolicy.isEnabled_eq_false_iff.mp (Bool.eq_false_iff.mpr he)
    rw [if_neg he, if_pos hnone]

end Pipeline
