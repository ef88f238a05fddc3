import Mathlib.Logic.Function.Iterate

/-!
Counters that go up in equal steps and start again where the next step would pass
a bound. Between two visits to a value such a counter visits all the values that
it ever takes.
-/

namespace ResetCounter

variable {start stride bound : Nat}

def next (start stride bound v : Nat) : Nat := if v + stride ≤ bound then v + stride else start

/-- The number of the values. -/
def period (start stride bound : Nat) : Nat := (bound - start) / stride + 1

theorem add_mul_le_iff (hstride : 0 < stride) (hstart : start ≤ bound) (k : Nat) :
    start + stride * k ≤ bound ↔ k < period start stride bound := by
  rw [period, Nat.lt_succ_iff, Nat.le_div_iff_mul_le hstride, Nat.mul_comm]
  omega

theorem iterate_next (hstride : 0 < stride) (hstart : start ≤ bound) (k : Nat) :
    (next start stride bound)^[k] start =
      start + stride * (k % period start stride bound) := by
  have hpos : 0 < period start stride bound := Nat.succ_pos _
  induction k with
  | zero => rw [Nat.zero_mod, Nat.mul_zero, Nat.add_zero, Function.iterate_zero_apply]
  | succ k ih =>
      have hlt := Nat.mod_lt k hpos
      have hsum : start + stride * (k % period start stride bound) + stride =
          start + stride * (k % period start stride bound + 1) := by
        rw [Nat.mul_succ, Nat.add_assoc]
      rw [Function.iterate_succ_apply', ih, next, hsum, ← Nat.mod_add_mod]
      by_cases hlast : k % period start stride bound + 1 < period start stride bound
      · rw [if_pos ((add_mul_le_iff hstride hstart _).mpr hlast), Nat.mod_eq_of_lt hlast]
      · have heq : k % period start stride bound + 1 = period start stride bound := by omega
        rw [if_neg fun hle => hlast ((add_mul_le_iff hstride hstart _).mp hle), heq, Nat.mod_self,
          Nat.mul_zero, Nat.add_zero]

theorem iterate_next_mod (hstride : 0 < stride) (hstart : start ≤ bound) (k : Nat) :
    (next start stride bound)^[k] start % stride = start % stride := by
  rw [iterate_next hstride hstart, Nat.add_mul_mod_self_left]

/-- Among `n` numbers in a row there is one of each residue. -/
theorem exists_mod_eq {n q : Nat} (hq : q < n) (i : Nat) : ∃ k, i ≤ k ∧ k < i + n ∧ k % n = q := by
  have hi := Nat.div_add_mod i n
  have hlt := Nat.mod_lt i (Nat.zero_lt_of_lt hq)
  by_cases hle : i % n ≤ q
  · refine ⟨n * (i / n) + q, by omega, by omega, ?_⟩
    rw [Nat.mul_add_mod, Nat.mod_eq_of_lt hq]
  · refine ⟨n * (i / n + 1) + q, ?_, ?_, ?_⟩
    · rw [Nat.mul_succ]
      omega
    · rw [Nat.mul_succ]
      omega
    · rw [Nat.mul_add_mod, Nat.mod_eq_of_lt hq]

/-- A value comes again only after all the others up to the bound that leave the same
remainder. -/
theorem exists_visit_between (hstride : 0 < stride) (hstart : start ≤ bound) {i j v : Nat}
    (hij : i < j)
    (hagain : (next start stride bound)^[i] start = (next start stride bound)^[j] start)
    (hv : v ≤ bound) (hmod : v % stride = start) :
    ∃ k, i ≤ k ∧ k < j ∧ (next start stride bound)^[k] start = v := by
  have hvalue : start + stride * (v / stride) = v := by
    rw [← hmod, Nat.mod_add_div]
  have hq : v / stride < period start stride bound := by
    rw [← add_mul_le_iff hstride hstart, hvalue]
    exact hv
  have hcycle : i % period start stride bound = j % period start stride bound := by
    rw [iterate_next hstride hstart, iterate_next hstride hstart] at hagain
    exact Nat.eq_of_mul_eq_mul_left hstride (Nat.add_left_cancel hagain)
  have hlong : i + period start stride bound ≤ j := by
    have hdvd : period start stride bound ∣ j - i :=
      Nat.dvd_of_mod_eq_zero (Nat.sub_mod_eq_zero_of_mod_eq hcycle.symm)
    have hle := Nat.le_of_dvd (by omega) hdvd
    omega
  obtain ⟨k, hik, hk, hkq⟩ := exists_mod_eq hq i
  refine ⟨k, hik, by omega, ?_⟩
  rw [iterate_next hstride hstart, hkq, hvalue]

end ResetCounter
