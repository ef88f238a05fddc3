import Mathlib.Data.List.Basic
import Mathlib.Order.Lattice

/-!
The end of the elements that are not above a value, by bisection. On a list in
order it is where the elements above the value begin.
-/

universe u

namespace UpperBound

variable {α : Type u} [LinearOrder α]

/-- The loop over the `len` elements from `first` on, with at most `fuel` turns. -/
def bisect (value : α) (l : List α) : Nat → Nat → Nat → Nat
  | 0, first, _ => first
  | fuel + 1, first, len =>
      if len > 0 then
        let half := len / 2
        match l[first + half]? with
        | none => first
        | some middle =>
            if value < middle then bisect value l fuel first half
            else bisect value l fuel (first + half + 1) (len - half - 1)
      else first

def upperBound (l : List α) (value : α) : Nat := bisect value l l.length 0 l.length

/-- What is left of the list parts what is not above the value from what is. -/
structure Parts (value : α) (l : List α) (first len : Nat) : Prop where
  inside : first + len ≤ l.length
  below : ∀ i (hi : i < l.length), i < first → l[i] ≤ value
  above : ∀ i (hi : i < l.length), first + len ≤ i → value < l[i]

variable {value : α} {l : List α} {first len fuel : Nat}

theorem parts_bisect (hl : l.Pairwise (· ≤ ·)) (hfuel : len ≤ fuel)
    (h : Parts value l first len) : Parts value l (bisect value l fuel first len) 0 := by
  have hsorted : ∀ {i j : Nat} (hi : i < l.length) (hj : j < l.length), i ≤ j → l[i] ≤ l[j] := by
    intro i j hi hj hij
    rcases Nat.lt_or_eq_of_le hij with hlt | rfl
    · exact List.pairwise_iff_getElem.mp hl i j hi hj hlt
    · exact le_refl _
  induction fuel generalizing first len with
  | zero =>
      obtain rfl : len = 0 := Nat.le_zero.mp hfuel
      exact h
  | succ fuel ih =>
      rw [bisect]
      split
      · next hlen =>
        have hmiddle : first + len / 2 < l.length := by
          have := h.inside
          omega
        simp only [List.getElem?_eq_getElem hmiddle]
        split
        · next hlt =>
          refine ih (by omega) ⟨by omega, h.below, fun i hi hle => ?_⟩
          exact lt_of_lt_of_le hlt (hsorted hmiddle hi hle)
        · next hle =>
          have := h.inside
          refine ih (by omega) ⟨by omega, fun i hi hlt => ?_, fun i hi hle' => ?_⟩
          · exact le_trans (hsorted hi hmiddle (by omega)) (not_lt.mp hle)
          · exact h.above i hi (by omega)
      · next hlen =>
        obtain rfl : len = 0 := by omega
        exact h

/-- The part of a list in order before the bound. -/
theorem take_upperBound (hl : l.Pairwise (· ≤ ·)) (value : α) :
    l.take (upperBound l value) = l.takeWhile fun x => decide (x ≤ value) := by
  have hparts : Parts value l (upperBound l value) 0 :=
    parts_bisect hl (Nat.le_refl _) ⟨by omega, fun _ _ h => absurd h (Nat.not_lt_zero _),
      fun i hi h => absurd hi (by omega)⟩
  generalize upperBound l value = n at hparts
  have hbelow : ∀ x ∈ l.take n, decide (x ≤ value) = true := by
    intro x hx
    obtain ⟨i, hi, rfl⟩ := List.mem_take_iff_getElem.mp hx
    exact decide_eq_true (hparts.below i (by omega) (by omega))
  have habove : (l.drop n).takeWhile (fun x => decide (x ≤ value)) = [] := by
    by_cases hn : n < l.length
    · have hlt := hparts.above n hn (by omega)
      rw [List.drop_eq_getElem_cons hn, List.takeWhile_cons_of_neg (by simpa using hlt)]
    · rw [List.drop_eq_nil_of_le (Nat.le_of_not_lt hn), List.takeWhile_nil]
  conv_rhs => rw [← List.take_append_drop n l, List.takeWhile_append_of_pos hbelow, habove]
  rw [List.append_nil]

end UpperBound
