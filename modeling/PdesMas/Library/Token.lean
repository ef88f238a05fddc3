import Mathlib.Tactic.Common

/-!
A token that circulates between places that each hold a list: at every moment
it is nowhere, or alone in one place.
-/

universe u v

namespace Token

variable {ι : Type u} {α : Type v} [DecidableEq ι] {f f' : ι → List α} {i j : ι} {a b : α}

def Nowhere (f : ι → List α) : Prop := ∀ i, f i = []

def At (f : ι → List α) (i : ι) (a : α) : Prop := ∀ j, f j = if j = i then [a] else []

theorem At.self (h : At f i a) : f i = [a] := by simpa using h i

theorem At.empty (h : At f i a) (hj : j ≠ i) : f j = [] := by simpa [hj] using h j

theorem At.of_mem (h : At f i a) (hb : b ∈ f j) : j = i ∧ b = a := by
  by_cases hj : j = i
  · rw [hj, h.self] at hb
    exact ⟨hj, List.mem_singleton.mp hb⟩
  · rw [h.empty hj] at hb
    cases hb

omit [DecidableEq ι] in
theorem Nowhere.not_mem (h : Nowhere f) : b ∉ f j := by simp [h j]

/-- A place that shows `b` in front holds the token and nothing else. -/
theorem At.of_cons {l : List α} (h : At f i a) (hj : f j = b :: l) :
    j = i ∧ b = a ∧ l = [] := by
  obtain ⟨rfl, rfl⟩ := h.of_mem (b := b) (by rw [hj]; exact List.mem_cons_self)
  rw [h.self] at hj
  exact ⟨rfl, rfl, (List.cons.inj hj).2.symm⟩

theorem At.congr (h : At f i a) (hf : ∀ k, f' k = f k) : At f' i a := fun k => by rw [hf, h k]

omit [DecidableEq ι] in
theorem Nowhere.congr (h : Nowhere f) (hf : ∀ k, f' k = f k) : Nowhere f' := fun k => by
  rw [hf, h k]

/-- The token is taken from one place and comes to another, changed on the way. -/
theorem At.move (h : At f i a) (hi : f' i = []) (hj : f' j = [b])
    (hf : ∀ k, k ≠ i → k ≠ j → f' k = f k) : At f' j b := by
  intro k
  by_cases hkj : k = j
  · simp [hkj, hj]
  · by_cases hki : k = i
    · rw [if_neg hkj, hki, hi]
    · rw [if_neg hkj, hf k hki hkj, h.empty hki]

theorem At.remove (h : At f i a) (hi : f' i = []) (hf : ∀ k, k ≠ i → f' k = f k) :
    Nowhere f' := by
  intro k
  by_cases hki : k = i
  · rw [hki, hi]
  · rw [hf k hki, h.empty hki]

theorem Nowhere.place (h : Nowhere f) (hj : f' j = [b]) (hf : ∀ k, k ≠ j → f' k = f k) :
    At f' j b := by
  intro k
  by_cases hkj : k = j
  · simp [hkj, hj]
  · rw [if_neg hkj, hf k hkj, h k]

end Token
