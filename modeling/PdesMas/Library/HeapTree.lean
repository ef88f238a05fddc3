import Mathlib.Tactic.Common
import PdesMas.Library.TreeRouting

/-!
The binary tree on the natural numbers in which `2 * n + 1` and `2 * n + 2` are
the children of `n`, as in the array of a binary heap, and its routing.
-/

namespace HeapTree

/-- `x` lies in the subtree of `root`. -/
inductive Below (root : Nat) : Nat → Prop
  | root : Below root root
  | left {x} : Below root x → Below root (2 * x + 1)
  | right {x} : Below root x → Below root (2 * x + 2)

theorem Below.le {r x : Nat} (h : Below r x) : r ≤ x := by
  induction h with
  | root => exact Nat.le_refl _
  | left _ ih | right _ ih => omega

theorem Below.trans {r s x : Nat} (h : Below r s) (hx : Below s x) : Below r x := by
  induction hx with
  | root => exact h
  | left _ ih => exact ih.left
  | right _ ih => exact ih.right

theorem below_left_iff {r x : Nat} : Below r (2 * x + 1) ↔ r = 2 * x + 1 ∨ Below r x := by
  constructor
  · intro h
    generalize hy : 2 * x + 1 = y at h
    cases h with
    | root => exact .inl rfl
    | @left z hz =>
        obtain rfl : x = z := by omega
        exact .inr hz
    | @right z hz => omega
  · rintro (rfl | h)
    · exact .root
    · exact h.left

theorem below_right_iff {r x : Nat} : Below r (2 * x + 2) ↔ r = 2 * x + 2 ∨ Below r x := by
  constructor
  · intro h
    generalize hy : 2 * x + 2 = y at h
    cases h with
    | root => exact .inl rfl
    | @left z hz => omega
    | @right z hz =>
        obtain rfl : x = z := by omega
        exact .inr hz
  · rintro (rfl | h)
    · exact .root
    · exact h.right

/-- A subtree is its root and the subtrees of the two children. -/
theorem below_iff {r x : Nat} :
    Below r x ↔ x = r ∨ Below (2 * r + 1) x ∨ Below (2 * r + 2) x := by
  constructor
  · intro h
    induction h with
    | root => exact .inl rfl
    | @left x _ ih =>
        rcases ih with rfl | h | h
        · exact .inr (.inl .root)
        · exact .inr (.inl h.left)
        · exact .inr (.inr h.left)
    | @right x _ ih =>
        rcases ih with rfl | h | h
        · exact .inr (.inr .root)
        · exact .inr (.inl h.right)
        · exact .inr (.inr h.right)
  · rintro (rfl | h | h)
    · exact .root
    · exact Below.root.left.trans h
    · exact Below.root.right.trans h

theorem not_below_of_lt {r x : Nat} (h : x < r) : ¬ Below r x :=
  fun hb => Nat.not_le_of_lt h hb.le

theorem below_zero (x : Nat) : Below 0 x := by
  induction x using Nat.strongRecOn with
  | ind x ih =>
      rcases Nat.eq_zero_or_pos x with rfl | hpos
      · exact .root
      · obtain ⟨k, rfl | rfl⟩ : ∃ k, x = 2 * k + 1 ∨ x = 2 * k + 2 := ⟨(x - 1) / 2, by omega⟩
        · exact (ih k (by omega)).left
        · exact (ih k (by omega)).right

/-- The subtrees of two siblings are disjoint. -/
theorem not_below_both {r x : Nat} (h₁ : Below (2 * r + 1) x) (h₂ : Below (2 * r + 2) x) :
    False := by
  induction h₁ with
  | root => exact not_below_of_lt (by omega) h₂
  | @left x h ih =>
      rcases below_left_iff.mp h₂ with heq | h₂
      · omega
      · exact ih h₂
  | @right x h ih =>
      rcases below_right_iff.mp h₂ with heq | h₂
      · obtain rfl : r = x := by omega
        exact not_below_of_lt (by omega) h
      · exact ih h₂

def Adj (a b : Nat) : Prop := b = 2 * a + 1 ∨ b = 2 * a + 2 ∨ a = 2 * b + 1 ∨ a = 2 * b + 2

instance (a b : Nat) : Decidable (Adj a b) :=
  inferInstanceAs (Decidable (_ ∨ _ ∨ _ ∨ _))

open Classical in
/-- Down to the child above the target, or up. -/
noncomputable def nextHop (a b : Nat) : Nat :=
  if Below (2 * a + 1) b then 2 * a + 1
  else if Below (2 * a + 2) b then 2 * a + 2
  else (a - 1) / 2

theorem nextHop_left {a b : Nat} (h : Below (2 * a + 1) b) : nextHop a b = 2 * a + 1 := if_pos h

theorem nextHop_right {a b : Nat} (h : Below (2 * a + 2) b) : nextHop a b = 2 * a + 2 := by
  rw [nextHop, if_neg fun hl => not_below_both hl h, if_pos h]

theorem nextHop_up {a b : Nat} (h : ¬ Below a b) : nextHop a b = (a - 1) / 2 := by
  rw [nextHop, if_neg fun hl => h (Below.root.left.trans hl),
    if_neg fun hr => h (Below.root.right.trans hr)]

theorem nextHop_eq_left_iff {a b : Nat} : nextHop a b = 2 * a + 1 ↔ Below (2 * a + 1) b := by
  refine ⟨fun h => ?_, nextHop_left⟩
  rw [nextHop] at h
  split at h
  · assumption
  · split at h <;> omega

theorem nextHop_eq_right_iff {a b : Nat} : nextHop a b = 2 * a + 2 ↔ Below (2 * a + 2) b := by
  refine ⟨fun h => ?_, nextHop_right⟩
  rw [nextHop] at h
  split at h
  · omega
  · split at h
    · assumption
    · omega

/-- A step up is taken exactly to leave the subtree. -/
theorem nextHop_child_iff {a b x : Nat} (hb : b = 2 * a + 1 ∨ b = 2 * a + 2) (hx : x ≠ b) :
    nextHop b x = a ↔ ¬ Below b x := by
  constructor
  · intro h hbelow
    rcases below_iff.mp hbelow with rfl | hl | hr
    · exact hx rfl
    · rw [nextHop_left hl] at h
      omega
    · rw [nextHop_right hr] at h
      omega
  · intro h
    rw [nextHop_up h]
    omega

theorem Adj.ne {a b : Nat} (h : Adj a b) : a ≠ b := by
  simp only [Adj] at h
  omega

theorem Adj.symm {a b : Nat} (h : Adj a b) : Adj b a := by
  simp only [Adj] at *
  omega

theorem adj_nextHop {a b : Nat} (hne : a ≠ b) : Adj a (nextHop a b) := by
  rw [nextHop]
  split
  · exact .inl rfl
  · split
    · exact .inr (.inl rfl)
    · have hpos : a ≠ 0 := by
        rintro rfl
        rcases below_iff.mp (below_zero b) with rfl | h | h <;> contradiction
      simp only [Adj]
      omega

theorem nextHop_of_adj {a b : Nat} (h : Adj a b) : nextHop a b = b := by
  rcases h with rfl | rfl | rfl | rfl
  · exact nextHop_left .root
  · exact nextHop_right .root
  · rw [nextHop_up (not_below_of_lt (by omega))]
    omega
  · rw [nextHop_up (not_below_of_lt (by omega))]
    omega

/-- A parent and its child lie in the same subtrees, but for the child's own. -/
private theorem below_child_iff {a b r : Nat} (hb : b = 2 * a + 1 ∨ b = 2 * a + 2) (hr : r ≠ b) :
    Below r a ↔ Below r b := by
  rcases hb with rfl | rfl
  · simp [below_left_iff, hr]
  · simp [below_right_iff, hr]

private theorem nextHop_congr_child {a b c : Nat} (hb : b = 2 * a + 1 ∨ b = 2 * a + 2)
    (hc : c ≠ a) : nextHop c a = nextHop c b := by
  have hl : Below (2 * c + 1) a ↔ Below (2 * c + 1) b := below_child_iff hb (by omega)
  have hr : Below (2 * c + 2) a ↔ Below (2 * c + 2) b := below_child_iff hb (by omega)
  by_cases h₁ : Below (2 * c + 1) b
  · rw [nextHop_left h₁, nextHop_left (hl.mpr h₁)]
  · by_cases h₂ : Below (2 * c + 2) b
    · rw [nextHop_right h₂, nextHop_right (hr.mpr h₂)]
    · rw [nextHop, if_neg (mt hl.mp h₁), if_neg (mt hr.mp h₂), nextHop, if_neg h₁, if_neg h₂]

theorem nextHop_congr {a b c : Nat} (h : Adj a b) (ha : c ≠ a) (hb : c ≠ b) :
    nextHop c a = nextHop c b := by
  rcases h with h | h | h | h
  · exact nextHop_congr_child (.inl h) ha
  · exact nextHop_congr_child (.inr h) ha
  · exact (nextHop_congr_child (.inl h) hb).symm
  · exact (nextHop_congr_child (.inr h) hb).symm

private theorem separates_child {a b x : Nat} (hb : b = 2 * a + 1 ∨ b = 2 * a + 2)
    (hx : x ≠ b) : nextHop a x = b ↔ nextHop b x ≠ a := by
  rw [Ne, nextHop_child_iff hb hx, not_not]
  rcases hb with rfl | rfl
  · exact nextHop_eq_left_iff
  · exact nextHop_eq_right_iff

theorem separates {a b x : Nat} (h : Adj a b) (ha : x ≠ a) (hb : x ≠ b) :
    nextHop a x = b ↔ nextHop b x ≠ a := by
  rcases h with h | h | h | h
  · exact separates_child (.inl h) hb
  · exact separates_child (.inr h) hb
  · exact (not_iff_comm.mp (separates_child (.inl h) ha).symm).symm
  · exact (not_iff_comm.mp (separates_child (.inr h) ha).symm).symm

/-- The heap-ordered binary tree. -/
noncomputable def routing : TreeRouting Nat where
  adj := Adj
  nextHop := nextHop
  adj_ne := Adj.ne
  adj_symm := Adj.symm
  adj_nextHop := adj_nextHop
  nextHop_of_adj := nextHop_of_adj
  nextHop_congr := nextHop_congr
  separates := separates

theorem nextHop_le_max (a b : Nat) : nextHop a b ≤ max a b := by
  rw [nextHop]
  split
  · rename_i h
    have := h.le
    omega
  · split
    · rename_i h
      have := h.le
      omega
    · omega

end HeapTree
