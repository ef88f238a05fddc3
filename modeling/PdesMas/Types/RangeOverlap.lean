import PdesMas.Types.Value

/-!
When two rectangles have a corner of one in the other. In one coordinate an
interval that meets another has an end in it or lies around it. Two rectangles
that meet may do so crosswise, each strictly inside the other in one coordinate,
and then no corner tells.
-/

namespace PdesMas

/-- An end of the interval from `c` to `d` lies in that from `a` to `b`. -/
def EndIn (a b c d : Int) : Prop := a ≤ c ∧ c ≤ b ∨ a ≤ d ∧ d ≤ b

variable {a b c d : Int}

theorem endIn_or_iff (hab : a ≤ b) (hcd : c ≤ d) :
    EndIn a b c d ∨ EndIn c d a b ↔ a ≤ d ∧ c ≤ b := by
  simp only [EndIn]
  omega

theorem not_endIn_iff (had : a ≤ d) (hcb : c ≤ b) : ¬ EndIn a b c d ↔ c < a ∧ b < d := by
  simp only [EndIn]
  omega

section Corners

variable {p q r s : Prop}

/-- The four corners, by their coordinates. -/
theorem corners_iff : (p ∧ r ∨ q ∧ r ∨ p ∧ s ∨ q ∧ s) ↔ (p ∨ q) ∧ (r ∨ s) := by
  by_cases hp : p <;> by_cases hq : q <;> by_cases hr : r <;> simp [hp, hq, hr]

/-- Two ways to meet in each of two coordinates differ only where they are mixed. -/
theorem either_iff :
    ((p ∧ r ∨ q ∧ s) ↔ (p ∨ q) ∧ (r ∨ s)) ↔
      ¬ (((p ∨ q) ∧ (r ∨ s)) ∧ ¬ p ∧ ¬ s) ∧ ¬ (((p ∨ q) ∧ (r ∨ s)) ∧ ¬ q ∧ ¬ r) := by
  by_cases hp : p <;> by_cases hq : q <;> by_cases hr : r <;> by_cases hs : s <;>
    simp [hp, hq, hr, hs]

end Corners

namespace Range

/-- The minimum is at most the maximum, in both coordinates. -/
def Proper (range : Range) : Prop :=
  range.minRangeValue.x ≤ range.maxRangeValue.x ∧ range.minRangeValue.y ≤ range.maxRangeValue.y

instance (range : Range) : Decidable range.Proper := inferInstanceAs (Decidable (_ ∧ _))

/-- Strictly inside in the first coordinate, and around in the second. -/
def Crosses (range other : Range) : Prop :=
  (other.minRangeValue.x < range.minRangeValue.x ∧ range.maxRangeValue.x < other.maxRangeValue.x) ∧
    range.minRangeValue.y < other.minRangeValue.y ∧ other.maxRangeValue.y < range.maxRangeValue.y

instance (range other : Range) : Decidable (range.Crosses other) :=
  inferInstanceAs (Decidable (_ ∧ _ ∧ _))

theorem isValueOverlapping_iff {range : Range} {value : Point} :
    range.isValueOverlapping value = true ↔
      (range.minRangeValue.x ≤ value.x ∧ value.x ≤ range.maxRangeValue.x) ∧
        range.minRangeValue.y ≤ value.y ∧ value.y ≤ range.maxRangeValue.y := by
  simp only [isValueOverlapping, Point.lt, Point.gt, Bool.and_eq_true, decide_eq_true_eq]
  omega

/-- A corner of `other` lies in `range`. -/
def CornerIn (range other : Range) : Prop :=
  EndIn range.minRangeValue.x range.maxRangeValue.x other.minRangeValue.x other.maxRangeValue.x ∧
    EndIn range.minRangeValue.y range.maxRangeValue.y other.minRangeValue.y other.maxRangeValue.y

theorem isRangeOverlapping_iff {range other : Range} :
    range.isRangeOverlapping other = true ↔ range.CornerIn other ∨ other.CornerIn range := by
  simp only [isRangeOverlapping, List.any_cons, List.any_nil, Bool.or_false, Bool.or_eq_true,
    isValueOverlapping_iff]
  exact or_congr corners_iff corners_iff

theorem isRangeOverlapping_comm (range other : Range) :
    range.isRangeOverlapping other = other.isRangeOverlapping range := by
  rw [Bool.eq_iff_iff, isRangeOverlapping_iff, isRangeOverlapping_iff, or_comm]

/-- A point lies in both exactly if the intervals meet in both coordinates. -/
theorem exists_common_iff {range other : Range} (hrange : range.Proper) (hother : other.Proper) :
    (∃ value, range.isValueOverlapping value = true ∧ other.isValueOverlapping value = true) ↔
      (range.minRangeValue.x ≤ other.maxRangeValue.x ∧
        other.minRangeValue.x ≤ range.maxRangeValue.x) ∧
      range.minRangeValue.y ≤ other.maxRangeValue.y ∧
        other.minRangeValue.y ≤ range.maxRangeValue.y := by
  obtain ⟨hx, hy⟩ := hrange
  obtain ⟨hx', hy'⟩ := hother
  simp only [isValueOverlapping_iff]
  constructor
  · intro h
    obtain ⟨value, hvalue⟩ := h
    omega
  · intro h
    refine ⟨⟨Max.max range.minRangeValue.x other.minRangeValue.x,
      Max.max range.minRangeValue.y other.minRangeValue.y⟩, ?_⟩
    dsimp only
    omega

/-- Ranges that cross have points in common, but no corners in each other. -/
theorem crosses_iff {range other : Range} (hrange : range.Proper) (hother : other.Proper) :
    range.Crosses other ↔
      (∃ value, range.isValueOverlapping value = true ∧ other.isValueOverlapping value = true) ∧
        ¬ EndIn range.minRangeValue.x range.maxRangeValue.x other.minRangeValue.x
          other.maxRangeValue.x ∧
        ¬ EndIn other.minRangeValue.y other.maxRangeValue.y range.minRangeValue.y
          range.maxRangeValue.y := by
  rw [exists_common_iff hrange hother]
  constructor
  · intro h
    obtain ⟨hx, hy⟩ := h
    have hx' := hrange.1
    have hy' := hother.2
    have hmeet : (range.minRangeValue.x ≤ other.maxRangeValue.x ∧
        other.minRangeValue.x ≤ range.maxRangeValue.x) ∧
          range.minRangeValue.y ≤ other.maxRangeValue.y ∧
            other.minRangeValue.y ≤ range.maxRangeValue.y := by omega
    exact ⟨hmeet, (not_endIn_iff hmeet.1.1 hmeet.1.2).mpr hx,
      (not_endIn_iff hmeet.2.2 hmeet.2.1).mpr hy⟩
  · intro h
    obtain ⟨hmeet, hx, hy⟩ := h
    exact ⟨(not_endIn_iff hmeet.1.1 hmeet.1.2).mp hx, (not_endIn_iff hmeet.2.2 hmeet.2.1).mp hy⟩

/-- The corners tell whether the ranges have a point in common, unless they cross. -/
theorem isRangeOverlapping_iff_common (range other : Range) (hrange : range.Proper)
    (hother : other.Proper) :
    ((range.isRangeOverlapping other = true ↔
        ∃ value, range.isValueOverlapping value = true ∧ other.isValueOverlapping value = true) ∧
      range.isRangeOverlapping other = other.isRangeOverlapping range) ↔
      ¬ range.Crosses other ∧ ¬ other.Crosses range := by
  have hcommon := exists_common_iff hrange hother
  rw [← endIn_or_iff hrange.1 hother.1, ← endIn_or_iff hrange.2 hother.2] at hcommon
  have hswap : (∃ value, other.isValueOverlapping value = true ∧
      range.isValueOverlapping value = true) ↔
        ∃ value, range.isValueOverlapping value = true ∧ other.isValueOverlapping value = true :=
    exists_congr fun _ => and_comm
  rw [and_iff_left (isRangeOverlapping_comm range other), isRangeOverlapping_iff,
    crosses_iff hrange hother, crosses_iff hother hrange, hswap, hcommon]
  exact either_iff

theorem isRangeOverlapping_iff_common_aside :
    let range : Range := ⟨⟨0, 0⟩, ⟨4, 4⟩⟩
    let other : Range := ⟨⟨2, 2⟩, ⟨9, 3⟩⟩
    range.Proper ∧ other.Proper ∧
      (((range.isRangeOverlapping other = true ↔ ∃ value,
          range.isValueOverlapping value = true ∧ other.isValueOverlapping value = true) ∧
        range.isRangeOverlapping other = other.isRangeOverlapping range) ↔
        ¬ range.Crosses other ∧ ¬ other.Crosses range) := by
  intro range other
  have hrange : range.Proper := by decide
  have hother : other.Proper := by decide
  exact ⟨hrange, hother, isRangeOverlapping_iff_common range other hrange hother⟩

/-- A wide range and a high one, which cross: no corner lies in the other. -/
theorem crossing_not_overlapping :
    let range : Range := ⟨⟨4, 0⟩, ⟨6, 9⟩⟩
    let other : Range := ⟨⟨0, 4⟩, ⟨9, 6⟩⟩
    range.Proper ∧ other.Proper ∧ range.isRangeOverlapping other = false ∧
      range.isValueOverlapping ⟨5, 5⟩ = true ∧ other.isValueOverlapping ⟨5, 5⟩ = true := by
  decide

end Range
end PdesMas
