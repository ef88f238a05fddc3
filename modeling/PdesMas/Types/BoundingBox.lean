import Mathlib.Order.Bounds.Basic
import PdesMas.Types.RangeOverlap

/-!
The bounding box of some ranges: in each coordinate the least of their minima and
the greatest of their maxima.
-/

namespace PdesMas

section Bounds

theorem setOf_exists_mem_concat {α β : Type} (f : α → β) (l : List α) (a : α) :
    {v | ∃ x ∈ l ++ [a], f x = v} = insert (f a) {v | ∃ x ∈ l, f x = v} := by
  ext v
  simp [or_and_right, exists_or, or_comm, eq_comm]

variable {α β : Type} [LinearOrder β] {f : α → β} {l kept : List α} {b : β}

theorem isLeast_concat (h : IsLeast {v | ∃ x ∈ l, f x = v} b) (a : α) :
    IsLeast {v | ∃ x ∈ l ++ [a], f x = v} (min (f a) b) := by
  rw [setOf_exists_mem_concat]
  exact h.insert (f a)

theorem isGreatest_concat (h : IsGreatest {v | ∃ x ∈ l, f x = v} b) (a : α) :
    IsGreatest {v | ∃ x ∈ l ++ [a], f x = v} (max (f a) b) := by
  rw [setOf_exists_mem_concat]
  exact h.insert (f a)

/-- What is least among some is least among all exactly if each of all has one of these
below it. -/
theorem isLeast_iff_of_subset (h : IsLeast {v | ∃ x ∈ kept, f x = v} b) (hkept : kept ⊆ l) :
    IsLeast {v | ∃ x ∈ l, f x = v} b ↔ ∀ x ∈ l, ∃ y ∈ kept, f y ≤ f x := by
  obtain ⟨⟨y, hy, rfl⟩, hleast⟩ := h
  constructor
  · intro hall x hx
    exact ⟨y, hy, hall.2 ⟨x, hx, rfl⟩⟩
  · intro hbelow
    refine ⟨⟨y, hkept hy, rfl⟩, ?_⟩
    rintro _ ⟨x, hx, rfl⟩
    obtain ⟨z, hz, hle⟩ := hbelow x hx
    exact (hleast ⟨z, hz, rfl⟩).trans hle

end Bounds

/-- A point as a range. -/
def Point.range (p : Point) : Range := ⟨p, p⟩

theorem setOf_exists_mem_map (points : List Point) (f : Range → Int) :
    {v | ∃ r ∈ points.map Point.range, f r = v} = {v | ∃ p ∈ points, f p.range = v} := by
  ext v
  simp

namespace Range

/-- The range lies in the other. -/
def Within (range other : Range) : Prop :=
  (other.minRangeValue.x ≤ range.minRangeValue.x ∧ other.minRangeValue.y ≤ range.minRangeValue.y) ∧
    range.maxRangeValue.x ≤ other.maxRangeValue.x ∧ range.maxRangeValue.y ≤ other.maxRangeValue.y

instance (range other : Range) : Decidable (range.Within other) :=
  inferInstanceAs (Decidable ((_ ∧ _) ∧ _ ∧ _))

theorem within_refl (range : Range) : range.Within range :=
  ⟨⟨le_refl _, le_refl _⟩, le_refl _, le_refl _⟩

theorem Within.trans {range other whole : Range} (h : range.Within other)
    (h' : other.Within whole) : range.Within whole :=
  ⟨⟨h'.1.1.trans h.1.1, h'.1.2.trans h.1.2⟩, h.2.1.trans h'.2.1, h.2.2.trans h'.2.2⟩

/-- The range lies in the other one; `NULL` lies in any. -/
def Inside (range whole : Option Range) : Prop :=
  ∀ r ∈ range, ∃ w ∈ whole, r.Within w

instance (range whole : Option Range) : Decidable (Inside range whole) :=
  inferInstanceAs (Decidable (∀ r ∈ range, ∃ w ∈ whole, r.Within w))

theorem inside_refl (range : Option Range) : Inside range range :=
  fun r hr => ⟨r, hr, within_refl r⟩

theorem inside_none (whole : Option Range) : Inside none whole := nofun

structure IsBox (ranges : List Range) (box : Range) : Prop where
  minX : IsLeast {v | ∃ range ∈ ranges, range.minRangeValue.x = v} box.minRangeValue.x
  minY : IsLeast {v | ∃ range ∈ ranges, range.minRangeValue.y = v} box.minRangeValue.y
  maxX : IsGreatest {v | ∃ range ∈ ranges, range.maxRangeValue.x = v} box.maxRangeValue.x
  maxY : IsGreatest {v | ∃ range ∈ ranges, range.maxRangeValue.y = v} box.maxRangeValue.y

variable {ranges : List Range} {range box other : Range}

theorem IsBox.within (h : IsBox ranges box) (hrange : range ∈ ranges) : range.Within box :=
  ⟨⟨h.minX.2 ⟨range, hrange, rfl⟩, h.minY.2 ⟨range, hrange, rfl⟩⟩,
    h.maxX.2 ⟨range, hrange, rfl⟩, h.maxY.2 ⟨range, hrange, rfl⟩⟩

/-- One of the ranges is the box of all exactly if it contains the others. -/
theorem isBox_of_mem_iff (hrange : range ∈ ranges) :
    IsBox ranges range ↔ ∀ other ∈ ranges, other.Within range := by
  constructor
  · exact fun h other hother => h.within hother
  · intro h
    refine ⟨⟨⟨range, hrange, rfl⟩, ?_⟩, ⟨⟨range, hrange, rfl⟩, ?_⟩, ⟨⟨range, hrange, rfl⟩, ?_⟩,
      ⟨⟨range, hrange, rfl⟩, ?_⟩⟩
    · rintro _ ⟨other, hother, rfl⟩
      exact (h other hother).1.1
    · rintro _ ⟨other, hother, rfl⟩
      exact (h other hother).1.2
    · rintro _ ⟨other, hother, rfl⟩
      exact (h other hother).2.1
    · rintro _ ⟨other, hother, rfl⟩
      exact (h other hother).2.2

end Range
end PdesMas
