import Mathlib.Data.List.Perm.Basic
import PdesMas.Messages.Types
import PdesMas.Types.BoundingBox

/-!
The box of points or ranges that are taken one after the other. The point with both
coordinates at `INT_MAX` stands for no value, but a maximum can get there from points
that have one coordinate each at `INT_MAX`; the next point then replaces it.
-/

namespace PdesMas
namespace Point

/-- The point that stands for none. -/
def corner : Point := ⟨INT_MAX, INT_MAX⟩

/-- The first point, changed by one after the other of the rest. -/
def folded (op : Point → Point → Point) : List Point → Option Point
  | [] => none
  | p :: rest => some (rest.foldl op p)

def ordinary (points : List Point) : List Point := points.filter fun p => p ≠ corner

/-- Each coordinate is at `INT_MAX` in some point. -/
def Cornered (points : List Point) : Prop :=
  (∃ p ∈ points, p.x = INT_MAX) ∧ ∃ p ∈ points, p.y = INT_MAX

instance (points : List Point) : Decidable (Cornered points) :=
  inferInstanceAs (Decidable (_ ∧ _))

/-- The greatest coordinates of the points. -/
structure Top (points : List Point) (top : Point) : Prop where
  x : IsGreatest {v | ∃ p ∈ points, p.x = v} top.x
  y : IsGreatest {v | ∃ p ∈ points, p.y = v} top.y

/-- The least coordinates of the points. -/
structure Bottom (points : List Point) (bottom : Point) : Prop where
  x : IsLeast {v | ∃ p ∈ points, p.x = v} bottom.x
  y : IsLeast {v | ∃ p ∈ points, p.y = v} bottom.y

/-- No coordinate is above `INT_MAX`. -/
def Bounded (p : Point) : Prop := p.x ≤ INT_MAX ∧ p.y ≤ INT_MAX

variable {p q a b : Point} {points rest order order' : List Point}

theorem InRange.bounded (h : p.InRange) : p.Bounded := by
  obtain ⟨⟨_, hx⟩, _, hy⟩ := h
  simp only [Bounded, INT_MAX]
  omega

theorem isSentinel_iff : p.isSentinel = true ↔ p = corner := by
  rw [isSentinel, Bool.and_eq_true, beq_iff_eq, beq_iff_eq, corner, mk.injEq]

theorem mem_ordinary : p ∈ ordinary points ↔ p ∈ points ∧ p ≠ corner := by
  rw [ordinary, List.mem_filter, decide_eq_true_iff]

theorem Cornered.mono (h : Cornered points) (hsub : points ⊆ rest) : Cornered rest :=
  ⟨h.1.imp fun _ hp => ⟨hsub hp.1, hp.2⟩, h.2.imp fun _ hp => ⟨hsub hp.1, hp.2⟩⟩

theorem cornered_of_mem (h : corner ∈ points) : Cornered points :=
  ⟨⟨corner, h, rfl⟩, corner, h, rfl⟩

/-- Taking `corner` into a minimum is what the coordinates do by themselves. -/
theorem min_eq (hp : p.Bounded) (hq : q.Bounded) : p.min q = ⟨q.x ⊓ p.x, q.y ⊓ p.y⟩ := by
  rw [min]
  split
  · next hcorner =>
    obtain rfl := isSentinel_iff.mp hcorner
    rw [inf_eq_right.mpr (show p.x ≤ corner.x from hp.1),
      inf_eq_right.mpr (show p.y ≤ corner.y from hp.2)]
  · split
    · next hcorner =>
      obtain rfl := isSentinel_iff.mp hcorner
      rw [inf_eq_left.mpr (show q.x ≤ corner.x from hq.1),
        inf_eq_left.mpr (show q.y ≤ corner.y from hq.2)]
    · grind

theorem max_eq (hp : p ≠ corner) (hq : q ≠ corner) : p.max q = ⟨q.x ⊔ p.x, q.y ⊔ p.y⟩ := by
  rw [max, if_neg (mt isSentinel_iff.mp hq), if_neg (mt isSentinel_iff.mp hp)]
  grind

theorem max_corner (p : Point) : p.max corner = p := if_pos rfl

theorem corner_max (q : Point) : corner.max q = q := by
  by_cases hq : q = corner
  · rw [hq, max_corner]
  · rw [max, if_neg (mt isSentinel_iff.mp hq), if_pos (isSentinel_iff.mpr rfl)]

theorem Bounded.max (hp : p.Bounded) (hq : q.Bounded) : (p.max q).Bounded := by
  by_cases hpc : p = corner
  · rwa [hpc, corner_max]
  · by_cases hqc : q = corner
    · rwa [hqc, max_corner]
    · rw [max_eq hpc hqc]
      exact ⟨sup_le hq.1 hp.1, sup_le hq.2 hp.2⟩

theorem bottom_singleton (p : Point) : Bottom [p] p := by
  constructor <;> simp

theorem top_singleton (p : Point) : Top [p] p := by
  constructor <;> simp

theorem Bottom.bounded (h : Bottom points b) (hpoints : ∀ p ∈ points, p.Bounded) : b.Bounded := by
  obtain ⟨⟨⟨p, hp, hpx⟩, _⟩, ⟨q, hq, hqy⟩, _⟩ := h
  exact ⟨hpx ▸ (hpoints p hp).1, hqy ▸ (hpoints q hq).2⟩

theorem Top.ne_corner (h : Top points a) (hnot : ¬ Cornered points) : a ≠ corner := by
  rintro rfl
  exact hnot ⟨h.x.1, h.y.1⟩

theorem Bottom.foldl_min (h : Bottom points b) (hall : ∀ p ∈ points ++ rest, p.Bounded) :
    Bottom (points ++ rest) (rest.foldl min b) := by
  induction rest generalizing points b with
  | nil =>
      rw [List.append_nil]
      exact h
  | cons p rest ih =>
      rw [List.append_cons] at hall ⊢
      have hb := h.bounded fun q hq => hall q (by simp [hq])
      refine ih ?_ hall
      rw [min_eq hb (hall p (by simp))]
      exact ⟨isLeast_concat h.x p, isLeast_concat h.y p⟩

/-- Without the corner in reach, the maximum is taken in each coordinate. -/
theorem Top.foldl_max (h : Top points a) (hnot : ¬ Cornered (points ++ rest)) :
    Top (points ++ rest) (rest.foldl max a) := by
  induction rest generalizing points a with
  | nil =>
      rw [List.append_nil]
      exact h
  | cons p rest ih =>
      rw [List.append_cons] at hnot ⊢
      have ha := h.ne_corner fun hc => hnot (hc.mono (by simp))
      have hp : p ≠ corner := fun hp => hnot (cornered_of_mem (by simp [← hp]))
      refine ih ?_ hnot
      rw [max_eq ha hp]
      exact ⟨isGreatest_concat h.x p, isGreatest_concat h.y p⟩

theorem bottom_folded (hne : points ≠ []) (hall : ∀ p ∈ points, p.Bounded) :
    ∃ b, folded min points = some b ∧ Bottom points b := by
  obtain ⟨p, rest, rfl⟩ := List.exists_cons_of_ne_nil hne
  exact ⟨_, rfl, (bottom_singleton p).foldl_min hall⟩

theorem top_folded (hne : points ≠ []) (hnot : ¬ Cornered points) :
    ∃ a, folded max points = some a ∧ Top points a := by
  obtain ⟨p, rest, rfl⟩ := List.exists_cons_of_ne_nil hne
  exact ⟨_, rfl, (top_singleton p).foldl_max hnot⟩

theorem Top.unique (h : Top points a) (h' : Top points b) : a = b :=
  congrArg₂ Point.mk (h.x.unique h'.x) (h.y.unique h'.y)

theorem Bottom.unique (h : Bottom points a) (h' : Bottom points b) : a = b :=
  congrArg₂ Point.mk (h.x.unique h'.x) (h.y.unique h'.y)

theorem Top.congr (h : Top points a) (hperm : order.Perm points) : Top order a := by
  obtain ⟨hx, hy⟩ := h
  constructor <;> simpa only [hperm.mem_iff]

theorem Bottom.congr (h : Bottom points b) (hperm : order.Perm points) : Bottom order b := by
  obtain ⟨hx, hy⟩ := h
  constructor <;> simpa only [hperm.mem_iff]

/-- The minimum does not depend on the order. -/
theorem folded_min_congr (hperm : order.Perm points) (hall : ∀ p ∈ points, p.Bounded) :
    folded min order = folded min points := by
  by_cases hne : points = []
  · rw [hne, (hne ▸ hperm : order.Perm []).eq_nil]
  · have hne' : order ≠ [] := fun hnil => hne (hnil ▸ hperm).nil_eq.symm
    obtain ⟨b, hb, hbottom⟩ := bottom_folded hne hall
    obtain ⟨b', hb', hbottom'⟩ := bottom_folded hne' fun p hp => hall p (hperm.mem_iff.mp hp)
    rw [hb, hb', hbottom.unique (hbottom'.congr hperm.symm)]

/-- Points that stand for none make no difference once there is another one. -/
theorem foldl_max_ordinary (rest : List Point) (p : Point) :
    (ordinary rest).foldl max p = rest.foldl max p := by
  rw [ordinary, List.foldl_filter]
  congr 1
  funext p q
  by_cases hq : q = corner
  · rw [hq, max_corner]
    exact if_neg (by simp)
  · exact if_pos (decide_eq_true hq)

theorem folded_max_ordinary (h : ordinary points ≠ []) :
    folded max points = folded max (ordinary points) := by
  cases points with
  | nil => rfl
  | cons p rest =>
      by_cases hp : p = corner
      · subst hp
        obtain ⟨q, kept, hkept⟩ := List.exists_cons_of_ne_nil h
        have hrest : ordinary rest = q :: kept := hkept
        rw [hkept, folded, folded, ← foldl_max_ordinary, hrest, List.foldl_cons, corner_max]
      · have hkept : ordinary (p :: rest) = p :: ordinary rest :=
          List.filter_cons_of_pos (decide_eq_true hp)
        rw [hkept, folded, folded, foldl_max_ordinary]

theorem folded_max_of_ordinary_eq_nil (h : ordinary points = []) (hne : points ≠ []) :
    folded max points = some corner := by
  obtain ⟨p, rest, rfl⟩ := List.exists_cons_of_ne_nil hne
  have hall : ∀ q ∈ p :: rest, q = corner := fun q hq =>
    not_not.mp fun hne => List.not_mem_nil (h ▸ mem_ordinary.mpr ⟨hq, hne⟩)
  obtain rfl := hall p List.mem_cons_self
  have hrest : ordinary rest = [] := h
  rw [folded, ← foldl_max_ordinary, hrest, List.foldl_nil]

theorem bounded_foldl_max (hp : p.Bounded) (hrest : ∀ q ∈ rest, q.Bounded) :
    (rest.foldl max p).Bounded := by
  induction rest generalizing p with
  | nil => exact hp
  | cons q rest ih =>
      exact ih (hp.max (hrest q List.mem_cons_self)) fun r hr => hrest r (List.mem_cons_of_mem q hr)

/-- Two points that hold `INT_MAX` in one coordinate each end at the corner, one of them first
or the other. -/
theorem max_max_eq_corner (hp : p.Bounded) (ha : a ≠ corner) (hb : b ≠ corner)
    (hab : a.Bounded) (hbb : b.Bounded) (hax : a.x = INT_MAX) (hby : b.y = INT_MAX) :
    (p.max a).max b = corner ∨ (p.max b).max a = corner := by
  obtain ⟨hax', hay⟩ := hab
  obtain ⟨hbx, hby'⟩ := hbb
  have hay' : a.y ≠ INT_MAX := fun hy => ha (congrArg₂ Point.mk hax hy)
  have hbx' : b.x ≠ INT_MAX := fun hx => hb (congrArg₂ Point.mk hx hby)
  by_cases hpc : p = corner
  · left
    rw [hpc, corner_max, max_eq ha hb]
    grind [corner]
  · obtain ⟨hpx, hpy⟩ := hp
    have hnot : p.x ≠ INT_MAX ∨ p.y ≠ INT_MAX :=
      not_and_or.mp fun hp => hpc (congrArg₂ Point.mk hp.1 hp.2)
    rw [max_eq hpc ha, max_eq hpc hb]
    by_cases hy : p.y = INT_MAX
    · right
      rw [max_eq (by simp only [ne_eq, corner, mk.injEq]; omega) ha, corner, mk.injEq]
      exact ⟨by simp only; omega, by simp only; omega⟩
    · left
      rw [max_eq (by simp only [ne_eq, corner, mk.injEq]; omega) hb, corner, mk.injEq]
      exact ⟨by simp only; omega, by simp only; omega⟩

theorem folded_max_of_length_two (hlen : order.length = 2) (hnot : corner ∉ order)
    (hall : ∀ p ∈ order, p.Bounded) (h : Cornered order) : folded max order = some corner := by
  obtain ⟨p, q, rfl⟩ := List.length_eq_two.mp hlen
  have hp := hall p (by simp)
  have hq := hall q (by simp)
  have hpc : p ≠ corner := fun hc => hnot (by simp [hc])
  have hqc : q ≠ corner := fun hc => hnot (by simp [hc])
  simp only [Cornered, List.mem_pair, exists_eq_or_imp, exists_eq_left] at h
  obtain ⟨_, _⟩ := hp
  obtain ⟨_, _⟩ := hq
  rw [folded, List.foldl_cons, List.foldl_nil, max_eq hpc hqc, corner, Option.some.injEq, mk.injEq]
  omega

/-- Some order ends at the corner. -/
theorem exists_perm_corner (hall : ∀ p ∈ a :: b :: rest, p.Bounded) (ha : a ≠ corner)
    (hb : b ≠ corner) (hax : a.x = INT_MAX) (hby : b.y = INT_MAX) :
    ∃ order, order.Perm (a :: b :: rest) ∧ folded max order = some corner := by
  cases rest with
  | nil =>
      refine ⟨[a, b], .refl _, folded_max_of_length_two rfl (by simp [ha.symm, hb.symm]) hall ?_⟩
      exact ⟨⟨a, by simp, hax⟩, b, by simp, hby⟩
  | cons p rest =>
      have hp : (rest.foldl max p).Bounded :=
        bounded_foldl_max (hall p (by simp)) fun q hq => hall q (by simp [hq])
      have hperm : (p :: rest ++ [a, b]).Perm (a :: b :: p :: rest) :=
        @List.perm_append_comm _ (p :: rest) [a, b]
      rcases max_max_eq_corner hp ha hb (hall a (by simp)) (hall b (by simp)) hax hby with hends | hends
      · refine ⟨p :: rest ++ [a, b], hperm, ?_⟩
        rw [List.cons_append, folded, List.foldl_append]
        exact congrArg some hends
      · refine ⟨p :: rest ++ [b, a], .trans (.append_left _ (.swap a b [])) hperm, ?_⟩
        rw [List.cons_append, folded, List.foldl_append]
        exact congrArg some hends

/-- Another point after the corner replaces it. -/
theorem folded_max_concat (h : folded max order = some corner) (p : Point) :
    folded max (order ++ [p]) = some p := by
  cases order with
  | nil => cases h
  | cons q rest =>
      have hcorner : rest.foldl max q = corner := Option.some.inj h
      rw [List.cons_append, folded, List.foldl_append, hcorner, List.foldl_cons, corner_max,
        List.foldl_nil]

theorem exists_pair_of_cornered (hnot : corner ∉ points) (h : Cornered points) :
    ∃ a b rest, points.Perm (a :: b :: rest) ∧ a.x = INT_MAX ∧ b.y = INT_MAX := by
  obtain ⟨⟨a, ha, hax⟩, b, hb, hby⟩ := h
  have hne : b ≠ a := by
    rintro rfl
    have hcorner : b = corner := congrArg₂ Point.mk hax hby
    exact hnot (hcorner ▸ hb)
  have hrest := List.perm_cons_erase ha
  have hb' : b ∈ points.erase a := (List.mem_erase_of_ne hne).mpr hb
  exact ⟨a, b, (points.erase a).erase b, hrest.trans (.cons a (List.perm_cons_erase hb')), hax, hby⟩

/-- Two points at `INT_MAX` in one coordinate each have the corner as their maximum, in both
orders; any further point makes it depend on the order. -/
theorem folded_max_orders (hnot : corner ∉ points) (hall : ∀ p ∈ points, p.Bounded)
    (h : Cornered points) :
    (∃ order, order.Perm points ∧ folded max order = some corner) ∧
      ((∃ order, order.Perm points ∧ folded max order ≠ some corner) ↔ points.length ≠ 2) := by
  obtain ⟨a, b, rest, hperm, hax, hby⟩ := exists_pair_of_cornered hnot h
  have hne : ∀ p ∈ a :: b :: rest, p ≠ corner := by
    rintro p hp rfl
    exact hnot (hperm.mem_iff.mpr hp)
  have hall' : ∀ p ∈ a :: b :: rest, p.Bounded := fun p hp => hall p (hperm.mem_iff.mpr hp)
  have ha := hne a (by simp)
  have hb := hne b (by simp)
  constructor
  · obtain ⟨order, horder, hcorner⟩ := exists_perm_corner hall' ha hb hax hby
    exact ⟨order, horder.trans hperm.symm, hcorner⟩
  · constructor
    · rintro ⟨order, horder, hother⟩ hlen
      refine hother (folded_max_of_length_two (horder.length_eq.trans hlen) ?_ ?_ ?_)
      · exact mt horder.mem_iff.mp hnot
      · exact fun p hp => hall p (horder.mem_iff.mp hp)
      · exact h.mono horder.symm.subset
    · intro hlen
      cases rest with
      | nil => exact absurd hperm.length_eq hlen
      | cons p rest =>
          have hsub : a :: b :: rest ⊆ a :: b :: p :: rest :=
            List.cons_subset_cons a (List.cons_subset_cons b (List.subset_cons_self p rest))
          obtain ⟨order, horder, hcorner⟩ :=
            exists_perm_corner (fun q hq => hall' q (hsub hq)) ha hb hax hby
          refine ⟨order ++ [p], ?_, ?_⟩
          · refine .trans ?_ hperm.symm
            exact .trans (horder.append_right [p]) (.cons a (.cons b List.perm_append_comm))
          · rw [folded_max_concat hcorner]
            exact fun hp => hne p (by simp) (Option.some.inj hp)

theorem top_corner (hall : ∀ p ∈ points, p.Bounded) (h : Cornered points) : Top points corner := by
  obtain ⟨hx, hy⟩ := h
  refine ⟨⟨hx, ?_⟩, hy, ?_⟩
  · rintro _ ⟨p, hp, rfl⟩
    exact (hall p hp).1
  · rintro _ ⟨p, hp, rfl⟩
    exact (hall p hp).2

theorem forall_perm_ordinary (P : List Point → Prop) :
    (∀ order, order.Perm points → P (ordinary order)) ↔
      ∀ order, order.Perm (ordinary points) → P order := by
  constructor
  · intro h order horder
    have hkept : ordinary (order ++ points.filter fun p => !decide (p ≠ corner)) = order := by
      rw [ordinary, List.filter_append, List.filter_eq_self.mpr, List.filter_eq_nil_iff.mpr,
        List.append_nil]
      · intro p hp hne
        simp_all
      · exact fun p hp => decide_eq_true (mem_ordinary.mp (horder.mem_iff.mp hp)).2
    rw [← hkept]
    exact h _ ((horder.append_right _).trans (List.filter_append_perm _ points))
  · exact fun h order horder => h _ (horder.filter _)

theorem corner_not_mem_ordinary (points : List Point) : corner ∉ ordinary points :=
  fun h => (mem_ordinary.mp h).2 rfl

theorem ordinary_eq_nil_iff (hperm : order.Perm points) :
    ordinary order = [] ↔ ordinary points = [] := by
  have hkept : (ordinary order).Perm (ordinary points) := hperm.filter _
  rw [← List.length_eq_zero_iff, hkept.length_eq, List.length_eq_zero_iff]

theorem folded_max_perm (hperm : order.Perm points) (h : ordinary points ≠ []) :
    folded max order = folded max (ordinary order) :=
  folded_max_ordinary (mt (ordinary_eq_nil_iff hperm).mp h)

theorem folded_max_perm_of_nil (hperm : order.Perm points) (h : ordinary points = [])
    (hne : points ≠ []) : folded max order = some corner :=
  folded_max_of_ordinary_eq_nil ((ordinary_eq_nil_iff hperm).mpr h)
    fun hnil => hne (hnil ▸ hperm).nil_eq.symm

/-- The last of the maxima is the greatest in each coordinate, in any order. -/
theorem folded_max_top_iff (hall : ∀ p ∈ points, p.Bounded) (hne : points ≠ []) :
    (∀ order, order.Perm points → ∃ a, folded max order = some a ∧ Top points a) ↔
      (Cornered points → ordinary points = [] ∨
        Cornered (ordinary points) ∧ (ordinary points).length = 2) := by
  by_cases hcornered : Cornered points
  · have htop := top_corner hall hcornered
    have hends : ∀ order, (∃ a, folded max order = some a ∧ Top points a) ↔
        folded max order = some corner := fun order =>
      ⟨fun ⟨a, ha, h⟩ => ha.trans (congrArg some (h.unique htop)), fun h => ⟨corner, h, htop⟩⟩
    simp only [hends, hcornered, forall_const]
    by_cases hnil : ordinary points = []
    · exact iff_of_true (fun order horder => folded_max_perm_of_nil horder hnil hne) (.inl hnil)
    · have hsame : ∀ order, order.Perm points →
          (folded max order = some corner ↔ folded max (ordinary order) = some corner) :=
        fun order horder => by rw [folded_max_perm horder hnil]
      have hbounded : ∀ p ∈ ordinary points, p.Bounded := fun p hp => hall p (mem_ordinary.mp hp).1
      rw [forall₂_congr hsame, forall_perm_ordinary fun order => folded max order = some corner,
        or_iff_right hnil]
      by_cases hcornered' : Cornered (ordinary points)
      · obtain ⟨_, hiff⟩ := folded_max_orders (corner_not_mem_ordinary points) hbounded hcornered'
        rw [and_iff_right hcornered', ← not_iff_not, ← ne_eq, ← hiff]
        simp only [not_forall, exists_prop, ne_eq]
      · refine iff_of_false (fun h => ?_) fun h => hcornered' h.1
        obtain ⟨a, ha, htop'⟩ := top_folded hnil hcornered'
        exact htop'.ne_corner hcornered' (Option.some.inj (ha.symm.trans (h _ (.refl _))))
  · refine iff_of_true (fun order horder => ?_) fun h => absurd h hcornered
    have hne' : order ≠ [] := fun h => hne (h ▸ horder).nil_eq.symm
    obtain ⟨a, ha, htop⟩ := top_folded hne' fun h => hcornered (h.mono horder.subset)
    exact ⟨a, ha, htop.congr horder.symm⟩

/-- The last of the maxima does not depend on the order. -/
theorem folded_max_congr_iff (hall : ∀ p ∈ points, p.Bounded) :
    (∀ order, order.Perm points → ∀ order', order'.Perm points →
      folded max order = folded max order') ↔
      (Cornered (ordinary points) → (ordinary points).length = 2) := by
  by_cases hnil : ordinary points = []
  · refine iff_of_true (fun order horder order' horder' => ?_) fun h => ?_
    · cases points with
      | nil => rw [horder.eq_nil, horder'.eq_nil]
      | cons p rest =>
          rw [folded_max_perm_of_nil horder hnil (List.cons_ne_nil p rest),
            folded_max_perm_of_nil horder' hnil (List.cons_ne_nil p rest)]
    · obtain ⟨⟨p, hp, _⟩, _⟩ := h
      exact absurd hp (hnil ▸ List.not_mem_nil)
  · have hbounded : ∀ p ∈ ordinary points, p.Bounded := fun p hp => hall p (mem_ordinary.mp hp).1
    have hsame : ∀ order, order.Perm points →
        ((∀ order', order'.Perm points → folded max order = folded max order') ↔
          ∀ order', order'.Perm (ordinary points) →
            folded max (ordinary order) = folded max order') := by
      intro order horder
      rw [← forall_perm_ordinary fun order' => folded max (ordinary order) = folded max order']
      refine forall₂_congr fun order' horder' => ?_
      rw [folded_max_perm horder hnil, folded_max_perm horder' hnil]
    rw [forall₂_congr hsame, forall_perm_ordinary fun order =>
      ∀ order', order'.Perm (ordinary points) → folded max order = folded max order']
    by_cases hcornered : Cornered (ordinary points)
    · obtain ⟨⟨order, horder, hcorner⟩, hiff⟩ :=
        folded_max_orders (corner_not_mem_ordinary points) hbounded hcornered
      rw [forall_prop_of_true hcornered]
      constructor
      · intro h
        by_contra hlen
        obtain ⟨order', horder', hother⟩ := hiff.mpr hlen
        exact hother ((h order' horder' order horder).trans hcorner)
      · intro hlen
        have hends : ∀ order, order.Perm (ordinary points) → folded max order = some corner :=
          fun order horder => not_not.mp fun hother => hiff.mp ⟨order, horder, hother⟩ hlen
        intro order horder order' horder'
        rw [hends order horder, hends order' horder']
    · refine iff_of_true (fun order horder order' horder' => ?_) fun h => absurd h hcornered
      have htop : ∀ order, order.Perm (ordinary points) →
          ∃ a, folded max order = some a ∧ Top (ordinary points) a := by
        intro order horder
        have hne : order ≠ [] := fun h => hnil (h ▸ horder).nil_eq.symm
        obtain ⟨a, ha, htop⟩ := top_folded hne fun h => hcornered (h.mono horder.subset)
        exact ⟨a, ha, htop.congr horder.symm⟩
      obtain ⟨a, ha, htopa⟩ := htop order horder
      obtain ⟨b, hb, htopb⟩ := htop order' horder'
      rw [ha, hb, htopa.unique htopb]

end Point

namespace Range
open Point

/-- The first range, changed by one after the other of the rest. -/
def folded : List Range → Option Range
  | [] => none
  | range :: rest => some (rest.foldl minMaxOfTwoRanges range)

/-- The range is the box of the points; there is none if there are no points. -/
def IsBoxOf (points : List Point) : Option Range → Prop
  | none => points = []
  | some box => IsBox (points.map Point.range) box

variable {points : List Point} {ranges order : List Range}

theorem isBox_range_iff {box : Range} : IsBox (points.map Point.range) box ↔
    Bottom points box.minRangeValue ∧ Top points box.maxRangeValue := by
  constructor
  · rintro ⟨hminX, hminY, hmaxX, hmaxY⟩
    rw [setOf_exists_mem_map] at hminX hminY hmaxX hmaxY
    exact ⟨⟨hminX, hminY⟩, hmaxX, hmaxY⟩
  · rintro ⟨⟨hminX, hminY⟩, hmaxX, hmaxY⟩
    constructor <;> rwa [setOf_exists_mem_map]

theorem foldl_minMaxOfTwoRanges (ranges : List Range) (range : Range) :
    ranges.foldl minMaxOfTwoRanges range =
      ⟨(ranges.map minRangeValue).foldl Point.min range.minRangeValue,
        (ranges.map maxRangeValue).foldl Point.max range.maxRangeValue⟩ := by
  induction ranges generalizing range with
  | nil => rfl
  | cons other rest ih => exact ih _

theorem folded_min (ranges : List Range) :
    (folded ranges).map minRangeValue = Point.folded Point.min (ranges.map minRangeValue) := by
  cases ranges with
  | nil => rfl
  | cons range rest => rw [folded, foldl_minMaxOfTwoRanges]; rfl

theorem folded_max (ranges : List Range) :
    (folded ranges).map maxRangeValue = Point.folded Point.max (ranges.map maxRangeValue) := by
  cases ranges with
  | nil => rfl
  | cons range rest => rw [folded, foldl_minMaxOfTwoRanges]; rfl

theorem option_ext {range other : Option Range}
    (hmin : range.map minRangeValue = other.map minRangeValue)
    (hmax : range.map maxRangeValue = other.map maxRangeValue) : range = other := by
  cases range with
  | none => exact (Option.map_eq_none_iff.mp hmin.symm).symm
  | some range =>
      obtain ⟨other, rfl, hmin'⟩ := Option.map_eq_some_iff.mp hmin.symm
      exact congrArg some (congrArg₂ Range.mk hmin'.symm (Option.some.inj hmax))

theorem exists_perm_map {α β : Type} {f : α → β} {l : List α} {image : List β}
    (h : image.Perm (l.map f)) : ∃ order : List α, order.Perm l ∧ order.map f = image := by
  have hmap : List.Forall₂ (fun b a => f a = b) (l.map f) l := by
    simp
  obtain ⟨order, horder, hperm⟩ := List.perm_comp_forall₂ h hmap
  refine ⟨order, hperm, ?_⟩
  rw [← List.forall₂_eq_eq_eq, List.forall₂_map_left_iff]
  exact horder.flip

theorem isBoxOf_folded_iff {order : List Point} (hperm : order.Perm points) (hne : points ≠ [])
    (hall : ∀ p ∈ points, p.Bounded) :
    IsBoxOf points (folded (order.map Point.range)) ↔
      ∃ a, Point.folded Point.max order = some a ∧ Top points a := by
  obtain ⟨b, hb, hbottom⟩ := bottom_folded hne hall
  have hmin := folded_min (order.map Point.range)
  have hmax := folded_max (order.map Point.range)
  have hpoint : ∀ f : Range → Point, (∀ p : Point, f p.range = p) →
      (order.map Point.range).map f = order := fun f hf => by
    rw [List.map_map]
    exact (List.map_congr_left fun p _ => hf p).trans (List.map_id order)
  rw [hpoint minRangeValue fun _ => rfl, folded_min_congr hperm hall, hb] at hmin
  rw [hpoint maxRangeValue fun _ => rfl] at hmax
  obtain ⟨box, hbox, rfl⟩ := Option.map_eq_some_iff.mp hmin
  rw [← hmax, hbox, IsBoxOf, isBox_range_iff, and_iff_right hbottom, Option.map_some]
  exact ⟨fun h => ⟨_, rfl, h⟩, fun ⟨a, ha, h⟩ => Option.some.inj ha ▸ h⟩

/-- Ranges are folded to one and the same box in any order. -/
theorem folded_congr_iff (hall : ∀ range ∈ ranges, range.InRange) :
    (∀ order, order.Perm ranges → ∀ order', order'.Perm ranges → folded order = folded order') ↔
      (Cornered (ordinary (ranges.map maxRangeValue)) →
        (ordinary (ranges.map maxRangeValue)).length = 2) := by
  have hmax : ∀ p ∈ ranges.map maxRangeValue, p.Bounded :=
    List.forall_mem_map.mpr fun range hrange => (hall range hrange).maxRangeValue.bounded
  have hmin : ∀ p ∈ ranges.map minRangeValue, p.Bounded :=
    List.forall_mem_map.mpr fun range hrange => (hall range hrange).minRangeValue.bounded
  rw [← folded_max_congr_iff hmax]
  constructor
  · intro h image himage image' himage'
    obtain ⟨order, horder, rfl⟩ := exists_perm_map himage
    obtain ⟨order', horder', rfl⟩ := exists_perm_map himage'
    rw [← folded_max, ← folded_max, h order horder order' horder']
  · intro h order horder order' horder'
    refine option_ext ?_ ?_
    · rw [folded_min, folded_min, folded_min_congr (horder.map _) hmin,
        folded_min_congr (horder'.map _) hmin]
    · rw [folded_max, folded_max]
      exact h _ (horder.map _) _ (horder'.map _)

end Range

end PdesMas
