import PdesMas.State.RangeCover
import PdesMas.Types.FoldedBox

/-!
The recalculated range as a fold over the points in the order of the variables'
identifiers, and when it is their box whatever the identifiers are.
-/

namespace PdesMas
namespace SharedState
open Point

variable {time : Nat} {points : List Point}

theorem recalculateRange_eq (m : StateVariableMap) (time : Nat) :
    recalculateRange m time = Range.folded ((pointsAt m time).map Point.range) := by
  rw [recalculateRange, ← pointsAt]
  cases pointsAt m time with
  | nil => rfl
  | cons p rest =>
      rw [List.foldl_cons, List.map_cons, Range.folded, List.foldl_map]
      exact List.foldl_hom some fun _ _ => rfl

/-- A variable behind all others is the last one that is looked at. -/
theorem toList_insert_last {m : StateVariableMap} {id : SsvId} (sv : StateVariable AbstractValue)
    (h : ∀ e ∈ m.toList, e.1 < id) : (m.insert id sv).toList = m.toList ++ [(id, sv)] := by
  have hkept : m.toList.filter (fun e => decide ¬ (id == e.1) = true) = m.toList :=
    List.filter_eq_self.mpr fun e he => by simpa using (h e he).ne'
  have hperm : (m.insert id sv).toList.Perm (m.toList ++ [(id, sv)]) := by
    refine .trans Std.TreeMap.toList_insert_perm ?_
    rw [hkept]
    exact (List.perm_append_singleton _ _).symm
  have hsorted : (m.toList ++ [(id, sv)]).Pairwise fun a b => compare a.1 b.1 = .lt := by
    refine List.pairwise_append.mpr ⟨Std.TreeMap.ordered_keys_toList, List.pairwise_singleton _ _, ?_⟩
    intro e he e' he'
    obtain rfl := List.mem_singleton.mp he'
    exact Nat.compare_eq_lt.mpr (h e he)
  refine hperm.eq_of_pairwise (fun a b _ _ hab hba => ?_) Std.TreeMap.ordered_keys_toList hsorted
  exact absurd (Nat.compare_eq_lt.mp hab) (Nat.compare_eq_lt.mp hba).asymm

theorem pointAt_of_added (id : SsvId) (p : Point) (agentID : LpId) (time : Nat) :
    pointAt ((StateVariable.create id).addWritePeriod (.valuePOINT p) 0 agentID) time = some p := by
  simp [pointAt, StateVariable.readWithoutRecord, StateVariable.walkBack, StateVariable.create,
    StateVariable.addWritePeriod, WritePeriod.create, Cut.last?, AbstractValue.point?]

/-- Variables with the points, in the order of their identifiers. -/
theorem exists_pointsAt (points : List Point) (time : Nat) :
    ∃ m : StateVariableMap, (∀ e ∈ m.toList, e.1 < points.length) ∧ pointsAt m time = points := by
  induction points using List.reverseRecOn with
  | nil => exact ⟨∅, by simp, by simp [pointsAt]⟩
  | append_singleton points p ih =>
      obtain ⟨m, hbelow, hpoints⟩ := ih
      let sv : StateVariable AbstractValue :=
        (StateVariable.create points.length).addWritePeriod (.valuePOINT p) 0 ⟨0, 0⟩
      have htoList := toList_insert_last sv hbelow
      refine ⟨m.insert points.length sv, ?_, ?_⟩
      · intro e he
        rw [htoList, List.mem_append, List.mem_singleton] at he
        rw [List.length_append, List.length_singleton]
        rcases he with he | rfl
        · exact Nat.lt_succ_of_lt (hbelow e he)
        · exact Nat.lt_succ_self _
      · rw [pointsAt, htoList, List.filterMap_append, ← pointsAt, hpoints]
        simp [sv, pointAt_of_added]

/-- Some variables with one of the points each, whatever their order, have the box of the
points recalculated. -/
theorem recalculated_iff (hall : ∀ p ∈ points, p.InRange) :
    (∀ m time, (pointsAt m time).Perm points →
      Range.IsBoxOf points (recalculateRange m time)) ↔
      (Cornered points → ordinary points = [] ∨
        Cornered (ordinary points) ∧ (ordinary points).length = 2) := by
  have hbounded : ∀ p ∈ points, p.Bounded := fun p hp => (hall p hp).bounded
  by_cases hne : points = []
  · subst hne
    refine iff_of_true (fun m time hperm => ?_) fun h => by simp [Cornered] at h
    rw [recalculateRange_eq, hperm.eq_nil]
    rfl
  · rw [← folded_max_top_iff hbounded hne]
    constructor
    · intro h order horder
      obtain ⟨m, _, hpoints⟩ := exists_pointsAt order 0
      have hbox := h m 0 (hpoints ▸ horder)
      rw [recalculateRange_eq, hpoints] at hbox
      exact (Range.isBoxOf_folded_iff horder hne hbounded).mp hbox
    · intro h m time hperm
      rw [recalculateRange_eq]
      exact (Range.isBoxOf_folded_iff hperm hne hbounded).mpr (h _ hperm)

/-- The boxes do not depend on the order, exactly if the corner is not reached from points that
are followed by others. -/
theorem boxes_in_any_order_iff (points : List Point) (ranges : List Range)
    (hpoints : ∀ p ∈ points, p.InRange) (hranges : ∀ range ∈ ranges, range.InRange) :
    ((∀ m time, (pointsAt m time).Perm points →
        Range.IsBoxOf points (recalculateRange m time)) ↔
      (Cornered points → ordinary points = [] ∨
        Cornered (ordinary points) ∧ (ordinary points).length = 2)) ∧
    ((∀ order, order.Perm ranges → ∀ order', order'.Perm ranges →
        Range.folded order = Range.folded order') ↔
      (Cornered (ordinary (ranges.map Range.maxRangeValue)) →
        (ordinary (ranges.map Range.maxRangeValue)).length = 2)) :=
  ⟨recalculated_iff hpoints, Range.folded_congr_iff hranges⟩

/-- Two points with one coordinate at `INT_MAX` each, and one behind them. -/
private def limits : List Point := [⟨INT_MAX, 0⟩, ⟨0, INT_MAX⟩, ⟨1, 1⟩]

theorem boxes_in_any_order_iff_limits :
    (∀ p ∈ limits, p.InRange) ∧ (∀ range ∈ limits.map Point.range, range.InRange) ∧
      ((∀ m time, (pointsAt m time).Perm limits →
          Range.IsBoxOf limits (recalculateRange m time)) ↔
        (Cornered limits → ordinary limits = [] ∨
          Cornered (ordinary limits) ∧ (ordinary limits).length = 2)) := by
  have hall : ∀ p ∈ limits, p.InRange := by
    intro p hp
    simp only [limits, List.mem_cons, List.not_mem_nil, or_false] at hp
    rcases hp with rfl | rfl | rfl <;> constructor <;> simp [FitsSigned, INT_MAX]
  have hranges : ∀ range ∈ limits.map Point.range, range.InRange := by
    intro range hrange
    obtain ⟨p, hp, rfl⟩ := List.mem_map.mp hrange
    exact ⟨hall p hp, hall p hp⟩
  exact ⟨hall, hranges, (boxes_in_any_order_iff limits _ hall hranges).1⟩

theorem point_after_corner_replaces_it :
    (∃ m, pointsAt m 0 = limits ∧ recalculateRange m 0 = some ⟨⟨0, 0⟩, ⟨1, 1⟩⟩ ∧
      ¬ Range.IsBoxOf limits (recalculateRange m 0)) ∧
    Range.folded (limits.map Point.range) ≠ Range.folded (limits.reverse.map Point.range) := by
  refine ⟨?_, by decide⟩
  obtain ⟨m, _, hpoints⟩ := exists_pointsAt limits 0
  have hbox : recalculateRange m 0 = some ⟨⟨0, 0⟩, ⟨1, 1⟩⟩ := by
    rw [recalculateRange_eq, hpoints]
    decide
  refine ⟨m, hpoints, hbox, fun h => ?_⟩
  rw [hbox] at h
  exact absurd (h.within (List.mem_map_of_mem (a := ⟨INT_MAX, 0⟩) (by decide))) (by decide)

end SharedState
end PdesMas
