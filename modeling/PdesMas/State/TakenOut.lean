import PdesMas.RangeQuery.RangeQueryInfo
import PdesMas.State.SharedState

/-!
What taking a variable out of a shared state calls for. Its periods are rolled
back from the first to the last, each with all its reads at the start of the
period; the range table adds calls of its own for variables that hold points.
-/

namespace PdesMas
universe u
variable {V : Type u}

/-- For each recorded read, its agent with the start of the period it was made in. -/
def readStarts (l : List (WritePeriod V)) : List (LpId × Nat) :=
  l.flatMap fun p => p.agentReadMap.map fun r => (r.1, p.startTime)

theorem mem_readStarts {l : List (WritePeriod V)} {agent : LpId} {time : Nat} :
    (agent, time) ∈ readStarts l ↔
      ∃ p ∈ l, p.startTime = time ∧ ∃ r ∈ p.agentReadMap, r.1 = agent := by
  simp only [readStarts, List.mem_flatMap, List.mem_map, Prod.mk.injEq]
  constructor
  · intro h
    obtain ⟨p, hp, r, hr, hagent, htime⟩ := h
    exact ⟨p, hp, htime, r, hr, hagent⟩
  · intro h
    obtain ⟨p, hp, htime, r, hr, hagent⟩ := h
    exact ⟨p, hp, r, hr, hagent, htime⟩

/-- A variable that has held a point needs the range table. -/
def HoldsPoint (sv : StateVariable AbstractValue) : Prop :=
  ∃ p ∈ sv.writePeriodList, p.value.point?.isSome = true

instance (sv : StateVariable AbstractValue) : Decidable (HoldsPoint sv) :=
  inferInstanceAs (Decidable (∃ p ∈ sv.writePeriodList, p.value.point?.isSome = true))

namespace StateVariable

/-- The first period is found and erased, whatever the others are. -/
theorem performWriteRollback_first {sv : StateVariable V} {p : WritePeriod V}
    {rest : List (WritePeriod V)} (h : sv.writePeriodList = p :: rest)
    (rollbackList : RollbackList) :
    sv.performWriteRollback p.agent p.startTime rollbackList =
      ({ sv with writePeriodList := rest },
        rollbackList.addLps (p.agentReadMap.map fun r => (r.1, p.startTime))) := by
  have hfirst : Cut.first? (fun q : WritePeriod V => decide (q.startTime = p.startTime))
      (p :: rest) = some ⟨[], p, rest⟩ := by
    simp [Cut.first?]
  simp only [performWriteRollback, h, hfirst, LpId.ne_self, Bool.false_eq_true, ite_false]
  cases rest with
  | nil => rfl
  | cons q rest => simp [WritePeriod.removeAllReads]

end StateVariable

namespace SharedState

open RangeRoutingTable

/-- What an update of the range table may add to a rollback list. -/
structure AddsQueries (s s' : SharedState) (calls calls' : List (LpId × Nat))
    (queries : List RangePeriodListEntry) : Prop where
  calls : calls' = calls ++ callsFor queries
  present : ∀ e ∈ queries, e ∈ recorded s.rangeRoutingTable.rangePeriodList
  kept : (recorded s'.rangeRoutingTable.rangePeriodList).Perm
    (recorded s.rangeRoutingTable.rangePeriodList)

theorem exists_updateRange (s : SharedState) (oldValue newValue : Option Point)
    (time endTime : Nat) (rollbackList : RollbackList) :
    ∃ queries, AddsQueries s (s.updateRange oldValue newValue time endTime rollbackList).1
      rollbackList.calls (s.updateRange oldValue newValue time endTime rollbackList).2.calls
        queries ∧
      (oldValue = none → newValue = none → queries = []) := by
  simp only [updateRange]
  split
  · rename_i hsome
    obtain ⟨queries, hcalls, hmem⟩ := s.rangeRoutingTable.exists_update_calls oldValue newValue
      time (recalculateRange s.stateVariableMap time) (recalculateRange s.stateVariableMap)
      rollbackList endTime
    refine ⟨queries, ⟨hcalls, hmem, recorded_update ..⟩, ?_⟩
    intro hold hnew
    simp [hold, hnew] at hsome
  · exact ⟨[], ⟨by simp [callsFor], by simp, .refl _⟩, fun _ _ => rfl⟩

theorem pointAt_eq_none {sv : StateVariable AbstractValue} (h : ¬ HoldsPoint sv) (time : Nat) :
    pointAt sv time = none := by
  simp only [pointAt, StateVariable.readWithoutRecord, StateVariable.walkBack]
  split
  · rename_i c hc
    obtain ⟨hl, _, _⟩ := Cut.last?_eq_some.mp hc
    by_contra hpoint
    exact h ⟨c.focus, Cut.focus_mem hl, by simpa [Option.isSome_iff_ne_none] using hpoint⟩
  · rfl

/-- What rolling back all periods of a variable calls for, and what it leaves alone. -/
structure TakesOut (s s' : SharedState) (ssvId : SsvId) (sv : StateVariable AbstractValue)
    (rollbackList rollbackList' : RollbackList) : Prop where
  calls : ∃ queries, (∀ c, c ∈ rollbackList'.calls ↔ c ∈ rollbackList.calls ∨
      c ∈ readStarts sv.writePeriodList ∨ c ∈ callsFor queries) ∧
    (∀ e ∈ queries, e ∈ recorded s.rangeRoutingTable.rangePeriodList) ∧
    (¬ HoldsPoint sv → queries = [])
  kept : (recorded s'.rangeRoutingTable.rangePeriodList).Perm
    (recorded s.rangeRoutingTable.rangePeriodList)
  others : ∀ id, id ≠ ssvId → s'.stateVariableMap[id]? = s.stateVariableMap[id]?

theorem takesOut_rollbackPeriods (ssvId : SsvId) (l : List (WritePeriod AbstractValue))
    (s : SharedState) (sv : StateVariable AbstractValue) (hl : sv.writePeriodList = l)
    (rollbackList : RollbackList) :
    TakesOut s (s.rollbackPeriods ssvId sv l rollbackList).1 ssvId sv rollbackList
      (s.rollbackPeriods ssvId sv l rollbackList).2 := by
  induction l generalizing s sv rollbackList with
  | nil =>
      refine ⟨⟨[], ?_, nofun, fun _ => rfl⟩, .refl _, fun _ _ => rfl⟩
      intro c
      simp [rollbackPeriods, hl, readStarts, callsFor]
  | cons p rest ih =>
      let sv₁ : StateVariable AbstractValue := { sv with writePeriodList := rest }
      let list₁ := rollbackList.addLps (p.agentReadMap.map fun r => (r.1, p.startTime))
      let s₁ : SharedState := { s with stateVariableMap := s.stateVariableMap.insert ssvId sv₁ }
      let u := s₁.updateRange (pointAt sv p.startTime) (pointAt sv₁ p.startTime) p.startTime
        p.endTime list₁
      have hstep : s.rollbackPeriods ssvId sv (p :: rest) rollbackList =
          u.1.rollbackPeriods ssvId sv₁ rest u.2 := by
        simp only [rollbackPeriods, rollbackPeriod,
          StateVariable.performWriteRollback_first hl rollbackList, u, s₁, sv₁, list₁]
      obtain ⟨queries₁, hadds, hnone₁⟩ := s₁.exists_updateRange (pointAt sv p.startTime)
        (pointAt sv₁ p.startTime) p.startTime p.endTime list₁
      obtain ⟨⟨queries₂, hcalls₂, hpresent₂, hnone₂⟩, hkept₂, hothers₂⟩ := ih u.1 sv₁ rfl u.2
      rw [hstep]
      refine ⟨⟨queries₁ ++ queries₂, ?_, ?_, ?_⟩, hkept₂.trans hadds.kept, ?_⟩
      · intro c
        rw [hcalls₂ c, hadds.calls, hl]
        simp only [list₁, sv₁, RollbackList.addLps_calls, readStarts, callsFor,
          List.flatMap_cons, List.map_append, List.mem_append]
        exact or_or_or_comm.trans ((or_congr_left or_assoc).trans or_assoc)
      · intro e he
        cases List.mem_append.mp he with
        | inl he => exact hadds.present e he
        | inr he => exact hadds.kept.subset (hpresent₂ e he)
      · intro hpoint
        have hpoint₁ : ¬ HoldsPoint sv₁ := by
          intro h
          obtain ⟨q, hq, hvalue⟩ := h
          exact hpoint ⟨q, by rw [hl]; exact List.mem_cons_of_mem p hq, hvalue⟩
        rw [hnone₁ (pointAt_eq_none hpoint _) (pointAt_eq_none hpoint₁ _), hnone₂ hpoint₁]
        rfl
      · intro id hid
        rw [hothers₂ id hid]
        simp [u, s₁, Std.TreeMap.getElem?_insert, Ne.symm hid]

end SharedState
end PdesMas
