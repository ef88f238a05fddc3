import PdesMas.Lp.RollbackMap
import PdesMas.RangeQuery.LaterPeriods
import PdesMas.State.QueryRollbacks

/-!
Operations that the variable turns down: a write that fails, and the rollback of
a write that is not there. The shared state updates the range table all the same,
as if the value had been written or taken out.
-/

namespace PdesMas

namespace SharedState

open RangeRoutingTable

variable {s s' : SharedState} {ssvId : SsvId} {sv : StateVariable AbstractValue} {agentID : LpId}
  {time : Nat} {write : ValueWrite} {rollbackList list : RollbackList}

/-- The operation, with the rollback list that the caller hands in. -/
def performInto (s : SharedState) (ssvId : SsvId) (agentID : LpId) (time : Nat)
    (rollbackList : RollbackList) : ValueWrite → Option (SharedState × RollbackList)
  | .writeWithRollback newValue =>
      (s.writeWithRollback ssvId agentID newValue time rollbackList).map fun r => (r.1, r.2.2)
  | .rollbackWrite => s.rollbackWrite ssvId agentID time rollbackList

/-- The write reports failure; or no period starts at the time of the rollback, or the first
that does is one of another agent. -/
def Rejected (s : SharedState) (ssvId : SsvId) (agentID : LpId) (time : Nat)
    (rollbackList : RollbackList) : ValueWrite → Prop
  | .writeWithRollback newValue =>
      (s.writeWithRollback ssvId agentID newValue time rollbackList).map (·.2.1) =
        some .writeFAILURE
  | .rollbackWrite => ∀ sv p, s.stateVariableMap[ssvId]? = some sv →
      sv.writePeriodList.find? (fun p => decide (p.startTime = time)) = some p →
        p.agent.ne agentID = true

/-- The new value that the range table is told of. -/
def askedPoint (sv : StateVariable AbstractValue) (time : Nat) : ValueWrite → Option Point
  | .writeWithRollback newValue => newValue.point?
  | .rollbackWrite => pointAt sv time

theorem writeWithRollback_of_failure {newValue : AbstractValue}
    (h : (sv.writeWithRollback agentID newValue time rollbackList).2.1 = .writeFAILURE) :
    sv.writeWithRollback agentID newValue time rollbackList = (sv, .writeFAILURE, rollbackList) := by
  simp only [StateVariable.writeWithRollback] at h ⊢
  split at h
  · cases h
  · rename_i hne
    rw [if_neg hne]
    split at h
    · rfl
    · split at h
      · rename_i htie
        simp only [if_pos htie]
      · split at h <;> cases h

theorem performWriteRollback_of_foreign
    (h : ∀ p, sv.writePeriodList.find? (fun p => decide (p.startTime = time)) = some p →
      p.agent.ne agentID = true) :
    sv.performWriteRollback agentID time rollbackList = (sv, rollbackList) := by
  simp only [StateVariable.performWriteRollback]
  split
  · rfl
  · rename_i c hc
    obtain ⟨hl, hfocus, hfront⟩ := Cut.first?_eq_some.mp hc
    have hfind : sv.writePeriodList.find? (fun p => decide (p.startTime = time)) = some c.focus :=
      List.find?_eq_some_iff_append.mpr ⟨hfocus, c.front, c.back, hl.symm, fun p hp => by
        simpa using hfront p hp⟩
    rw [if_pos (h c.focus hfind)]

/-- An operation that is turned down leaves the variable alone, and updates the range table. -/
theorem performInto_of_rejected (hsv : s.stateVariableMap[ssvId]? = some sv)
    (hrejected : s.Rejected ssvId agentID time rollbackList write) :
    s.performInto ssvId agentID time rollbackList write = some (({ s with
      stateVariableMap := s.stateVariableMap.insert ssvId sv } : SharedState).updateRange
        (pointAt sv time) (askedPoint sv time write) time (sv.readWithoutRecord time).1
        rollbackList) := by
  cases write with
  | writeWithRollback newValue =>
      have hfailure : (sv.writeWithRollback agentID newValue time rollbackList).2.1 =
          .writeFAILURE := by
        simpa [Rejected, SharedState.writeWithRollback, hsv] using hrejected
      simp only [performInto, SharedState.writeWithRollback, hsv, Option.bind_eq_bind,
        Option.bind_some, writeWithRollback_of_failure hfailure]
      rfl
  | rollbackWrite =>
      simp only [performInto, SharedState.rollbackWrite, hsv, Option.bind_eq_bind,
        Option.bind_some, rollbackPeriod,
        performWriteRollback_of_foreign fun p hp => hrejected sv p hsv hp]
      rfl

theorem recalculateRange_congr {m m' : StateVariableMap} (h : ∀ id : SsvId, m[id]? = m'[id]?) :
    recalculateRange m = recalculateRange m' := by
  have hlist : m.toList = m'.toList :=
    (Std.TreeMap.Equiv.of_forall_constGet?_eq h).toList_eq
  funext time
  rw [recalculateRange, recalculateRange, hlist]

theorem getElem?_insert_self (hsv : s.stateVariableMap[ssvId]? = some sv) (id : SsvId) :
    (s.stateVariableMap.insert ssvId sv)[id]? = s.stateVariableMap[id]? := by
  rw [Std.TreeMap.getElem?_insert]
  split
  · rename_i hid
    rw [← Std.LawfulEqCmp.eq_of_compare hid, hsv]
  · rfl

/-- The update that follows finds nothing to do: the range is there, no later period is
recalculated, and the queries it touches are called for already. -/
structure UpdateIdle (s : SharedState) (sv : StateVariable AbstractValue) (time : Nat)
    (newValue : Option Point) (rollbackList : RollbackList) : Prop where
  range : ∃ range, rangeAt s.rangeRoutingTable.rangePeriodList time = some range ∧
    recalculateRange s.stateVariableMap time = some range
  later : ∀ p ∈ s.rangeRoutingTable.rangePeriodList,
    ¬ Recalculated s.rangeRoutingTable.rangePeriodList time (sv.readWithoutRecord time).1 p
  called : ∀ p ∈ s.rangeRoutingTable.rangePeriodList, p.time ≤ time →
    ∀ e ∈ p.rangeQueryInfoList, time < e.time →
      RangePeriod.touches (pointAt sv time) newValue e = true →
        ∃ t, t ≤ e.time ∧ ChainMap.find? LpId.lt e.originalAlp rollbackList.content = some t

theorem updateIdle_iff (hplaced : Placed s.rangeRoutingTable.rangePeriodList)
    (newValue : Option Point) :
    ((s.rangeRoutingTable.update (pointAt sv time) newValue time
        (recalculateRange s.stateVariableMap time) (recalculateRange s.stateVariableMap)
        rollbackList (sv.readWithoutRecord time).1).1 = s.rangeRoutingTable ∧
      (s.rangeRoutingTable.update (pointAt sv time) newValue time
        (recalculateRange s.stateVariableMap time) (recalculateRange s.stateVariableMap)
        rollbackList (sv.readWithoutRecord time).1).2.content = rollbackList.content) ↔
      UpdateIdle s sv time newValue rollbackList := by
  rw [update_eq_self_iff _ hplaced, RollbackList.content, update_calls _ _ _ _ _ _ _ hplaced,
    RollbackList.content, ChainMap.collect_append_eq_iff]
  simp only [mem_callsFor, List.mem_filter, mem_searched_iff _ _ hplaced]
  constructor
  · intro h
    obtain ⟨⟨hrange, hlater⟩, hcalled⟩ := h
    refine ⟨hrange, hlater, fun p hp hbegun e he hlt htouches => ?_⟩
    have hsearched : Searched s.rangeRoutingTable.rangePeriodList time
        (sv.readWithoutRecord time).1 p e := ⟨hlt, ⟨p, hp, hbegun⟩, .inl hbegun⟩
    exact hcalled (e.originalAlp, e.time) ⟨e, ⟨⟨p, hp, he, hsearched⟩, htouches⟩, rfl⟩
  · intro h
    refine ⟨⟨h.range, h.later⟩, fun c hc => ?_⟩
    obtain ⟨e, ⟨⟨p, hp, he, hlt, hbegun, hplace⟩, htouches⟩, rfl⟩ := hc
    refine h.called p hp (hplace.resolve_right fun hlater => ?_) e he hlt htouches
    exact h.later p hp ⟨hbegun, hlater⟩

/-- An operation that is turned down changes nothing exactly if it is about no point, or its
update finds nothing to do. -/
theorem rejected_unchanged_iff (s s' : SharedState) (ssvId : SsvId)
    (sv : StateVariable AbstractValue) (agentID : LpId) (time : Nat) (write : ValueWrite)
    (rollbackList list : RollbackList)
    (hreach : machine.Reachable Initial (fun _ _ => True) s)
    (hsv : s.stateVariableMap[ssvId]? = some sv)
    (hrejected : s.Rejected ssvId agentID time rollbackList write)
    (hperform : s.performInto ssvId agentID time rollbackList write = some (s', list)) :
    ((∀ id : SsvId, s'.stateVariableMap[id]? = s.stateVariableMap[id]?) ∧
      s'.rangeRoutingTable = s.rangeRoutingTable ∧ list.content = rollbackList.content) ↔
    (pointAt sv time = none ∧ askedPoint sv time write = none ∨
      UpdateIdle s sv time (askedPoint sv time write) rollbackList) := by
  have hplaced := (ordered_of_reachable hreach).rangePeriods
  rw [performInto_of_rejected hsv hrejected] at hperform
  simp only [updateRange] at hperform
  split at hperform
  · rename_i hasked
    have hnotNone : ¬ (pointAt sv time = none ∧ askedPoint sv time write = none) := by
      intro hnone
      rw [hnone.1, hnone.2] at hasked
      exact absurd hasked Bool.false_ne_true
    have hsame := recalculateRange_congr (getElem?_insert_self hsv)
    simp only [hsame, Option.some.injEq, Prod.mk.injEq] at hperform
    obtain ⟨rfl, rfl⟩ := hperform
    rw [← updateIdle_iff hplaced]
    constructor
    · exact fun h => .inr h.2
    · exact fun h => ⟨getElem?_insert_self hsv, h.resolve_left hnotNone⟩
  · rename_i hasked
    have hnone : pointAt sv time = none ∧ askedPoint sv time write = none := by
      simpa using hasked
    cases hperform
    exact iff_of_true ⟨getElem?_insert_self hsv, rfl, rfl⟩ (.inl hnone)

/-- A point, and a query that has seen it. -/
private def seenPoint : List Call :=
  [.add 7 (.valuePOINT ⟨1, 1⟩) 0 ⟨5, 5⟩, .rangeQuery 5 ⟨2, 3⟩ ⟨⟨0, 0⟩, ⟨10, 10⟩⟩ .UP 1 6]

/-- The point was put there by an agent that goes before. -/
private def loses : ValueWrite := .writeWithRollback (.valuePOINT ⟨20, 20⟩)

theorem rejected_unchanged_iff_lost :
    ∃ s s' sv list results, machine.run boxOfOne seenPoint = some (s, results) ∧
      s.stateVariableMap[7]? = some sv ∧ s.Rejected 7 ⟨1, 4⟩ 0 .empty loses ∧
      s.performInto 7 ⟨1, 4⟩ 0 .empty loses = some (s', list) ∧
      (((∀ id : SsvId, s'.stateVariableMap[id]? = s.stateVariableMap[id]?) ∧
          s'.rangeRoutingTable = s.rangeRoutingTable ∧
          list.content = RollbackList.empty.content) ↔
        (pointAt sv 0 = none ∧ askedPoint sv 0 loses = none ∨
          UpdateIdle s sv 0 (askedPoint sv 0 loses) .empty)) := by
  obtain ⟨s, results, hrun, sv, hsv, hrejected, s', list, hperform⟩ :
      ∃ s results, machine.run boxOfOne seenPoint = some (s, results) ∧
        ∃ sv, s.stateVariableMap[7]? = some sv ∧ s.Rejected 7 ⟨1, 4⟩ 0 .empty loses ∧
        ∃ s' list, s.performInto 7 ⟨1, 4⟩ 0 .empty loses = some (s', list) :=
    ⟨_, _, rfl, _, rfl, rfl, _, _, rfl⟩
  have hreach : machine.Reachable Initial (fun _ _ => True) s :=
    .run (.start ⟨0, _, _, rfl⟩) (machine.meets_true _ _) hrun
  exact ⟨s, s', sv, list, results, hrun, hsv, hrejected, hperform,
    rejected_unchanged_iff s s' 7 sv ⟨1, 4⟩ 0 loses .empty list hreach hsv hrejected hperform⟩

/-- The agent of the query is rolled back for a write that has failed. -/
theorem failed_write_rolls_back :
    ∃ s s' list results, machine.run boxOfOne seenPoint = some (s, results) ∧
      s.writeWithRollback 7 ⟨1, 4⟩ (.valuePOINT ⟨20, 20⟩) 0 .empty =
        some (s', .writeFAILURE, list) ∧
      list.content = [(⟨2, 3⟩, 6)] :=
  ⟨_, _, _, _, rfl, rfl, rfl⟩

end SharedState
end PdesMas
