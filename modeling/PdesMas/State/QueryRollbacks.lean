import PdesMas.Library.Machine
import PdesMas.RangeQuery.Placement
import PdesMas.State.Migration
import PdesMas.State.RangeRead

/-!
Range queries that a write makes invalid. The shared state and the table of its
own port go through the calls that a CLP makes on them; of a recorded query
whose result changes, the theorem says exactly when the agent is rolled back.
-/

namespace PdesMas
universe u

/-- The two operations that take a value from a variable or give it one. -/
inductive ValueWrite where
  | writeWithRollback (newValue : AbstractValue)
  | rollbackWrite
deriving DecidableEq, Repr

namespace ValueWrite

def operation (agentID : LpId) (time : Nat) : ValueWrite → Operation AbstractValue
  | .writeWithRollback newValue => .writeWithRollback agentID newValue time
  | .rollbackWrite => .performWriteRollback agentID time

end ValueWrite

namespace SharedState

open RangeRoutingTable Timeline

/-- The port `HERE` in the loop of `ProcessMessage(RangeQueryMessage)`: the values it
adds, or nothing when its table has no period. -/
def scanHere (s : SharedState) (identifier : Nat) (originalAgent : LpId) (range : Range)
    (direction : Direction) (hops time : Nat) : Option (PointMap × SharedState) :=
  let table := s.rangeRoutingTable
  if table.hasRangePeriod time then
    if (table.getRangeCopy time).any (·.isRangeOverlapping range) then
      some ({ s with
        rangeRoutingTable := table.addRangeQueryInfo time identifier range false
          originalAgent }.rangeRead range direction hops time)
    else
      some (∅, { s with
        rangeRoutingTable := table.addRangeQueryInfo time identifier range true originalAgent })
  else none

/-- What a CLP calls on its shared state and on the table of the port `HERE`. -/
inductive Call where
  | add (ssvId : SsvId) (value : AbstractValue) (time : Nat) (agentID : LpId)
  | insert (ssvId : SsvId) (sv : StateVariable AbstractValue)
  | delete (ssvId : SsvId)
  | read (ssvId : SsvId) (agentID : LpId) (time : Nat)
  | write (write : ValueWrite) (ssvId : SsvId) (agentID : LpId) (time : Nat)
  | rollbackRead (ssvId : SsvId) (agentID : LpId) (time : Nat)
  | removeWritePeriodList (ssvId : SsvId)
  | setGvt (gvt : Nat)
  | updateAccessCount (ssvId : SsvId) (direction : Direction) (numberOfHops : Nat)
  | rangeQuery (identifier : Nat) (originalAgent : LpId) (range : Range)
      (direction : Direction) (hops time : Nat)
  | rangeQueryAnti (identifier time : Nat)
  | clearRangeUpdates

def perform (s : SharedState) (ssvId : SsvId) (agentID : LpId) (time : Nat) :
    ValueWrite → Option (SharedState × RollbackList)
  | .writeWithRollback newValue =>
      (s.writeWithRollback ssvId agentID newValue time .empty).map fun r => (r.1, r.2.2)
  | .rollbackWrite => s.rollbackWrite ssvId agentID time .empty

/-- One call, with the rollback list that the caller hands in empty. -/
def exec (s : SharedState) : Call → Option (SharedState × RollbackList)
  | .add ssvId value time agentID => (s.add ssvId value time agentID).map (·, .empty)
  | .insert ssvId sv => (s.insert ssvId sv .empty).map fun r => (r.1, r.2.2)
  | .delete ssvId => (s.delete ssvId).map (·, .empty)
  | .read ssvId agentID time => (s.read ssvId agentID time).map fun r => (r.2, .empty)
  | .write write ssvId agentID time => s.perform ssvId agentID time write
  | .rollbackRead ssvId agentID time => (s.rollbackRead ssvId agentID time).map (·, .empty)
  | .removeWritePeriodList ssvId => s.removeWritePeriodList ssvId .empty
  | .setGvt gvt =>
      let s := s.removeWritePeriods gvt
      some ({ s with rangeRoutingTable := s.rangeRoutingTable.clearRangePeriods gvt }, .empty)
  | .updateAccessCount ssvId direction numberOfHops =>
      some (s.updateAccessCount ssvId direction numberOfHops, .empty)
  | .rangeQuery identifier originalAgent range direction hops time =>
      match s.scanHere identifier originalAgent range direction hops time with
      | some r => some (r.2, .empty)
      | none => some (s, .empty)
  | .rangeQueryAnti identifier time =>
      some ({ s with
        rangeRoutingTable := s.rangeRoutingTable.deleteRangeQueryInfo time identifier }, .empty)
  | .clearRangeUpdates =>
      some ({ s with rangeRoutingTable := s.rangeRoutingTable.clearRangeUpdates }, .empty)

def machine : Machine SharedState Call RollbackList := ⟨exec⟩

/-- What `InitialisePortRanges` leaves: one period from the start time on. -/
def Initial (s : SharedState) : Prop :=
  ∃ startTime range accessCostCalculator,
    s = create ⟨[.create startTime range], []⟩ accessCostCalculator

/-- The order of the write periods and of the range periods. -/
structure Ordered (s : SharedState) : Prop where
  writePeriods : ∀ (id : SsvId) (sv : StateVariable AbstractValue),
    s.stateVariableMap[id]? = some sv → WellOrdered sv.entries
  rangePeriods : Placed s.rangeRoutingTable.rangePeriodList

variable {s s' : SharedState} {ssvId : SsvId} {sv : StateVariable AbstractValue}

theorem Ordered.setVariable (h : Ordered s) (ssvId : SsvId) (hsv : WellOrdered sv.entries) :
    Ordered { s with stateVariableMap := s.stateVariableMap.insert ssvId sv } := by
  refine ⟨fun id sv' h' => ?_, h.rangePeriods⟩
  change (s.stateVariableMap.insert ssvId sv)[id]? = some sv' at h'
  rw [Std.TreeMap.getElem?_insert] at h'
  split at h'
  · cases h'
    exact hsv
  · exact h.writePeriods id sv' h'

theorem Ordered.updateRange (h : Ordered s) (oldValue newValue : Option Point)
    (time endTime : Nat) (rollbackList : RollbackList) :
    Ordered (s.updateRange oldValue newValue time endTime rollbackList).1 := by
  refine ⟨fun id sv hsv => h.writePeriods id sv (by simpa using hsv), ?_⟩
  simp only [SharedState.updateRange]
  split
  · exact placed_update _ _ _ _ _ _ _ h.rangePeriods
  · exact h.rangePeriods

/-- What an update of the range table adds to the rollback list. -/
theorem updateRange_calls (h : Ordered s) (oldValue newValue : Option Point)
    (time endTime : Nat) (rollbackList : RollbackList) :
    (s.updateRange oldValue newValue time endTime rollbackList).2.calls =
      rollbackList.calls ++ callsFor ((s.rangeRoutingTable.searched time endTime).filter
        (RangePeriod.touches oldValue newValue)) := by
  simp only [SharedState.updateRange]
  split
  · exact update_calls _ _ _ _ _ _ _ h.rangePeriods
  · rename_i hnone
    have htouches : RangePeriod.touches oldValue newValue = fun _ => false := by
      funext e
      cases oldValue with
      | some _ => simp at hnone
      | none =>
          cases newValue with
          | some _ => simp at hnone
          | none => rfl
    simp [htouches, callsFor]

theorem Ordered.setTable (h : Ordered s) {table : RangeRoutingTable}
    (htable : Placed table.rangePeriodList) : Ordered { s with rangeRoutingTable := table } :=
  ⟨h.writePeriods, htable⟩

theorem wellOrdered_write (hsv : WellOrdered sv.entries) (agentID : LpId)
    (value : AbstractValue) (time : Nat) (rollbackList : RollbackList) :
    WellOrdered (sv.writeWithRollback agentID value time rollbackList).1.entries := by
  rw [(sv.writeWithRollback_list agentID value time rollbackList).1]
  have hexec : sv.exec (.writeWithRollback agentID value time) = some _ := rfl
  exact wellOrdered_step (effect_of_exec hexec) hsv

theorem performWriteRollback_list (sv : StateVariable AbstractValue) (agentID : LpId)
    (time : Nat) (rollbackList : RollbackList) :
    (sv.performWriteRollback agentID time rollbackList).1 =
      (sv.performWriteRollback agentID time .empty).1 := by
  simp only [StateVariable.performWriteRollback]
  split
  · rfl
  · split
    · rfl
    · split
      · rfl
      · split
        · rfl
        · split <;> rfl

theorem wellOrdered_writeRollback (hsv : WellOrdered sv.entries) (agentID : LpId)
    (time : Nat) (rollbackList : RollbackList) :
    WellOrdered (sv.performWriteRollback agentID time rollbackList).1.entries := by
  rw [performWriteRollback_list]
  have hexec : sv.exec (.performWriteRollback agentID time) = some _ := rfl
  exact wellOrdered_step (effect_of_exec hexec) hsv

theorem Ordered.replay (l : List (WritePeriod AbstractValue)) (h : Ordered s)
    (hsv : WellOrdered sv.entries) (rollbackList : RollbackList) :
    Ordered (s.replay ssvId sv l rollbackList).1 := by
  induction l generalizing s sv rollbackList with
  | nil => exact h
  | cons p rest ih =>
      have hwrite := wellOrdered_write hsv p.agent p.value p.startTime rollbackList
      exact ih ((h.setVariable ssvId hwrite).updateRange _ _ _ _ _) hwrite _

theorem Ordered.rollbackPeriod (h : Ordered s) (hsv : WellOrdered sv.entries)
    (agentID : LpId) (time endTime : Nat) (rollbackList : RollbackList) :
    Ordered (s.rollbackPeriod ssvId sv agentID time endTime rollbackList).2.1 :=
  (h.setVariable ssvId (wellOrdered_writeRollback hsv agentID time rollbackList)).updateRange
    _ _ _ _ _

theorem Ordered.rollbackPeriods (l : List (WritePeriod AbstractValue)) (h : Ordered s)
    (hsv : WellOrdered sv.entries) (rollbackList : RollbackList) :
    Ordered (s.rollbackPeriods ssvId sv l rollbackList).1 := by
  induction l generalizing s sv rollbackList with
  | nil => exact h
  | cons p rest ih =>
      exact ih (h.rollbackPeriod hsv p.agent p.startTime p.endTime rollbackList)
        (wellOrdered_writeRollback hsv p.agent p.startTime rollbackList) _

theorem Ordered.rangeRead (h : Ordered s) (range : Range) (direction : Direction)
    (hops time : Nat) : Ordered (s.rangeRead range direction hops time).2 := by
  obtain ⟨hmap, htable⟩ := s.rangeRead_frame range direction hops time
  exact ⟨hmap ▸ h.writePeriods, htable ▸ h.rangePeriods⟩

theorem ordered_perform {write : ValueWrite} {agentID : LpId} {time : Nat} {list : RollbackList}
    (h : s.perform ssvId agentID time write = some (s', list)) (hs : Ordered s) :
    Ordered s' := by
  cases write with
  | writeWithRollback newValue =>
      obtain ⟨r, hop, heq⟩ := Option.map_eq_some_iff.mp h
      cases heq
      obtain ⟨sv, hsv, hop⟩ := Option.bind_eq_some_iff.mp hop
      cases hop
      have hwrite := wellOrdered_write (hs.writePeriods ssvId sv hsv) agentID newValue time .empty
      exact (hs.setVariable ssvId hwrite).updateRange _ _ _ _ _
  | rollbackWrite =>
      obtain ⟨sv, hsv, h⟩ := Option.bind_eq_some_iff.mp h
      cases h
      exact hs.rollbackPeriod (hs.writePeriods ssvId sv hsv) agentID time _ .empty

theorem ordered_step {call : Call} {list : RollbackList} (h : s.exec call = some (s', list))
    (hs : Ordered s) : Ordered s' := by
  cases call with
  | add ssvId value time agentID =>
      obtain ⟨s₁, hop, heq⟩ := Option.map_eq_some_iff.mp h
      cases heq
      simp only [SharedState.add] at hop
      split at hop
      · cases hop
      · cases hop
        have hnew : WellOrdered
            ((StateVariable.create ssvId).addWritePeriod value time agentID).entries :=
          .singleton _
        have hset := hs.setVariable ssvId hnew
        exact ⟨hset.writePeriods, hset.rangePeriods⟩
  | insert ssvId sv =>
      obtain ⟨r, hop, heq⟩ := Option.map_eq_some_iff.mp h
      cases heq
      simp only [SharedState.insert] at hop
      split at hop
      · cases hop
      · cases hop
        let fresh : StateVariable AbstractValue := .create ssvId
        have hnew : WellOrdered fresh.entries := .nil
        have hfresh := hs.setVariable ssvId hnew
        have hreplay := @Ordered.replay _ ssvId _ sv.writePeriodList hfresh hnew .empty
        exact ⟨hreplay.writePeriods, hreplay.rangePeriods⟩
  | delete ssvId =>
      obtain ⟨s₁, hop, heq⟩ := Option.map_eq_some_iff.mp h
      cases heq
      simp only [SharedState.delete] at hop
      split at hop
      · cases hop
        refine ⟨fun id sv hsv => ?_, hs.rangePeriods⟩
        change (s.stateVariableMap.erase ssvId)[id]? = some sv at hsv
        rw [Std.TreeMap.getElem?_erase] at hsv
        split at hsv
        · cases hsv
        · exact hs.writePeriods id sv hsv
      · cases hop
  | read ssvId agentID time =>
      obtain ⟨r, hop, heq⟩ := Option.map_eq_some_iff.mp h
      cases heq
      obtain ⟨sv, hsv, hop⟩ := Option.bind_eq_some_iff.mp hop
      obtain ⟨q, hq, hop⟩ := Option.bind_eq_some_iff.mp hop
      cases hop
      have hexec : sv.exec (.read agentID time) = some (q.2, .ofRead q.1) := by
        simp [StateVariable.exec, hq]
      exact hs.setVariable ssvId
        (wellOrdered_step (effect_of_exec hexec) (hs.writePeriods ssvId sv hsv))
  | write write ssvId agentID time => exact ordered_perform h hs
  | rollbackRead ssvId agentID time =>
      obtain ⟨s₁, hop, heq⟩ := Option.map_eq_some_iff.mp h
      cases heq
      obtain ⟨sv, hsv, hop⟩ := Option.bind_eq_some_iff.mp hop
      obtain ⟨sv', hsv', hop⟩ := Option.bind_eq_some_iff.mp hop
      cases hop
      have hexec : sv.exec (.performReadRollback agentID time) = some (sv', .silent) := by
        simp [StateVariable.exec, hsv']
      exact hs.setVariable ssvId
        (wellOrdered_step (effect_of_exec hexec) (hs.writePeriods ssvId sv hsv))
  | removeWritePeriodList ssvId =>
      obtain ⟨sv, hsv, h⟩ := Option.bind_eq_some_iff.mp h
      have heq : s.rollbackPeriods ssvId sv sv.writePeriodList .empty = (s', list) :=
        Option.some.inj h
      have hperiods : Ordered (s.rollbackPeriods ssvId sv sv.writePeriodList .empty).1 :=
        hs.rollbackPeriods sv.writePeriodList (hs.writePeriods ssvId sv hsv) .empty
      rwa [heq] at hperiods
  | setGvt gvt =>
      cases h
      refine ⟨fun id sv hsv => ?_, placed_clearRangePeriods _ hs.rangePeriods gvt⟩
      change (s.stateVariableMap.map fun _ sv => sv.removeWritePeriods gvt)[id]? = some sv at hsv
      rw [Std.TreeMap.getElem?_map] at hsv
      obtain ⟨sv₀, hsv₀, heq⟩ := Option.map_eq_some_iff.mp hsv
      have hexec : sv₀.exec (.removeWritePeriods gvt) =
          some (sv₀.removeWritePeriods gvt, .silent) := rfl
      exact heq ▸ wellOrdered_step (effect_of_exec hexec) (hs.writePeriods id sv₀ hsv₀)
  | updateAccessCount ssvId direction numberOfHops =>
      cases h
      exact ⟨hs.writePeriods, hs.rangePeriods⟩
  | rangeQuery identifier originalAgent range direction hops time =>
      have hadd := fun blockStatus => hs.setTable (placed_addRangeQueryInfo _ hs.rangePeriods
        time identifier range blockStatus originalAgent)
      simp only [exec] at h
      split at h
      · rename_i r hr
        cases h
        simp only [scanHere] at hr
        split at hr
        · split at hr
          · cases hr
            exact (hadd false).rangeRead range direction hops time
          · cases hr
            exact hadd true
        · cases hr
      · cases h
        exact hs
  | rangeQueryAnti identifier time =>
      cases h
      exact hs.setTable (placed_deleteRangeQueryInfo _ hs.rangePeriods time identifier)
  | clearRangeUpdates =>
      cases h
      exact hs.setTable hs.rangePeriods

theorem ordered_of_reachable (h : machine.Reachable Initial (fun _ _ => True) s) :
    Ordered s := by
  refine h.invariant Ordered ?_ ?_
  · intro s hinit
    obtain ⟨startTime, range, calculator, rfl⟩ := hinit
    exact ⟨by simp [create], placed_single startTime range⟩
  · exact fun s call s' list hs _ hstep => ordered_step hstep hs

/-- The point that the write gives the variable, or the one under a period that goes. -/
def newPoint (sv : StateVariable AbstractValue) (agentID : LpId) (time : Nat)
    (write : ValueWrite) : Option Point :=
  (nextValue time sv.entries (write.operation agentID time)).bind AbstractValue.point?

/-- Both operations go through the variable and then update the table. -/
theorem perform_spec {write : ValueWrite} {agentID : LpId} {time : Nat} {list : RollbackList}
    (hs : Ordered s) (hsv : s.stateVariableMap[ssvId]? = some sv)
    (h : s.perform ssvId agentID time write = some (s', list)) :
    ∃ sv' o newValue, sv.exec (write.operation agentID time) = some (sv', o) ∧
      (valueAt time sv'.entries = nextValue time sv.entries (write.operation agentID time) →
        newValue = newPoint sv agentID time write) ∧
      s'.stateVariableMap = s.stateVariableMap.insert ssvId sv' ∧
      list.calls = o.calls ++ callsFor
        ((s.rangeRoutingTable.searched time (sv.readWithoutRecord time).1).filter
          (RangePeriod.touches (pointAt sv time) newValue)) := by
  cases write with
  | writeWithRollback value =>
      obtain ⟨r, hop, heq⟩ := Option.map_eq_some_iff.mp h
      cases heq
      obtain ⟨sv₁, hsv₁, hop⟩ := Option.bind_eq_some_iff.mp hop
      obtain rfl : sv₁ = sv := Option.some.inj (hsv₁.symm.trans hsv)
      cases hop
      refine ⟨_, _, value.point?, rfl, fun _ => rfl, by simp, ?_⟩
      exact updateRange_calls (hs.setVariable ssvId
        (wellOrdered_write (hs.writePeriods ssvId sv₁ hsv) agentID value time .empty)) _ _ _ _ _
  | rollbackWrite =>
      obtain ⟨sv₁, hsv₁, hop⟩ := Option.bind_eq_some_iff.mp h
      obtain rfl : sv₁ = sv := Option.some.inj (hsv₁.symm.trans hsv)
      cases hop
      let sv' := (sv₁.performWriteRollback agentID time .empty).1
      refine ⟨sv', _, pointAt sv' time, rfl, fun hnext => ?_,
        by simp [sv'], ?_⟩
      · rw [pointAt_entries, hnext]
        rfl
      · exact updateRange_calls (hs.setVariable ssvId
          (wellOrdered_writeRollback (hs.writePeriods ssvId sv₁ hsv) agentID time .empty)) _ _ _ _ _

/-- The set that a range read at `time` returns is another one afterwards. -/
def ResultChanges (s s' : SharedState) (range : Range) (time : Nat) : Prop :=
  ∃ (id : SsvId) (direction : Direction) (hops : Nat), (s'.rangeRead range direction hops time).1[id]? ≠
    (s.rangeRead range direction hops time).1[id]?

/-- What a changed result says about the operation, the variable and the query. -/
structure Invalidates (s : SharedState) (sv : StateVariable AbstractValue) (agentID : LpId)
    (time : Nat) (write : ValueWrite) (list : RollbackList) (e : RangePeriodListEntry) : Prop where
  le : time ≤ e.time
  touches : RangePeriod.touches (pointAt sv time) (newPoint sv agentID time write) e = true
  calls : list.calls =
    invalidatedReads time sv.entries (write.operation agentID time) ++ callsFor
      ((s.rangeRoutingTable.searched time (sv.readWithoutRecord time).1).filter
        (RangePeriod.touches (pointAt sv time) (newPoint sv agentID time write)))

theorem invalidates_of_change {write : ValueWrite} {agentID : LpId} {time : Nat}
    {list : RollbackList} {e : RangePeriodListEntry} (hs : Ordered s)
    (hsv : s.stateVariableMap[ssvId]? = some sv)
    (h : s.perform ssvId agentID time write = some (s', list))
    (hchange : ResultChanges s s' e.range e.time) :
    Invalidates s sv agentID time write list e := by
  obtain ⟨sv', o, newValue, hexec, hnew, hmap, hcalls⟩ := perform_spec hs hsv h
  obtain ⟨id, direction, hops, hne⟩ := hchange
  rw [getElem?_rangeRead, getElem?_rangeRead, hmap, Std.TreeMap.getElem?_insert] at hne
  split at hne
  · rename_i hid
    obtain rfl : ssvId = id := Std.LawfulEqCmp.eq_of_compare hid
    rw [hsv, Option.bind_some, Option.bind_some] at hne
    have hvalue : valueAt e.time sv'.entries ≠ valueAt e.time sv.entries := by
      intro heq
      rw [pointAt_entries, pointAt_entries, heq] at hne
      exact hne rfl
    have heff := effect_of_exec hexec
    have hfrom : ChangesFrom time e.time sv.entries sv'.entries
        (write.operation agentID time) o := by
      cases write with
      | writeWithRollback value => exact changesFrom_of_write heff hvalue
      | rollbackWrite =>
          exact changesFrom_of_writeRollback heff (hs.writePeriods ssvId sv hsv) hvalue
    have hnew' := hnew hfrom.next
    subst hnew'
    refine ⟨hfrom.le, ?_, by rw [hcalls, hfrom.calls]⟩
    have hold : pointAt sv e.time = pointAt sv time := by
      rw [pointAt_entries, pointAt_entries, hfrom.before]
    have hafter : pointAt sv' e.time = newPoint sv agentID time write := by
      rw [pointAt_entries, hfrom.after, hfrom.next]
      rfl
    rw [hold, hafter] at hne
    by_contra hout
    simp only [RangePeriod.touches, Bool.or_eq_true, not_or, Bool.not_eq_true] at hout
    have hfilter : ∀ o : Option Point, o.any e.range.isValueOverlapping = false →
        o.filter e.range.isValueOverlapping = none := by
      intro o ho
      cases o with
      | none => rfl
      | some p => simpa [Option.filter] using ho
    rw [hfilter _ hout.1, hfilter _ hout.2] at hne
    exact hne rfl
  · exact absurd rfl hne

/-- The agent of a query is called for at or before the query: the update looks at the
entry, or at an earlier one of the agent that the change touches too, or the variable
reports a read of the agent. -/
def Announced (s : SharedState) (sv : StateVariable AbstractValue) (agentID : LpId)
    (time : Nat) (write : ValueWrite) (p : RangePeriod) (e : RangePeriodListEntry) : Prop :=
  Searched s.rangeRoutingTable.rangePeriodList time (sv.readWithoutRecord time).1 p e ∨
  (∃ p' ∈ s.rangeRoutingTable.rangePeriodList, ∃ e' ∈ p'.rangeQueryInfoList,
    e'.originalAlp = e.originalAlp ∧ e'.time ≤ e.time ∧
      RangePeriod.touches (pointAt sv time) (newPoint sv agentID time write) e' = true ∧
      Searched s.rangeRoutingTable.rangePeriodList time (sv.readWithoutRecord time).1 p' e') ∨
  ∃ r ∈ invalidatedReads time sv.entries (write.operation agentID time),
    r.1 = e.originalAlp ∧ r.2 ≤ e.time

/-- A query whose result an operation changes is rolled back exactly if it is announced. -/
theorem invalidated_rolledBack_iff (s s' : SharedState) (ssvId : SsvId)
    (sv : StateVariable AbstractValue) (agentID : LpId) (time : Nat) (write : ValueWrite)
    (list : RollbackList) (p : RangePeriod) (e : RangePeriodListEntry)
    (hreach : machine.Reachable Initial (fun _ _ => True) s)
    (hsv : s.stateVariableMap[ssvId]? = some sv)
    (hperform : s.perform ssvId agentID time write = some (s', list))
    (hp : p ∈ s.rangeRoutingTable.rangePeriodList) (he : e ∈ p.rangeQueryInfoList) :
    (ResultChanges s s' e.range e.time → ∃ t ≤ e.time, (e.originalAlp, t) ∈ list.calls) ↔
      (ResultChanges s s' e.range e.time → Announced s sv agentID time write p e) := by
  have hs := ordered_of_reachable hreach
  refine imp_congr_right fun hchange => ?_
  obtain ⟨hle, htouches, hcalls⟩ := invalidates_of_change hs hsv hperform hchange
  rw [hcalls]
  simp only [List.mem_append, mem_callsFor, List.mem_filter]
  constructor
  · intro h
    obtain ⟨t, ht, hcall⟩ := h
    cases hcall with
    | inl hread => exact .inr (.inr ⟨_, hread, rfl, ht⟩)
    | inr hquery =>
        obtain ⟨e', ⟨hsearched, htouches'⟩, heq⟩ := hquery
        obtain ⟨p', hp', he', hplace⟩ := (mem_searched_iff _ _ hs.rangePeriods).mp hsearched
        obtain ⟨hagent, htime⟩ := Prod.mk.inj heq
        exact .inr (.inl ⟨p', hp', e', he', hagent, htime ▸ ht, htouches', hplace⟩)
  · intro h
    rcases h with hplace | ⟨p', hp', e', he', hagent, htime, htouches', hplace⟩ |
      ⟨r, hr, hagent, ht⟩
    · have hsearched := (mem_searched_iff _ _ hs.rangePeriods).mpr ⟨p, hp, he, hplace⟩
      exact ⟨e.time, Nat.le_refl _, .inr ⟨e, ⟨hsearched, htouches⟩, rfl⟩⟩
    · have hsearched := (mem_searched_iff _ _ hs.rangePeriods).mpr ⟨p', hp', he', hplace⟩
      exact ⟨e'.time, htime, .inr ⟨e', ⟨hsearched, htouches'⟩, by rw [hagent]⟩⟩
    · exact ⟨r.2, ht, .inl (hagent ▸ hr)⟩

/-- A query of all points up to ten. -/
private def query (time : Nat) : RangePeriodListEntry :=
  ⟨5, time, ⟨⟨0, 0⟩, ⟨10, 10⟩⟩, false, ⟨2, 3⟩⟩

/-- One variable at a point, and the query. -/
private def queriedAt (time : Nat) : List Call :=
  [.add 7 (.valuePOINT ⟨1, 1⟩) 0 ⟨0, 0⟩,
    .rangeQuery (query time).identifier (query time).originalAlp (query time).range .UP 1 time]

/-- A table that begins with the range of one point. -/
def boxOfOne : SharedState :=
  create ⟨[.create 0 (some ⟨⟨1, 1⟩, ⟨1, 1⟩⟩)], []⟩ (.create false 1)

private def movesAway : ValueWrite := .writeWithRollback (.valuePOINT ⟨20, 20⟩)

theorem invalidated_rolledBack_iff_later :
    ∃ s s' sv list p results, machine.run boxOfOne (queriedAt 6) = some (s, results) ∧
      s.perform 7 ⟨1, 4⟩ 5 movesAway = some (s', list) ∧
      query 6 ∈ p.rangeQueryInfoList ∧
      ((ResultChanges s s' (query 6).range 6 → ∃ t ≤ 6, ((⟨2, 3⟩ : LpId), t) ∈ list.calls) ↔
        (ResultChanges s s' (query 6).range 6 →
          Announced s sv ⟨1, 4⟩ 5 movesAway p (query 6))) := by
  obtain ⟨s, results, hrun, sv, hsv, s', list, hperform, p, hp, he⟩ :
      ∃ s results, machine.run boxOfOne (queriedAt 6) = some (s, results) ∧
        ∃ sv, s.stateVariableMap[7]? = some sv ∧
        ∃ s' list, s.perform 7 ⟨1, 4⟩ 5 movesAway = some (s', list) ∧
        ∃ p ∈ s.rangeRoutingTable.rangePeriodList, query 6 ∈ p.rangeQueryInfoList := by
    refine ⟨_, _, rfl, _, rfl, _, _, rfl, ?_⟩
    decide
  have hreach : machine.Reachable Initial (fun _ _ => True) s :=
    .run (.start ⟨0, _, _, rfl⟩) (machine.meets_true _ _) hrun
  exact ⟨s, s', sv, list, p, results, hrun, hperform, he,
    invalidated_rolledBack_iff s s' 7 sv ⟨1, 4⟩ 5 movesAway list p (query 6) hreach hsv hperform
      hp he⟩

/-- A write at the very time of a query changes its result and calls for no rollback. -/
theorem query_at_write_lost :
    ∃ s s' list results, machine.run boxOfOne (queriedAt 5) = some (s, results) ∧
      s.perform 7 ⟨1, 4⟩ 5 movesAway = some (s', list) ∧
      query 5 ∈ recorded s.rangeRoutingTable.rangePeriodList ∧
      ResultChanges s s' (query 5).range (query 5).time ∧
      ¬ ∃ t ≤ 5, ((⟨2, 3⟩ : LpId), t) ∈ list.calls := by
  obtain ⟨s, results, hrun, s', list, hperform, he, hvalues, hcalls⟩ :
      ∃ s results, machine.run boxOfOne (queriedAt 5) = some (s, results) ∧
        ∃ s' list, s.perform 7 ⟨1, 4⟩ 5 movesAway = some (s', list) ∧
        query 5 ∈ recorded s.rangeRoutingTable.rangePeriodList ∧
        (s'.rangeRead (query 5).range .UP 1 5).1[7]? ≠
          (s.rangeRead (query 5).range .UP 1 5).1[7]? ∧
        list.calls = [] := by
    refine ⟨_, _, rfl, _, _, rfl, ?_, ?_, rfl⟩
    · decide
    · decide
  refine ⟨s, s', list, results, hrun, hperform, he, ⟨7, .UP, 1, hvalues⟩, ?_⟩
  simp [hcalls]

end SharedState
end PdesMas
