import Std.Data.TreeMap.Lemmas
import PdesMas.RangeQuery.RangeRoutingTable
import PdesMas.Ssv.AccessCostCalculator
import PdesMas.State.StateVariable

/-!
The shared state of a CLP. Operations on a variable that is missing, or that is
there already, end the process; they are `none`. The range table and the access
counters, pointers in the source, are part of the state.
-/

namespace PdesMas

abbrev StateVariableMap := Std.TreeMap SsvId (StateVariable AbstractValue)

structure SharedState where
  stateVariableMap : StateVariableMap
  rangeRoutingTable : RangeRoutingTable
  accessCostCalculator : AccessCostCalculator

namespace SharedState

def create (rangeRoutingTable : RangeRoutingTable) (accessCostCalculator : AccessCostCalculator) :
    SharedState := ⟨∅, rangeRoutingTable, accessCostCalculator⟩

def containsVariable (s : SharedState) (ssvId : SsvId) : Bool :=
  s.stateVariableMap.contains ssvId

def updateAccessCount (s : SharedState) (ssvId : SsvId) (direction : Direction)
    (numberOfHops : Nat) : SharedState :=
  let access := s.accessCostCalculator.updateAccessCount direction 1 ssvId
  let hops := access.2.updateHopCount direction numberOfHops ssvId
  { s with
    accessCostCalculator :=
      hops.2.updateLoad hops.1 access.1 (numberOfHops + hops.1) (access.1 + 1) }

def add (s : SharedState) (ssvId : SsvId) (value : AbstractValue) (time : Nat)
    (agentID : LpId) : Option SharedState :=
  if s.containsVariable ssvId then none
  else
    some { s with
      stateVariableMap := s.stateVariableMap.insert ssvId
        ((StateVariable.create ssvId).addWritePeriod value time agentID)
      accessCostCalculator := s.accessCostCalculator.initialiseCounters ssvId }

/-- The point a variable holds at `time`, if it holds one. -/
def pointAt (sv : StateVariable AbstractValue) (time : Nat) : Option Point :=
  (sv.readWithoutRecord time).2.bind AbstractValue.point?

/-- `RecalculateRange`: the bounding box of the points held at `time`. -/
def recalculateRange (m : StateVariableMap) (time : Nat) : Option Range :=
  (m.toList.filterMap fun sv => pointAt sv.2 time).foldl
    (fun box point =>
      match box with
      | none => some ⟨point, point⟩
      | some range => some ⟨range.minRangeValue.min point, range.maxRangeValue.max point⟩)
    none

/-- What `WriteWithRollback`, `RollbackWrite` and `Insert` do after a change at `time`. -/
def updateRange (s : SharedState) (oldValue newValue : Option Point) (time endTime : Nat)
    (rollbackList : RollbackList) : SharedState × RollbackList :=
  if oldValue.isSome || newValue.isSome then
    let r := s.rangeRoutingTable.update oldValue newValue time
      (recalculateRange s.stateVariableMap time) (recalculateRange s.stateVariableMap)
      rollbackList endTime
    ({ s with rangeRoutingTable := r.1 }, r.2)
  else (s, rollbackList)

/-- One turn of the loop of `Insert`; the source ignores the write status. -/
def replayPeriod (s : SharedState) (ssvId : SsvId) (sv : StateVariable AbstractValue)
    (p : WritePeriod AbstractValue) (rollbackList : RollbackList) :
    StateVariable AbstractValue × SharedState × WriteStatus × RollbackList :=
  let oldValue := pointAt sv p.startTime
  let r := sv.writeWithRollback p.agent p.value p.startTime rollbackList
  let s' := { s with stateVariableMap := s.stateVariableMap.insert ssvId r.1 }
  let u := s'.updateRange oldValue p.value.point? p.startTime p.endTime r.2.2
  (r.1, u.1, r.2.1, u.2)

def replay (s : SharedState) (ssvId : SsvId) (sv : StateVariable AbstractValue) :
    List (WritePeriod AbstractValue) → RollbackList →
      SharedState × List WriteStatus × RollbackList
  | [], rollbackList => (s, [], rollbackList)
  | p :: rest, rollbackList =>
      let r := replayPeriod s ssvId sv p rollbackList
      let q := replay r.2.1 ssvId r.1 rest r.2.2.2
      (q.1, r.2.2.1 :: q.2.1, q.2.2)

def insert (s : SharedState) (ssvId : SsvId) (sv : StateVariable AbstractValue)
    (rollbackList : RollbackList) : Option (SharedState × List WriteStatus × RollbackList) :=
  if s.containsVariable ssvId then none
  else
    let fresh := StateVariable.create ssvId
    let s' := { s with stateVariableMap := s.stateVariableMap.insert ssvId fresh }
    let r := s'.replay ssvId fresh sv.writePeriodList rollbackList
    some ({ r.1 with
      accessCostCalculator := r.1.accessCostCalculator.initialiseCounters ssvId }, r.2)

def delete (s : SharedState) (ssvId : SsvId) : Option SharedState :=
  if s.containsVariable ssvId then
    some { s with
      stateVariableMap := s.stateVariableMap.erase ssvId
      accessCostCalculator := ((s.accessCostCalculator.removeSsvAccessRecord
        ssvId).removeSsvHopRecord ssvId).removeSsvFromList ssvId }
  else none

def getCopy (s : SharedState) (ssvId : SsvId) : Option (StateVariable AbstractValue) :=
  s.stateVariableMap[ssvId]?

def read (s : SharedState) (ssvId : SsvId) (agentID : LpId) (time : Nat) :
    Option (AbstractValue × SharedState) := do
  let sv ← s.stateVariableMap[ssvId]?
  let r ← sv.read agentID time
  pure (r.1, { s with stateVariableMap := s.stateVariableMap.insert ssvId r.2 })

def writeWithRollback (s : SharedState) (ssvId : SsvId) (agentID : LpId)
    (newValue : AbstractValue) (time : Nat) (rollbackList : RollbackList) :
    Option (SharedState × WriteStatus × RollbackList) := do
  let sv ← s.stateVariableMap[ssvId]?
  let old := sv.readWithoutRecord time
  let r := sv.writeWithRollback agentID newValue time rollbackList
  let s' := { s with stateVariableMap := s.stateVariableMap.insert ssvId r.1 }
  let u := s'.updateRange (old.2.bind AbstractValue.point?) newValue.point? time old.1 r.2.2
  pure (u.1, r.2.1, u.2)

/-- One write rollback and its range update; `endTime` bounds the update. -/
def rollbackPeriod (s : SharedState) (ssvId : SsvId) (sv : StateVariable AbstractValue)
    (agentID : LpId) (time endTime : Nat) (rollbackList : RollbackList) :
    StateVariable AbstractValue × SharedState × RollbackList :=
  let oldValue := pointAt sv time
  let r := sv.performWriteRollback agentID time rollbackList
  let s' := { s with stateVariableMap := s.stateVariableMap.insert ssvId r.1 }
  let u := s'.updateRange oldValue (pointAt r.1 time) time endTime r.2
  (r.1, u.1, u.2)

def rollbackWrite (s : SharedState) (ssvId : SsvId) (agentID : LpId) (time : Nat)
    (rollbackList : RollbackList) : Option (SharedState × RollbackList) := do
  let sv ← s.stateVariableMap[ssvId]?
  let r := s.rollbackPeriod ssvId sv agentID time (sv.readWithoutRecord time).1 rollbackList
  pure r.2

def rollbackRead (s : SharedState) (ssvId : SsvId) (agentID : LpId) (time : Nat) :
    Option SharedState := do
  let sv ← s.stateVariableMap[ssvId]?
  let sv' ← sv.performReadRollback agentID time
  pure { s with stateVariableMap := s.stateVariableMap.insert ssvId sv' }

def removeWritePeriods (s : SharedState) (time : Nat) : SharedState :=
  { s with stateVariableMap := s.stateVariableMap.map fun _ sv => sv.removeWritePeriods time }

/-- The loop of `RemoveWritePeriodList` over a copy of the list. -/
def rollbackPeriods (s : SharedState) (ssvId : SsvId) (sv : StateVariable AbstractValue) :
    List (WritePeriod AbstractValue) → RollbackList → SharedState × RollbackList
  | [], rollbackList => (s, rollbackList)
  | p :: rest, rollbackList =>
      let r := s.rollbackPeriod ssvId sv p.agent p.startTime p.endTime rollbackList
      rollbackPeriods r.2.1 ssvId r.1 rest r.2.2

def removeWritePeriodList (s : SharedState) (ssvId : SsvId) (rollbackList : RollbackList) :
    Option (SharedState × RollbackList) := do
  let sv ← s.stateVariableMap[ssvId]?
  pure (s.rollbackPeriods ssvId sv sv.writePeriodList rollbackList)

@[simp] theorem updateRange_stateVariableMap (s : SharedState)
    (oldValue newValue : Option Point) (time endTime : Nat) (rollbackList : RollbackList) :
    (s.updateRange oldValue newValue time endTime rollbackList).1.stateVariableMap =
      s.stateVariableMap := by
  simp only [updateRange]
  split <;> rfl

@[simp] theorem updateRange_accessCostCalculator (s : SharedState)
    (oldValue newValue : Option Point) (time endTime : Nat) (rollbackList : RollbackList) :
    (s.updateRange oldValue newValue time endTime rollbackList).1.accessCostCalculator =
      s.accessCostCalculator := by
  simp only [updateRange]
  split <;> rfl

/-- `s'` has the variables of `s`, and counts accesses to the same ones. -/
structure SameVariables (s s' : SharedState) : Prop where
  contains : ∀ id, s'.containsVariable id = s.containsVariable id
  counted : s'.accessCostCalculator.ssvList = s.accessCostCalculator.ssvList

theorem SameVariables.refl (s : SharedState) : SameVariables s s := ⟨fun _ => rfl, rfl⟩

theorem SameVariables.trans {s s' s'' : SharedState} (h : SameVariables s s')
    (h' : SameVariables s' s'') : SameVariables s s'' :=
  ⟨fun id => (h'.contains id).trans (h.contains id), h'.counted.trans h.counted⟩

/-- Accesses are counted for the variables that are there. -/
structure Counted (s : SharedState) : Prop where
  nodup : s.accessCostCalculator.ssvList.Nodup
  mem_iff : ∀ id, id ∈ s.accessCostCalculator.ssvList ↔ s.containsVariable id = true

theorem Counted.same {s s' : SharedState} (h : Counted s) (hsame : SameVariables s s') :
    Counted s' := by
  refine ⟨hsame.counted ▸ h.nodup, fun id => ?_⟩
  rw [hsame.counted, hsame.contains, h.mem_iff]

@[simp] theorem create_containsVariable (rangeRoutingTable : RangeRoutingTable)
    (accessCostCalculator : AccessCostCalculator) (id : SsvId) :
    (create rangeRoutingTable accessCostCalculator).containsVariable id = false := by
  simp [create, containsVariable]

theorem counted_create (rangeRoutingTable : RangeRoutingTable) (isParentCLP : Bool)
    (portThreshold : Nat) :
    Counted (create rangeRoutingTable (.create isParentCLP portThreshold)) :=
  ⟨List.nodup_nil, fun id => by simp [create, AccessCostCalculator.create, containsVariable]⟩

theorem updateAccessCount_sameVariables (s : SharedState) (ssvId : SsvId) (direction : Direction)
    (numberOfHops : Nat) : SameVariables s (s.updateAccessCount ssvId direction numberOfHops) :=
  ⟨fun _ => rfl, by simp [updateAccessCount, AccessCostCalculator.updateLoad]⟩

theorem containsVariable_of_getElem? {s : SharedState} {ssvId : SsvId}
    {sv : StateVariable AbstractValue} (h : s.stateVariableMap[ssvId]? = some sv) :
    s.containsVariable ssvId = true := by
  rw [containsVariable, ← Std.TreeMap.isSome_getElem?_eq_contains, h]
  rfl

theorem exists_of_containsVariable {s : SharedState} {ssvId : SsvId}
    (h : s.containsVariable ssvId = true) : ∃ sv, s.stateVariableMap[ssvId]? = some sv := by
  rw [containsVariable, ← Std.TreeMap.isSome_getElem?_eq_contains] at h
  exact Option.isSome_iff_exists.mp h

/-- A variable that is there already may change without a change of the set. -/
theorem sameVariables_of_insert {s s' : SharedState} {ssvId : SsvId}
    {sv : StateVariable AbstractValue} (hmem : s.containsVariable ssvId = true)
    (h : s'.stateVariableMap = s.stateVariableMap.insert ssvId sv)
    (hcounted : s'.accessCostCalculator = s.accessCostCalculator) : SameVariables s s' := by
  refine ⟨fun id => ?_, by rw [hcounted]⟩
  rw [containsVariable, h, Std.TreeMap.contains_insert]
  by_cases hid : ssvId = id
  · subst hid
    simpa using hmem.symm
  · simp [hid, containsVariable]

theorem read_sameVariables {s : SharedState} {ssvId : SsvId} {agentID : LpId} {time : Nat}
    {r : AbstractValue × SharedState} (h : s.read ssvId agentID time = some r) :
    SameVariables s r.2 := by
  obtain ⟨sv, hsv, h⟩ := Option.bind_eq_some_iff.mp h
  obtain ⟨q, _, h⟩ := Option.bind_eq_some_iff.mp h
  cases h
  exact sameVariables_of_insert (containsVariable_of_getElem? hsv) rfl rfl

theorem writeWithRollback_sameVariables {s : SharedState} {ssvId : SsvId} {agentID : LpId}
    {value : AbstractValue} {time : Nat} {rollbackList : RollbackList}
    {r : SharedState × WriteStatus × RollbackList}
    (h : s.writeWithRollback ssvId agentID value time rollbackList = some r) :
    SameVariables s r.1 := by
  obtain ⟨sv, hsv, h⟩ := Option.bind_eq_some_iff.mp h
  cases h
  exact sameVariables_of_insert (containsVariable_of_getElem? hsv)
    (updateRange_stateVariableMap _ _ _ _ _ _) (updateRange_accessCostCalculator _ _ _ _ _ _)

theorem rollbackPeriod_sameVariables (s : SharedState) {ssvId : SsvId}
    (hmem : s.containsVariable ssvId = true) (sv : StateVariable AbstractValue) (agentID : LpId)
    (time endTime : Nat) (rollbackList : RollbackList) :
    SameVariables s (s.rollbackPeriod ssvId sv agentID time endTime rollbackList).2.1 :=
  sameVariables_of_insert hmem (updateRange_stateVariableMap _ _ _ _ _ _)
    (updateRange_accessCostCalculator _ _ _ _ _ _)

theorem rollbackWrite_sameVariables {s : SharedState} {ssvId : SsvId} {agentID : LpId}
    {time : Nat} {rollbackList : RollbackList} {r : SharedState × RollbackList}
    (h : s.rollbackWrite ssvId agentID time rollbackList = some r) : SameVariables s r.1 := by
  obtain ⟨sv, hsv, h⟩ := Option.bind_eq_some_iff.mp h
  cases h
  exact s.rollbackPeriod_sameVariables (containsVariable_of_getElem? hsv) _ _ _ _ _

theorem rollbackRead_sameVariables {s s' : SharedState} {ssvId : SsvId} {agentID : LpId}
    {time : Nat} (h : s.rollbackRead ssvId agentID time = some s') : SameVariables s s' := by
  obtain ⟨sv, hsv, h⟩ := Option.bind_eq_some_iff.mp h
  obtain ⟨sv', _, h⟩ := Option.bind_eq_some_iff.mp h
  cases h
  exact sameVariables_of_insert (containsVariable_of_getElem? hsv) rfl rfl

theorem removeWritePeriods_sameVariables (s : SharedState) (time : Nat) :
    SameVariables s (s.removeWritePeriods time) :=
  ⟨fun id => by simp [containsVariable, removeWritePeriods], rfl⟩

theorem rollbackPeriods_sameVariables (l : List (WritePeriod AbstractValue)) (s : SharedState)
    {ssvId : SsvId} (hmem : s.containsVariable ssvId = true) (sv : StateVariable AbstractValue)
    (rollbackList : RollbackList) :
    SameVariables s (s.rollbackPeriods ssvId sv l rollbackList).1 := by
  induction l generalizing s sv rollbackList with
  | nil => exact .refl s
  | cons p l ih =>
      have hp := s.rollbackPeriod_sameVariables hmem sv p.agent p.startTime p.endTime rollbackList
      exact hp.trans (ih _ ((hp.contains ssvId).trans hmem) _ _)

theorem removeWritePeriodList_of_contains {s : SharedState} {ssvId : SsvId}
    (hmem : s.containsVariable ssvId = true) (rollbackList : RollbackList) :
    ∃ r, s.removeWritePeriodList ssvId rollbackList = some r ∧ SameVariables s r.1 := by
  obtain ⟨sv, hsv⟩ := exists_of_containsVariable hmem
  refine ⟨s.rollbackPeriods ssvId sv sv.writePeriodList rollbackList, ?_, ?_⟩
  · rw [removeWritePeriodList, hsv]
    rfl
  · exact s.rollbackPeriods_sameVariables _ hmem _ _

theorem delete_of_contains {s : SharedState} {ssvId : SsvId}
    (hmem : s.containsVariable ssvId = true) :
    ∃ s', s.delete ssvId = some s' ∧
      (∀ id, s'.containsVariable id = (decide (id ≠ ssvId) && s.containsVariable id)) ∧
      (Counted s → Counted s') := by
  have herased : ∀ id, (s.stateVariableMap.erase ssvId).contains id =
      (decide (id ≠ ssvId) && s.containsVariable id) := by
    intro id
    rw [Std.TreeMap.contains_erase, containsVariable]
    by_cases hid : id = ssvId
    · simp [hid]
    · simp [hid, Ne.symm hid]
  refine ⟨_, if_pos hmem, herased, fun h => ⟨?_, fun id => ?_⟩⟩
  · simpa using h.nodup.erase ssvId
  · simp only [AccessCostCalculator.removeSsvFromList_ssvList,
      AccessCostCalculator.removeSsvHopRecord_ssvList,
      AccessCostCalculator.removeSsvAccessRecord_ssvList, h.nodup.mem_erase_iff, h.mem_iff]
    exact (by simp : id ≠ ssvId ∧ s.containsVariable id = true ↔
      (decide (id ≠ ssvId) && s.containsVariable id) = true).trans (by rw [← herased]; rfl)

theorem replay_contains (l : List (WritePeriod AbstractValue)) (s : SharedState)
    {ssvId : SsvId} (hmem : s.containsVariable ssvId = true) (sv : StateVariable AbstractValue)
    (rollbackList : RollbackList) : SameVariables s (s.replay ssvId sv l rollbackList).1 := by
  induction l generalizing s sv rollbackList with
  | nil => exact .refl s
  | cons p l ih =>
      have hp : SameVariables s (s.replayPeriod ssvId sv p rollbackList).2.1 :=
        sameVariables_of_insert hmem (updateRange_stateVariableMap _ _ _ _ _ _)
          (updateRange_accessCostCalculator _ _ _ _ _ _)
      exact hp.trans (ih _ ((hp.contains ssvId).trans hmem) _ _)

theorem Counted.insert {s s' : SharedState} {ssvId : SsvId} (h : Counted s)
    (habsent : s.containsVariable ssvId = false)
    (hcontains : ∀ id, s'.containsVariable id = (decide (id = ssvId) || s.containsVariable id))
    (hcounted : s'.accessCostCalculator.ssvList =
      (s.accessCostCalculator.initialiseCounters ssvId).ssvList) : Counted s' := by
  have hnew : ssvId ∉ s.accessCostCalculator.ssvList := fun hmem => by
    simp [(h.mem_iff ssvId).mp hmem] at habsent
  rw [AccessCostCalculator.initialiseCounters_ssvList, if_neg hnew] at hcounted
  refine ⟨?_, fun id => ?_⟩
  · rw [hcounted]
    exact List.Nodup.append h.nodup (List.nodup_singleton _) (by simpa using hnew)
  · rw [hcounted, hcontains, List.mem_append, h.mem_iff]
    simp [or_comm]

theorem contains_insert (s : SharedState) (ssvId id : SsvId) (sv : StateVariable AbstractValue) :
    (s.stateVariableMap.insert ssvId sv).contains id =
      (decide (id = ssvId) || s.containsVariable id) := by
  rw [Std.TreeMap.contains_insert, containsVariable]
  by_cases hid : id = ssvId
  · simp [hid]
  · simp [hid, Ne.symm hid]

theorem insert_of_absent {s : SharedState} {ssvId : SsvId}
    (habsent : s.containsVariable ssvId = false) (sv : StateVariable AbstractValue)
    (rollbackList : RollbackList) :
    ∃ r, s.insert ssvId sv rollbackList = some r ∧
      (∀ id, r.1.containsVariable id = (decide (id = ssvId) || s.containsVariable id)) ∧
      (Counted s → Counted r.1) := by
  let s₀ : SharedState :=
    { s with stateVariableMap := s.stateVariableMap.insert ssvId (.create ssvId) }
  have hs₀ : ∀ id, s₀.containsVariable id = (decide (id = ssvId) || s.containsVariable id) :=
    fun id => contains_insert s ssvId id _
  have hmem : s₀.containsVariable ssvId = true := by simp [hs₀]
  have hreplay := replay_contains sv.writePeriodList s₀ hmem (.create ssvId) rollbackList
  have hcontains := fun id => (hreplay.contains id).trans (hs₀ id)
  refine ⟨_, if_neg (by simp [habsent]), hcontains, fun h => h.insert habsent hcontains ?_⟩
  simp only [AccessCostCalculator.initialiseCounters_ssvList, hreplay.counted, s₀]

theorem add_of_absent {s : SharedState} {ssvId : SsvId}
    (habsent : s.containsVariable ssvId = false) (value : AbstractValue) (time : Nat)
    (agentID : LpId) :
    ∃ s', s.add ssvId value time agentID = some s' ∧
      (∀ id, s'.containsVariable id = (decide (id = ssvId) || s.containsVariable id)) ∧
      (Counted s → Counted s') :=
  ⟨_, if_neg (by simp [habsent]), fun id => contains_insert s ssvId id _, fun h =>
    h.insert habsent (fun id => contains_insert s ssvId id _) rfl⟩

end SharedState
end PdesMas
