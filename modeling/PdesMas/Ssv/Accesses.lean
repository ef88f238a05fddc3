import PdesMas.Ssv.MigrationTargets
import PdesMas.State.SharedState

/-!
What the counters of a variable count. Each access adds one to the accesses of the
direction it came from and its hops to the hops of that direction, and its hops to
the load of the CLP.
-/

namespace PdesMas

/-- An access to a variable: the agent, and the hops its message took. -/
structure Access where
  agent : LpId
  numberOfHops : Nat
deriving DecidableEq, Repr

/-- The accesses of the agents in a direction. -/
def accessesFrom (direction : LpId → Option Direction) (d : Direction) (l : List Access) :
    List Access := l.filter fun x => direction x.agent = some d

def hopsOf (l : List Access) : Nat := (l.map Access.numberOfHops).sum

section Lists

variable {direction : LpId → Option Direction} {d : Direction} {l l' : List Access}

theorem accessesFrom_append : accessesFrom direction d (l ++ l') =
    accessesFrom direction d l ++ accessesFrom direction d l' := List.filter_append l l'

theorem hopsOf_append : hopsOf (l ++ l') = hopsOf l + hopsOf l' := by
  rw [hopsOf, List.map_append, List.sum_append]
  rfl

theorem accessesFrom_singleton {x : Access} {d' : Direction} (h : direction x.agent = some d) :
    accessesFrom direction d' [x] = if d' = d then [x] else [] := by
  by_cases hd : d' = d
  · simp [accessesFrom, h, hd]
  · simp [accessesFrom, h, hd, Ne.symm hd]

end Lists

namespace AccessCostCalculator

/-- `CheckClpLoad`, with the load as the `unsigned long` that it is. -/
def checkClpLoad (a : AccessCostCalculator) : Bool × AccessCostCalculator :=
  (!decide ((.ofNat a.clpLoad : UInt64) ≤ .ofNat a.lpThreshold), { a with clpLoad := 0 })

/-- There is a counter for every direction that has counted. -/
def Counts (m : SsvId → Option CounterMap) (ssvId : SsvId) (count : Direction → Nat) : Prop :=
  ∃ counters, m ssvId = some counters ∧ ∀ d, (counters d).getD 0 = count d

/-- The counters of the variable are those of the accesses. -/
structure Tallies (a : AccessCostCalculator) (direction : LpId → Option Direction)
    (ssvId : SsvId) (l : List Access) : Prop where
  access : Counts a.ssvPortAccessMap ssvId fun d => (accessesFrom direction d l).length
  hops : Counts a.ssvPortHopMap ssvId fun d => hopsOf (accessesFrom direction d l)

/-- The calculators count the same of the variable. -/
structure SameRecord (ssvId : SsvId) (a a' : AccessCostCalculator) : Prop where
  access : a'.ssvPortAccessMap ssvId = a.ssvPortAccessMap ssvId
  hops : a'.ssvPortHopMap ssvId = a.ssvPortHopMap ssvId

variable {a a' a'' : AccessCostCalculator} {direction : LpId → Option Direction}
  {d : Direction} {ssvId id : SsvId} {l : List Access}

theorem SameRecord.refl (ssvId : SsvId) (a : AccessCostCalculator) : SameRecord ssvId a a :=
  ⟨rfl, rfl⟩

theorem SameRecord.trans (h : SameRecord ssvId a a') (h' : SameRecord ssvId a' a'') :
    SameRecord ssvId a a'' := ⟨h'.access.trans h.access, h'.hops.trans h.hops⟩

theorem Tallies.same (h : Tallies a direction ssvId l) (hsame : SameRecord ssvId a a') :
    Tallies a' direction ssvId l := by
  obtain ⟨⟨counters, hcounters, haccess⟩, ⟨counters', hcounters', hhops⟩⟩ := h
  exact ⟨⟨counters, hsame.access.trans hcounters, haccess⟩,
    ⟨counters', hsame.hops.trans hcounters', hhops⟩⟩

theorem Tallies.getAccessCount_eq (h : Tallies a direction ssvId l) (d : Direction) :
    a.getAccessCount d ssvId = (accessesFrom direction d l).length := by
  obtain ⟨counters, hcounters, hcount⟩ := h.access
  rw [getAccessCount, hcounters]
  exact hcount d

theorem Tallies.getHopCount_eq (h : Tallies a direction ssvId l) (d : Direction) :
    a.getHopCount d ssvId = hopsOf (accessesFrom direction d l) := by
  obtain ⟨counters, hcounters, hcount⟩ := h.hops
  rw [getHopCount, hcounters]
  exact hcount d

section Calls

/-- Adding to a counter tells the old number and adds to it. -/
theorem Counts.addCount {m : SsvId → Option CounterMap} {count : Direction → Nat}
    (h : Counts m ssvId count) (d : Direction) (n : Nat) :
    (addCount m d n ssvId).1 = count d ∧
      Counts (addCount m d n ssvId).2 ssvId (fun d' => count d' + if d' = d then n else 0) := by
  obtain ⟨counters, hcounters, hcount⟩ := h
  rw [AccessCostCalculator.addCount, hcounters]
  refine ⟨hcount d, _, if_pos rfl, fun d' => ?_⟩
  by_cases hd : d' = d
  · subst hd
    simp [hcount d']
  · simp [hd, hcount d']

theorem addCount_of_ne {m : SsvId → Option CounterMap} (d : Direction) (n : Nat) (h : id ≠ ssvId) :
    (addCount m d n ssvId).2 id = m id := by
  rw [addCount]
  split
  · rfl
  · exact if_neg h

/-- A variable starts without accesses. -/
theorem tallies_initialiseCounters (a : AccessCostCalculator) (ssvId : SsvId) :
    Tallies (a.initialiseCounters ssvId) direction ssvId [] := by
  refine ⟨⟨initialCounterMap, if_pos rfl, fun d => ?_⟩,
    ⟨initialCounterMap, if_pos rfl, fun d => ?_⟩⟩
  · cases d <;> rfl
  · cases d <;> rfl

theorem sameRecord_initialiseCounters (a : AccessCostCalculator) (h : id ≠ ssvId) :
    SameRecord id a (a.initialiseCounters ssvId) := ⟨if_neg h, if_neg h⟩

/-- What `Delete` does to the counters. -/
def removeSsv (a : AccessCostCalculator) (ssvId : SsvId) : AccessCostCalculator :=
  ((a.removeSsvAccessRecord ssvId).removeSsvHopRecord ssvId).removeSsvFromList ssvId

theorem removeSsv_of_ne (a : AccessCostCalculator) (ssvId : SsvId) (h : id ≠ ssvId) :
    SameRecord id a (a.removeSsv ssvId) := by
  have haccess : SameRecord id a (a.removeSsvAccessRecord ssvId) := by
    rw [removeSsvAccessRecord]
    split
    · exact ⟨if_neg h, rfl⟩
    · exact .refl id a
  refine haccess.trans ?_
  rw [removeSsv, removeSsvHopRecord]
  split
  · exact ⟨rfl, if_neg h⟩
  · exact ⟨rfl, rfl⟩

@[simp] theorem updateAccessCount_of_mem (n : Nat) (h : ssvId ∈ a.ssvList) :
    a.updateAccessCount d n ssvId = ((addCount a.ssvPortAccessMap d n ssvId).1,
      { a with ssvPortAccessMap := (addCount a.ssvPortAccessMap d n ssvId).2 }) :=
  if_pos (by simpa [containsVariable] using h)

@[simp] theorem updateHopCount_of_mem (n : Nat) (h : ssvId ∈ a.ssvList) :
    a.updateHopCount d n ssvId = ((addCount a.ssvPortHopMap d n ssvId).1,
      { a with ssvPortHopMap := (addCount a.ssvPortHopMap d n ssvId).2 }) :=
  if_pos (by simpa [containsVariable] using h)

theorem updateAccessCount_kept (a : AccessCostCalculator) (d : Direction) (n : Nat)
    (ssvId : SsvId) : (a.updateAccessCount d n ssvId).2.clpLoad = a.clpLoad ∧
      (a.updateAccessCount d n ssvId).2.isParentCLP = a.isParentCLP := by
  simp only [updateAccessCount]
  split <;> exact ⟨rfl, rfl⟩

theorem updateHopCount_kept (a : AccessCostCalculator) (d : Direction) (n : Nat)
    (ssvId : SsvId) : (a.updateHopCount d n ssvId).2.clpLoad = a.clpLoad ∧
      (a.updateHopCount d n ssvId).2.isParentCLP = a.isParentCLP := by
  simp only [updateHopCount]
  split <;> exact ⟨rfl, rfl⟩

theorem removeSsv_kept (a : AccessCostCalculator) (ssvId : SsvId) :
    (a.removeSsv ssvId).clpLoad = a.clpLoad ∧
      (a.removeSsv ssvId).isParentCLP = a.isParentCLP := by
  simp only [removeSsv, removeSsvFromList, removeSsvHopRecord, removeSsvAccessRecord]
  split
  · split <;> exact ⟨rfl, rfl⟩
  · exact ⟨rfl, rfl⟩

end Calls

section Update

variable {s : SharedState} {x : Access}

/-- An access is counted in the direction of its agent. -/
theorem Tallies.updateAccessCount (hmem : ssvId ∈ s.accessCostCalculator.ssvList)
    (hdirection : direction x.agent = some d)
    (h : Tallies s.accessCostCalculator direction ssvId l) :
    Tallies (s.updateAccessCount ssvId d x.numberOfHops).accessCostCalculator direction ssvId
      (l ++ [x]) := by
  obtain ⟨counters, hcounters, haccess⟩ := (h.access.addCount d 1).2
  obtain ⟨counters', hcounters', hhops⟩ := (h.hops.addCount d x.numberOfHops).2
  have hlist : ∀ d', accessesFrom direction d' (l ++ [x]) =
      accessesFrom direction d' l ++ if d' = d then [x] else [] := fun d' => by
    rw [accessesFrom_append, accessesFrom_singleton hdirection]
  refine ⟨⟨counters, ?_, fun d' => (haccess d').trans ?_⟩,
    ⟨counters', ?_, fun d' => (hhops d').trans ?_⟩⟩
  · simpa [SharedState.updateAccessCount, hmem, updateLoad] using hcounters
  · simp only [hlist]
    by_cases hd : d' = d <;> simp [hd]
  · simpa [SharedState.updateAccessCount, hmem, updateLoad] using hcounters'
  · simp only [hlist, hopsOf_append]
    by_cases hd : d' = d <;> simp [hd, hopsOf]

theorem updateAccessCount_of_ne (s : SharedState) (d : Direction) (n : Nat) (h : id ≠ ssvId) :
    SameRecord id s.accessCostCalculator (s.updateAccessCount ssvId d n).accessCostCalculator := by
  by_cases hmem : ssvId ∈ s.accessCostCalculator.ssvList
  · constructor
    · simp [SharedState.updateAccessCount, hmem, updateLoad, addCount_of_ne _ _ h]
    · simp [SharedState.updateAccessCount, hmem, updateLoad, addCount_of_ne _ _ h]
  · have hnot : s.accessCostCalculator.containsVariable ssvId = false := by
      simpa [containsVariable] using hmem
    constructor
    · simp [SharedState.updateAccessCount, AccessCostCalculator.updateAccessCount,
        AccessCostCalculator.updateHopCount, hnot, updateLoad]
    · simp [SharedState.updateAccessCount, AccessCostCalculator.updateAccessCount,
        AccessCostCalculator.updateHopCount, hnot, updateLoad]

/-- One access adds its hops to the load. -/
theorem updateAccessCount_clpLoad (s : SharedState) (ssvId : SsvId) (d : Direction) (n : Nat) :
    (s.updateAccessCount ssvId d n).accessCostCalculator.clpLoad =
      s.accessCostCalculator.clpLoad + n := by
  simp only [SharedState.updateAccessCount, updateLoad, Nat.add_sub_cancel_left,
    Nat.add_sub_cancel, Nat.mul_one, (updateHopCount_kept _ d n ssvId).1,
    (updateAccessCount_kept _ d 1 ssvId).1]

theorem updateAccessCount_isParentCLP (s : SharedState) (ssvId : SsvId) (d : Direction) (n : Nat) :
    (s.updateAccessCount ssvId d n).accessCostCalculator.isParentCLP =
      s.accessCostCalculator.isParentCLP := by
  simp only [SharedState.updateAccessCount, updateLoad, (updateHopCount_kept _ d n ssvId).2,
    (updateAccessCount_kept _ d 1 ssvId).2]

end Update
end AccessCostCalculator

end PdesMas
