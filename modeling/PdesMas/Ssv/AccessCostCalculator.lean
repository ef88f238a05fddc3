import Mathlib.Algebra.GroupWithZero.Nat
import Mathlib.Data.List.Nodup
import PdesMas.Lp.LpId
import PdesMas.Types.Value

/-!
The access counters of the variables a CLP holds. The thresholds come from
logarithms in floating point and are taken as the constructor left them.
-/

namespace PdesMas

abbrev CounterMap := Direction → Option Nat

structure AccessCostCalculator where
  isParentCLP : Bool
  portThreshold : Nat
  lpThreshold : Nat
  clpLoad : Nat
  ssvList : List SsvId
  ssvPortAccessMap : SsvId → Option CounterMap
  ssvPortHopMap : SsvId → Option CounterMap

namespace AccessCostCalculator

def create (isParentCLP : Bool) (portThreshold : Nat) : AccessCostCalculator where
  isParentCLP := isParentCLP
  portThreshold := portThreshold
  lpThreshold := 0
  clpLoad := 0
  ssvList := []
  ssvPortAccessMap := fun _ => none
  ssvPortHopMap := fun _ => none

def containsVariable (a : AccessCostCalculator) (ssvId : SsvId) : Bool :=
  a.ssvList.contains ssvId

/-- One counter at zero for every direction but `HERE`. -/
def initialCounterMap : CounterMap
  | .UP | .LEFT | .RIGHT => some 0
  | .HERE | .DIRECTION_SIZE => none

def setRecord (m : SsvId → Option CounterMap) (ssvId : SsvId)
    (counters : Option CounterMap) : SsvId → Option CounterMap :=
  fun id => if id = ssvId then counters else m id

def initialiseCounters (a : AccessCostCalculator) (ssvId : SsvId) : AccessCostCalculator :=
  let ssvList := if a.containsVariable ssvId then a.ssvList else a.ssvList ++ [ssvId]
  { a with
    ssvList := ssvList
    lpThreshold :=
      if a.containsVariable ssvId then a.lpThreshold else ssvList.length * a.portThreshold
    ssvPortHopMap := setRecord a.ssvPortHopMap ssvId (some initialCounterMap)
    ssvPortAccessMap := setRecord a.ssvPortAccessMap ssvId (some initialCounterMap) }

/-- The old count and the map with `count` added to it. -/
def addCount (m : SsvId → Option CounterMap) (direction : Direction) (count : Nat)
    (ssvId : SsvId) : Nat × (SsvId → Option CounterMap) :=
  match m ssvId with
  | none => (0, m)
  | some counters =>
      let old := (counters direction).getD 0
      (old, setRecord m ssvId
        (some fun d => if d = direction then some (old + count) else counters d))

def updateAccessCount (a : AccessCostCalculator) (direction : Direction) (accessCount : Nat)
    (ssvId : SsvId) : Nat × AccessCostCalculator :=
  if a.containsVariable ssvId then
    let r := addCount a.ssvPortAccessMap direction accessCount ssvId
    (r.1, { a with ssvPortAccessMap := r.2 })
  else (0, a)

def updateHopCount (a : AccessCostCalculator) (direction : Direction) (hopCount : Nat)
    (ssvId : SsvId) : Nat × AccessCostCalculator :=
  if a.containsVariable ssvId then
    let r := addCount a.ssvPortHopMap direction hopCount ssvId
    (r.1, { a with ssvPortHopMap := r.2 })
  else (0, a)

def updateLoad (a : AccessCostCalculator) (oldHops oldAccess newHops newAccess : Nat) :
    AccessCostCalculator :=
  { a with clpLoad := a.clpLoad + (newHops - oldHops) * (newAccess - oldAccess) }

def removeSsvAccessRecord (a : AccessCostCalculator) (ssvId : SsvId) : AccessCostCalculator :=
  if a.containsVariable ssvId then
    { a with ssvPortAccessMap := setRecord a.ssvPortAccessMap ssvId none }
  else a

def removeSsvHopRecord (a : AccessCostCalculator) (ssvId : SsvId) : AccessCostCalculator :=
  if a.containsVariable ssvId then
    { a with ssvPortHopMap := setRecord a.ssvPortHopMap ssvId none }
  else a

def removeSsvFromList (a : AccessCostCalculator) (ssvId : SsvId) : AccessCostCalculator :=
  let ssvList := a.ssvList.erase ssvId
  { a with ssvList := ssvList, lpThreshold := ssvList.length * a.portThreshold }

def getAccessCount (a : AccessCostCalculator) (direction : Direction) (ssvId : SsvId) : Nat :=
  ((a.ssvPortAccessMap ssvId).bind fun counters => counters direction).getD 0

def getHopCount (a : AccessCostCalculator) (direction : Direction) (ssvId : SsvId) : Nat :=
  ((a.ssvPortHopMap ssvId).bind fun counters => counters direction).getD 0

/-- The directions the loops of `GetMigrationMap` go through. -/
def ports : List Direction := [.UP, .LEFT, .RIGHT]

def ssvAccessCost (a : AccessCostCalculator) (ssvId : SsvId) : Nat :=
  (ports.map fun d => a.getAccessCount d ssvId).sum

def ssvPortAccessCost (a : AccessCostCalculator) (ssvId : SsvId) : Nat :=
  (ports.map fun d => a.getAccessCount d ssvId * a.getHopCount d ssvId).sum

def migrates (a : AccessCostCalculator) (direction : Direction) (ssvId : SsvId) : Bool :=
  decide (a.ssvPortAccessCost ssvId > a.portThreshold) &&
    decide (a.getAccessCount direction ssvId >
      2 * (a.ssvAccessCost ssvId - a.getAccessCount direction ssvId)) &&
    (!a.isParentCLP || direction == .UP)

/-- `GetMigrationMap`, in the order of its keys. -/
def getMigrationMap (a : AccessCostCalculator) : List (Direction × List SsvId) :=
  ports.filterMap fun d =>
    match a.ssvList.filter (a.migrates d) with
    | [] => none
    | ssvIds => some (d, ssvIds)

@[simp] theorem updateAccessCount_ssvList (a : AccessCostCalculator) (direction : Direction)
    (accessCount : Nat) (ssvId : SsvId) :
    (a.updateAccessCount direction accessCount ssvId).2.ssvList = a.ssvList := by
  simp only [updateAccessCount]
  split <;> rfl

@[simp] theorem updateHopCount_ssvList (a : AccessCostCalculator) (direction : Direction)
    (hopCount : Nat) (ssvId : SsvId) :
    (a.updateHopCount direction hopCount ssvId).2.ssvList = a.ssvList := by
  simp only [updateHopCount]
  split <;> rfl

@[simp] theorem removeSsvAccessRecord_ssvList (a : AccessCostCalculator) (ssvId : SsvId) :
    (a.removeSsvAccessRecord ssvId).ssvList = a.ssvList := by
  simp only [removeSsvAccessRecord]
  split <;> rfl

@[simp] theorem removeSsvHopRecord_ssvList (a : AccessCostCalculator) (ssvId : SsvId) :
    (a.removeSsvHopRecord ssvId).ssvList = a.ssvList := by
  simp only [removeSsvHopRecord]
  split <;> rfl

@[simp] theorem removeSsvFromList_ssvList (a : AccessCostCalculator) (ssvId : SsvId) :
    (a.removeSsvFromList ssvId).ssvList = a.ssvList.erase ssvId := rfl

@[simp] theorem initialiseCounters_ssvList (a : AccessCostCalculator) (ssvId : SsvId) :
    (a.initialiseCounters ssvId).ssvList =
      if ssvId ∈ a.ssvList then a.ssvList else a.ssvList ++ [ssvId] := by
  simp [initialiseCounters, containsVariable]

/-- More than two thirds of the accesses come from one direction only. -/
theorem dominant_unique {a : AccessCostCalculator} {d d' : Direction} {ssvId : SsvId}
    (hd : d ∈ ports) (hd' : d' ∈ ports)
    (h : a.getAccessCount d ssvId > 2 * (a.ssvAccessCost ssvId - a.getAccessCount d ssvId))
    (h' : a.getAccessCount d' ssvId > 2 * (a.ssvAccessCost ssvId - a.getAccessCount d' ssvId)) :
    d = d' := by
  simp only [ssvAccessCost, ports, List.map_cons, List.map_nil, List.sum_cons,
    List.sum_nil] at h h'
  simp only [ports, List.mem_cons, List.not_mem_nil, or_false] at hd hd'
  rcases hd with rfl | rfl | rfl <;> rcases hd' with rfl | rfl | rfl <;> first | rfl | omega

theorem migrates_unique {a : AccessCostCalculator} {d d' : Direction} {ssvId : SsvId}
    (hd : d ∈ ports) (hd' : d' ∈ ports) (h : a.migrates d ssvId = true)
    (h' : a.migrates d' ssvId = true) : d = d' := by
  simp only [migrates, Bool.and_eq_true, decide_eq_true_eq] at h h'
  exact dominant_unique hd hd' h.1.2 h'.1.2

section Entries

/-- The entries of a map from the directions that draw variables to these variables. -/
def entries (draws : Direction → SsvId → Bool) (ssvIds : List SsvId) :
    List (Direction × List SsvId) :=
  ports.filterMap fun d =>
    match ssvIds.filter (draws d) with
    | [] => none
    | drawn => some (d, drawn)

variable {draws : Direction → SsvId → Bool} {ssvIds : List SsvId}

private theorem flatMap_entries (f : Direction → List SsvId) (l : List Direction) :
    (l.filterMap fun d =>
      match f d with
      | [] => none
      | ssvIds => some (d, ssvIds)).flatMap Prod.snd = l.flatMap f := by
  induction l with
  | nil => rfl
  | cons d l ih =>
      rw [List.filterMap_cons, List.flatMap_cons, ← ih]
      cases hd : f d <;> simp

/-- Variables that one direction draws at most are listed once. -/
theorem entries_nodup (h : ssvIds.Nodup)
    (hunique : ∀ d ∈ ports, ∀ d' ∈ ports, ∀ ssvId ∈ ssvIds,
      draws d ssvId = true → draws d' ssvId = true → d = d') :
    ((entries draws ssvIds).flatMap Prod.snd).Nodup ∧
      ∀ ssvId ∈ (entries draws ssvIds).flatMap Prod.snd, ssvId ∈ ssvIds := by
  have hflat : (entries draws ssvIds).flatMap Prod.snd =
      ports.flatMap fun d => ssvIds.filter (draws d) := flatMap_entries _ ports
  rw [hflat]
  constructor
  · refine List.nodup_flatMap.mpr ⟨fun d _ => h.filter _, ?_⟩
    have hports : ports.Nodup := by decide
    refine hports.imp_of_mem ?_
    intro d d' hd hd' hne ssvId hmem hmem'
    obtain ⟨hlisted, hdraws⟩ := List.mem_filter.mp hmem
    exact hne (hunique d hd d' hd' ssvId hlisted hdraws (List.mem_filter.mp hmem').2)
  · intro ssvId hmem
    obtain ⟨d, _, hmem⟩ := List.mem_flatMap.mp hmem
    exact (List.mem_filter.mp hmem).1

theorem mem_entries {d : Direction} {drawn : List SsvId} (h : (d, drawn) ∈ entries draws ssvIds) :
    d ∈ ports ∧ drawn = ssvIds.filter (draws d) ∧ drawn ≠ [] := by
  obtain ⟨d', hd', h⟩ := List.mem_filterMap.mp h
  split at h
  · cases h
  · next hne =>
    cases h
    exact ⟨hd', rfl, hne⟩

end Entries

/-- A migration map lists variables of the calculator, each once. -/
theorem getMigrationMap_nodup {a : AccessCostCalculator} (h : a.ssvList.Nodup) :
    (a.getMigrationMap.flatMap Prod.snd).Nodup ∧
      ∀ ssvId ∈ a.getMigrationMap.flatMap Prod.snd, ssvId ∈ a.ssvList :=
  entries_nodup h fun _ hd _ hd' _ _ => migrates_unique hd hd'

end AccessCostCalculator
end PdesMas
