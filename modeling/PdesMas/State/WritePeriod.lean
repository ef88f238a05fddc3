import PdesMas.Library.MultiMap
import PdesMas.Lp.LpId

/-!
Write periods: the value an agent wrote, the interval of virtual time in which it
is visible and the reads it has answered. The multimap of reads is ordered by
`operator <` on agents. That is no strict weak order on all of them, as the
container of the source wants it; where it is one on the agents that read, a read
goes where the container has it.
-/

namespace PdesMas
universe u
variable {V : Type u}

structure WritePeriod (V : Type u) where
  startTime : Nat
  endTime : Nat
  value : V
  agent : LpId
  agentReadMap : List (LpId × Nat)
deriving DecidableEq, Repr

namespace WritePeriod

def create (value : V) (startTime : Nat) (agent : LpId) : WritePeriod V where
  startTime := startTime
  endTime := ULONG_MAX
  value := value
  agent := agent
  agentReadMap := []

def setStartTime (p : WritePeriod V) (time : Nat) : WritePeriod V :=
  { p with startTime := time }

def setEndTime (p : WritePeriod V) (time : Nat) : WritePeriod V :=
  { p with endTime := time }

def read (p : WritePeriod V) (agent : LpId) (time : Nat) : V × WritePeriod V :=
  (p.value, { p with agentReadMap := MultiMap.insert LpId.lt agent time p.agentReadMap })

def removeReadsBefore (p : WritePeriod V) (time : Nat) : WritePeriod V :=
  { p with agentReadMap := p.agentReadMap.filter fun r => ¬ r.2 < time }

def removeReadsAfterInclusive (p : WritePeriod V) (time : Nat)
    (rollbackList : RollbackList) : WritePeriod V × RollbackList :=
  ({ p with agentReadMap := p.agentReadMap.filter fun r => ¬ r.2 ≥ time },
    rollbackList.addLps (p.agentReadMap.filter fun r => r.2 ≥ time))

def removeReadsByAgent (p : WritePeriod V) (agent : LpId) (time : Nat) : WritePeriod V :=
  { p with agentReadMap := p.agentReadMap.filter fun r => ¬ (r.1 = agent ∧ r.2 = time) }

def removeAllReads (p : WritePeriod V) (time : Nat)
    (rollbackList : RollbackList) : WritePeriod V × RollbackList :=
  ({ p with agentReadMap := [] },
    rollbackList.addLps (p.agentReadMap.map fun r => (r.1, time)))

end WritePeriod

/-- What a write period says about its variable, without the end time, which is
only ever reported and never looked up. -/
structure Entry (V : Type u) where
  start : Nat
  agent : LpId
  value : V
  reads : List (LpId × Nat)
deriving DecidableEq, Repr

def WritePeriod.entry (p : WritePeriod V) : Entry V :=
  ⟨p.startTime, p.agent, p.value, p.agentReadMap⟩

namespace Entry

def fresh (agent : LpId) (value : V) (time : Nat) : Entry V :=
  ⟨time, agent, value, []⟩

def record (e : Entry V) (agent : LpId) (time : Nat) : Entry V :=
  { e with reads := MultiMap.insert LpId.lt agent time e.reads }

@[simp] theorem mem_record {e : Entry V} {agent : LpId} {time : Nat} {r : LpId × Nat} :
    r ∈ (e.record agent time).reads ↔ r = (agent, time) ∨ r ∈ e.reads := MultiMap.mem_insert

/-- The reads kept by a write at `time` inside the period. -/
def keepBefore (e : Entry V) (time : Nat) : Entry V :=
  { e with reads := e.reads.filter fun r => ¬ r.2 ≥ time }

/-- The reads a write at `time` inside the period invalidates. -/
def invalidated (e : Entry V) (time : Nat) : List (LpId × Nat) :=
  e.reads.filter fun r => r.2 ≥ time

def withdraw (e : Entry V) (agent : LpId) (time : Nat) : Entry V :=
  { e with reads := e.reads.filter fun r => ¬ (r.1 = agent ∧ r.2 = time) }

/-- The period that fossil collection at `time` keeps for `time` itself. -/
def restamp (e : Entry V) (time : Nat) : Entry V :=
  { e with start := time, reads := e.reads.filter fun r => ¬ r.2 < time }

/-- The period answers a read at `time`, unless a later one does. -/
def reaches (time : Nat) (e : Entry V) : Bool :=
  decide (e.start ≤ time)

def startsAt (time : Nat) (e : Entry V) : Bool :=
  decide (e.start = time)

@[simp] theorem reaches_iff (time : Nat) (e : Entry V) :
    e.reaches time = true ↔ e.start ≤ time := by simp [reaches]

@[simp] theorem reaches_eq_false (time : Nat) (e : Entry V) :
    e.reaches time = false ↔ time < e.start := by simp [reaches]

@[simp] theorem startsAt_iff (time : Nat) (e : Entry V) :
    e.startsAt time = true ↔ e.start = time := by simp [startsAt]

@[simp] theorem startsAt_eq_false (time : Nat) (e : Entry V) :
    e.startsAt time = false ↔ e.start ≠ time := by simp [startsAt]

end Entry
end PdesMas
