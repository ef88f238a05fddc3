import PdesMas.Library.Cut
import PdesMas.State.WritePeriod

/-!
State variables. The operations follow the walks of the source over the write
period list; a reverse walk that falls off the list ends the process in `read`
and dereferences the end iterator in `performReadRollback`, and both are `none`.
-/

namespace PdesMas
universe u
variable {V : Type u}

structure StateVariable (V : Type u) where
  stateVariableID : SsvId
  writePeriodList : List (WritePeriod V)
deriving DecidableEq, Repr

namespace StateVariable

def create (id : SsvId) : StateVariable V := ⟨id, []⟩

def addWritePeriod (sv : StateVariable V) (value : V) (time : Nat) (agentID : LpId) :
    StateVariable V :=
  { sv with writePeriodList := sv.writePeriodList ++ [.create value time agentID] }

/-- The reverse walk to the last period that starts at or before `time`. -/
def walkBack (sv : StateVariable V) (time : Nat) : Option (Cut (WritePeriod V)) :=
  Cut.last? (fun p => decide (p.startTime ≤ time)) sv.writePeriodList

def removeWritePeriods (sv : StateVariable V) (time : Nat) : StateVariable V :=
  match sv.walkBack time with
  | none => sv
  | some c =>
      let kept := (c.focus.setStartTime time).removeReadsBefore time
      { sv with
        writePeriodList :=
          (c.front ++ kept :: c.back).dropWhile fun p => p.startTime != kept.startTime }

def read (sv : StateVariable V) (readingAgent : LpId) (time : Nat) :
    Option (V × StateVariable V) :=
  (sv.walkBack time).map fun c =>
    let r := c.focus.read readingAgent time
    (r.1, { sv with writePeriodList := c.front ++ r.2 :: c.back })

def readWithoutRecord (sv : StateVariable V) (time : Nat) : Nat × Option V :=
  match sv.walkBack time with
  | some c => (c.focus.endTime, some c.focus.value)
  | none => (ULONG_MAX, none)

def writeWithRollback (sv : StateVariable V) (writingAgent : LpId) (value : V) (time : Nat)
    (rollbackList : RollbackList) : StateVariable V × WriteStatus × RollbackList :=
  let newWritePeriod := WritePeriod.create value time writingAgent
  if sv.writePeriodList = [] then
    ({ sv with writePeriodList := [newWritePeriod] }, .writeSUCCESS, rollbackList)
  else
    match sv.walkBack time with
    | none => (sv, .writeFAILURE, rollbackList)
    | some c =>
        -- Reject any write at the same time from different agents (tie-breaker)
        if c.focus.startTime = time ∧ c.focus.agent.gt writingAgent = true then
          (sv, .writeFAILURE, rollbackList)
        else
          let before := c.focus.setEndTime newWritePeriod.startTime
          let r := before.removeReadsAfterInclusive time rollbackList
          match c.back with
          | next :: _ =>
              let split := newWritePeriod.setEndTime next.startTime
              ({ sv with writePeriodList := c.front ++ r.1 :: split :: c.back },
                .writeSUCCESS, r.2)
          | [] =>
              ({ sv with writePeriodList := c.front ++ [r.1, newWritePeriod] },
                .writeSUCCESS, r.2)

def performReadRollback (sv : StateVariable V) (agent : LpId) (time : Nat) :
    Option (StateVariable V) :=
  (sv.walkBack time).map fun c =>
    { sv with
      writePeriodList := c.front ++ c.focus.removeReadsByAgent agent time :: c.back }

/-- Moves the end of the period just before the erased one. -/
def setLastEndTime (time : Nat) : List (WritePeriod V) → List (WritePeriod V)
  | [] => []
  | [p] => [p.setEndTime time]
  | p :: q :: rest => p :: setLastEndTime time (q :: rest)

def performWriteRollback (sv : StateVariable V) (writingAgent : LpId) (time : Nat)
    (rollbackList : RollbackList) : StateVariable V × RollbackList :=
  match Cut.first? (fun p => decide (p.startTime = time)) sv.writePeriodList with
  | none => (sv, rollbackList)
  | some c =>
      if c.focus.agent.ne writingAgent then
        (sv, rollbackList)
      else
        let r := c.focus.removeAllReads time rollbackList
        if sv.writePeriodList.length = 1 then
          ({ sv with writePeriodList := [] }, r.2)
        else if c.back = [] then
          ({ sv with writePeriodList := setLastEndTime LONG_MAX c.front }, r.2)
        else if c.front = [] then
          ({ sv with writePeriodList := c.back }, r.2)
        else
          ({ sv with writePeriodList := setLastEndTime c.focus.endTime c.front ++ c.back },
            r.2)

end StateVariable
end PdesMas
