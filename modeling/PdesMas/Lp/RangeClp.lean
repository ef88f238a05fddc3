import PdesMas.RangeQuery.RangeTracker
import PdesMas.Routing.RouteTable
import PdesMas.State.RangeRead

/-!
A CLP as range queries see it: its route table, its shared state, the range
tables of its ports and the tracker of the queries it has handed on. Steps that
end the process are `none`. Rollback, read and write responses, which go to
agents, are left out.
-/

namespace PdesMas

structure RangeQueryMessage where
  origin : Nat
  destination : Nat
  timestamp : Nat
  numberOfHops : Nat
  identifier : Nat
  originalAgent : LpId
  range : Range
  numberOfTraverseHops : Nat
  ssvValueList : PointMap

structure RangeQueryAntiMessage where
  origin : Nat
  destination : Nat
  timestamp : Nat
  numberOfHops : Nat
  identifier : Nat
  originalAgent : LpId
  range : Range
  rollbackTag : RollbackTag
deriving DecidableEq, Repr

structure RangeUpdateMessage where
  origin : Nat
  destination : Nat
  timestamp : Nat
  range : Range
deriving DecidableEq, Repr

inductive RangeMessage where
  | query (m : RangeQueryMessage)
  | anti (m : RangeQueryAntiMessage)
  | update (m : RangeUpdateMessage)

def RangeMessage.destination : RangeMessage → Nat
  | .query m => m.destination
  | .anti m => m.destination
  | .update m => m.destination

namespace RangeQueryMessage

def incrementNumberOfHops (m : RangeQueryMessage) : RangeQueryMessage :=
  { m with numberOfHops := m.numberOfHops + 1 }

def incrementNumberOfTraverseHops (m : RangeQueryMessage) : RangeQueryMessage :=
  { m with numberOfTraverseHops := m.numberOfTraverseHops + 1 }

def clearSsvList (m : RangeQueryMessage) : RangeQueryMessage := { m with ssvValueList := ∅ }

end RangeQueryMessage

structure RangeClp where
  rank : Nat
  numberOfClps : Nat
  gvt : Nat
  routeTable : RouteTable
  sharedState : SharedState
  /-- The tables of the ports to other processes; that of `HERE` is in the shared state. -/
  portTable : Direction → RangeRoutingTable
  rangeTracker : RangeTracker

namespace RangeClp

def rangeTable (c : RangeClp) (port : Direction) : RangeRoutingTable :=
  if port = .HERE then c.sharedState.rangeRoutingTable else c.portTable port

def setRangeTable (c : RangeClp) (port : Direction) (table : RangeRoutingTable) : RangeClp :=
  if port = .HERE then
    { c with sharedState := { c.sharedState with rangeRoutingTable := table } }
  else { c with portTable := Function.update c.portTable port table }

section

variable (c : RangeClp) (port : Direction) (table : RangeRoutingTable)

@[simp] theorem rangeTable_setRangeTable (p : Direction) :
    (c.setRangeTable port table).rangeTable p = if p = port then table else c.rangeTable p := by
  simp only [setRangeTable, rangeTable]
  by_cases hport : port = .HERE
  · subst hport
    by_cases hp : p = .HERE <;> simp [hp]
  · by_cases hp : p = port
    · subst hp
      simp [hport]
    · by_cases hhere : p = .HERE
      · simp [hport, hhere, Ne.symm hport]
      · simp [hport, hp, hhere]

@[simp] theorem setRangeTable_rank : (c.setRangeTable port table).rank = c.rank := by
  simp only [setRangeTable]
  split <;> rfl

@[simp] theorem setRangeTable_numberOfClps :
    (c.setRangeTable port table).numberOfClps = c.numberOfClps := by
  simp only [setRangeTable]
  split <;> rfl

@[simp] theorem setRangeTable_gvt : (c.setRangeTable port table).gvt = c.gvt := by
  simp only [setRangeTable]
  split <;> rfl

@[simp] theorem setRangeTable_routeTable :
    (c.setRangeTable port table).routeTable = c.routeTable := by
  simp only [setRangeTable]
  split <;> rfl

@[simp] theorem setRangeTable_rangeTracker :
    (c.setRangeTable port table).rangeTracker = c.rangeTracker := by
  simp only [setRangeTable]
  split <;> rfl

@[simp] theorem setRangeTable_stateVariableMap :
    (c.setRangeTable port table).sharedState.stateVariableMap =
      c.sharedState.stateVariableMap := by
  simp only [setRangeTable]
  split <;> rfl

end

/-- Neither the port the query came in by, nor one to an ALP, nor `UP` at the root. -/
def isTarget (c : RangeClp) (incomingPort port : Direction) : Bool :=
  !(port == incomingPort ||
    decide (c.rank ≥ c.numberOfClps / 2) && (port == .LEFT || port == .RIGHT) ||
    c.rank == 0 && port == .UP)

def addRangeQueryInfo (c : RangeClp) (port : Direction) (m : RangeQueryMessage)
    (blockStatus : Bool) : RangeClp :=
  c.setRangeTable port ((c.rangeTable port).addRangeQueryInfo m.timestamp m.identifier m.range
    blockStatus m.originalAgent)

/-- What the loop over the ports carries along. -/
structure Scan where
  clp : RangeClp
  newRangeQueryMessage : RangeQueryMessage
  sent : List RangeQueryMessage
  reads : List PointMap

namespace Scan

def portScanned (s : Scan) (port : Direction) : Scan :=
  let m := s.newRangeQueryMessage
  { s with
    clp := { s.clp with
      rangeTracker := (s.clp.rangeTracker.setPortToScanned m.identifier port).addToSsvValueMap
        m.identifier m.ssvValueList }
    newRangeQueryMessage := m.clearSsvList }

def readHere (s : Scan) (direction : Direction) : Scan :=
  let m := s.newRangeQueryMessage
  let r := s.clp.sharedState.rangeRead m.range direction m.numberOfTraverseHops m.timestamp
  { s with
    clp := { s.clp with sharedState := r.2 }
    newRangeQueryMessage := { m with ssvValueList := r.1 }
    reads := s.reads ++ [r.1] }

def forward (s : Scan) (port : Direction) : Option Scan := do
  let rank ← s.clp.routeTable.getRankFromDirection port
  let m := { s.newRangeQueryMessage with origin := s.clp.rank, destination := rank }
  pure { s with newRangeQueryMessage := m, sent := s.sent ++ [m] }

def recordQuery (s : Scan) (port : Direction) (blockStatus : Bool) : Scan :=
  { s with clp := s.clp.addRangeQueryInfo port s.newRangeQueryMessage blockStatus }

/-- One turn of the loop. A port without a range period is neither scanned nor asked. -/
def scanPort (incomingPort : Direction) (s : Scan) (port : Direction) : Option Scan :=
  let m := s.newRangeQueryMessage
  let table := s.clp.rangeTable port
  if s.clp.isTarget incomingPort port then
    if table.hasRangePeriod m.timestamp then
      if (table.getRangeCopy m.timestamp).any (·.isRangeOverlapping m.range) then
        if port = .HERE then
          some (((s.recordQuery port false).readHere incomingPort).portScanned port)
        else (s.recordQuery port false).forward port
      else some ((s.recordQuery port true).portScanned port)
    else some s
  else some (s.portScanned port)

end Scan

/-- The answer, when no port is outstanding. Its number of traverse hops is never set. -/
def sendResponse (c : RangeClp) (m : RangeQueryMessage) :
    Option (RangeClp × List RangeQueryMessage) :=
  if (c.rangeTracker.getOutstandingPorts m.identifier).isEmpty then do
    let entry := c.rangeTracker.deleteEntry m.identifier
    let rank ← c.routeTable.getRankFromDirection entry.1
    pure ({ c with rangeTracker := entry.2 },
      [{ m with
          origin := c.rank
          destination := rank
          numberOfHops := c.rangeTracker.getNumberOfHops m.identifier
          numberOfTraverseHops := 0
          ssvValueList := c.rangeTracker.getCollectedSsvValueMap m.identifier }])
  else some (c, [])

/-- What a CLP does with a range query message: the queries it hands on, the answer it
gives, if any, and the range reads it makes. -/
structure Served where
  clp : RangeClp
  forwarded : List RangeQueryMessage
  responses : List RangeQueryMessage
  reads : List PointMap

/-- A query that the CLP has not seen, with its new entry and the list cleared. -/
def startScan (c : RangeClp) (m : RangeQueryMessage) (incomingPort : Direction) : Scan where
  clp :=
    { c with
      rangeTracker :=
        c.rangeTracker.createEntry m.identifier m.ssvValueList incomingPort m.numberOfHops }
  newRangeQueryMessage := { m.clearSsvList with numberOfHops := 0 }
  sent := []
  reads := []

/-- The handling of such a query, up to the look at the outstanding ports. -/
def scan (c : RangeClp) (m : RangeQueryMessage) : Option Scan := do
  let incomingPort ← c.routeTable.getDirectionFromRank m.originalAgent.rank
  let s := c.startScan m incomingPort
  (s.clp.rangeTracker.getOutstandingPorts m.identifier).foldlM (Scan.scanPort incomingPort) s

/-- A reply of another CLP, up to the look at the outstanding ports. -/
def noteReply (c : RangeClp) (m : RangeQueryMessage) : Option RangeClp := do
  let port ← c.routeTable.getDirectionFromRank m.origin
  pure { c with
    rangeTracker := ((c.rangeTracker.setPortToScanned m.identifier port).increaseNumberOfHops
      m.identifier m.numberOfHops).addToSsvValueMap m.identifier m.ssvValueList }

/-- What is done with the copy of the message. -/
def serve (c : RangeClp) (m : RangeQueryMessage) : Option Served := do
  if c.rangeTracker.hasEntry m.identifier then
    let c ← c.noteReply m
    let r ← c.sendResponse m
    pure ⟨r.1, [], r.2, []⟩
  else
    let s ← c.scan m
    let r ← s.clp.sendResponse s.newRangeQueryMessage
    pure ⟨r.1, s.sent, r.2, s.reads⟩

def processRangeQuery (c : RangeClp) (m : RangeQueryMessage) : Option Served :=
  c.serve m.incrementNumberOfTraverseHops

/-- The anti-message goes on through `port`, unless the status there is blocked. -/
def forwardAnti (c : RangeClp) (m : RangeQueryAntiMessage) (port : Direction) :
    Option (List RangeQueryAntiMessage) :=
  if (c.rangeTable port).getBlockStatus m.timestamp m.identifier = false ∧ port ≠ .HERE then
    (c.routeTable.getRankFromDirection port).map fun rank =>
      [{ m with origin := c.rank, destination := rank }]
  else some []

/-- One turn of the loop over the ports. -/
def antiPort (m : RangeQueryAntiMessage) (towards : Direction)
    (r : RangeClp × List RangeQueryAntiMessage) (port : Direction) :
    Option (RangeClp × List RangeQueryAntiMessage) :=
  let table := r.1.rangeTable port
  if port ≠ towards ∧ table.hasRangePeriod m.timestamp then do
    let sent ← r.1.forwardAnti m port
    pure (r.1.setRangeTable port (table.deleteRangeQueryInfo m.timestamp m.identifier),
      r.2 ++ sent)
  else some r

def processRangeQueryAnti (c : RangeClp) (m : RangeQueryAntiMessage) :
    Option (RangeClp × List RangeQueryAntiMessage) :=
  if c.gvt > m.timestamp then some (c, [])
  else do
    let towards ← c.routeTable.getDirectionFromRank m.originalAgent.rank
    Direction.ports.foldlM (antiPort m towards) (c, [])

/-- A port of the second loop of `SendRangeUpdates`. -/
def isMerged (c : RangeClp) (port sourcePort remotePort : Direction) : Bool :=
  remotePort != port && remotePort != sourcePort &&
    (decide (c.rank ≥ c.numberOfClps / 2) && (remotePort != .LEFT && remotePort != .RIGHT)) &&
    (c.rank == 0 && remotePort != .UP)

def mergeRange (range : Option Range) (storedRange : Option Range) : Option Range :=
  match storedRange with
  | none => range
  | some stored =>
      match range with
      | some r => some (r.minMaxOfTwoRanges stored)
      | none => some stored

/-- The new range sent to `port`. The old range only chooses between two branches that
send the same. -/
def sentRange (c : RangeClp) (port sourcePort : Direction) (u : RangeUpdates) : Option Range :=
  (Direction.ports.filter (c.isMerged port sourcePort)).foldl
    (fun range remotePort => mergeRange range ((c.rangeTable remotePort).getRangeCopy u.time))
    u.newRange

/-- A port that range updates go to. -/
def isUpdated (c : RangeClp) (sourcePort port : Direction) : Bool :=
  !(port == sourcePort ||
    decide (c.rank ≥ c.numberOfClps / 2) && (port == .LEFT || port == .RIGHT) ||
    c.rank == 0 && port == .UP)

def sendRangeUpdate (c : RangeClp) (sourcePort : Direction) (u : RangeUpdates)
    (port : Direction) : Option RangeUpdateMessage :=
  (c.routeTable.getRankFromDirection port).map fun rank =>
    ⟨c.rank, rank, u.time, (c.sentRange port sourcePort u).getD .sentinel⟩

def sendRangeUpdates (c : RangeClp) (rangeUpdateList : List RangeUpdates)
    (sourcePort : Direction) : Option (List RangeUpdateMessage) :=
  (rangeUpdateList.flatMap fun u =>
    ([.UP, .LEFT, .RIGHT].filter (c.isUpdated sourcePort)).map fun port => (u, port)).mapM
      fun r => c.sendRangeUpdate sourcePort r.1 r.2

def clearRangeUpdates (c : RangeClp) (port : Direction) : RangeClp :=
  c.setRangeTable port (c.rangeTable port).clearRangeUpdates

/-- The messages for the updates in the table of `port`, which are cleared. -/
def announce (c : RangeClp) (port : Direction) : Option (RangeClp × List RangeUpdateMessage) :=
  (c.sendRangeUpdates (c.rangeTable port).rangeUpdateList port).map fun sent =>
    (c.clearRangeUpdates port, sent)

def processRangeUpdate (c : RangeClp) (m : RangeUpdateMessage) :
    Option (RangeClp × List RangeUpdateMessage) := do
  let originPort ← c.routeTable.getDirectionFromRank m.origin
  let range := if m.range ≠ .sentinel then some m.range else none
  let c := c.clearRangeUpdates originPort
  let table := ((c.rangeTable originPort).processRangeUpdate m.timestamp range .empty).1
  (c.setRangeTable originPort table).announce originPort

/-- `SetGvt`, but for the migration of variables. -/
def setGvt (c : RangeClp) (gvt : Nat) : RangeClp :=
  { c with
    gvt := gvt
    sharedState :=
      { c.sharedState with
        stateVariableMap := c.sharedState.stateVariableMap.map fun _ sv => sv.removeWritePeriods gvt
        rangeRoutingTable := c.sharedState.rangeRoutingTable.clearRangePeriods gvt }
    portTable := fun port => (c.portTable port).clearRangePeriods gvt }

@[simp] theorem rangeTable_setGvt (c : RangeClp) (gvt : Nat) (port : Direction) :
    (c.setGvt gvt).rangeTable port = (c.rangeTable port).clearRangePeriods gvt := by
  simp only [rangeTable, setGvt]
  split <;> rfl

@[simp] theorem containsVariable_setGvt (c : RangeClp) (gvt : Nat) (id : SsvId) :
    (c.setGvt gvt).sharedState.containsVariable id = c.sharedState.containsVariable id := by
  simp [setGvt, SharedState.containsVariable]

/-- The part of `ProcessMessage(WriteMessage)` that range queries see. -/
def processWrite (c : RangeClp) (ssvId : SsvId) (originalAgent : LpId) (value : AbstractValue)
    (timestamp : Nat) : Option (RangeClp × List RangeUpdateMessage) := do
  let c := c.clearRangeUpdates .HERE
  let r ← c.sharedState.writeWithRollback ssvId originalAgent value timestamp .empty
  { c with sharedState := r.1 }.announce .HERE

def processWriteAnti (c : RangeClp) (ssvId : SsvId) (originalAgent : LpId) (timestamp : Nat) :
    Option (RangeClp × List RangeUpdateMessage) :=
  if c.gvt > timestamp then some (c, [])
  else do
    let c := c.clearRangeUpdates .HERE
    let r ← c.sharedState.rollbackWrite ssvId originalAgent timestamp .empty
    { c with sharedState := r.1 }.announce .HERE

end RangeClp
end PdesMas
