import PdesMas.Lp.Message
import PdesMas.Routing.RouteTable
import PdesMas.State.SharedState

/-!
A CLP: its route table, its shared state and its message queues. The messages
are those that concern single variables, their answers, rollbacks and state
migrations; range queries, range updates, GVT and end messages, which move no
variable and change none, are left out. What range queries add to the counts of
accesses, by which the variables to migrate are chosen, is added where those
counts are looked at. Steps that end the process are errors, with the two exits
of the shared state told apart.
-/

namespace PdesMas

def ROLLBACK_BY_WRITE : Nat := 1
def ROLLBACK_BY_SM : Nat := 3

/-- How a step ends the process: a shared state is asked for a variable it does not
have, is to take one it has already, or something else. -/
inductive Exit where
  | doesNotExist
  | alreadyExists
  | other
deriving DecidableEq, Repr

def orExit {α : Type} (e : Exit) : Option α → Except Exit α
  | none => .error e
  | some a => .ok a

/-- The variable a message is routed by; range queries are not. -/
def AlpMessage.ssvId? : AlpMessage → Option SsvId
  | .request m =>
      match m.kind with
      | .singleRead ssvId | .write ssvId _ => some ssvId
      | .rangeQuery _ => none
  | .anti m =>
      match m.kind with
      | .singleReadAnti ssvId | .writeAnti ssvId => some ssvId
      | .rangeQueryAnti .. => none

/-- A message of an agent on its way, or a message to an agent. The serial number is
the model's own; it tells messages with the same content apart. -/
inductive Content where
  | agent (serial numberOfHops : Nat) (m : AlpMessage)
  | response (m : ResponseMessage)
  | rollback (m : RollbackMessage)
deriving DecidableEq, Repr

/-- `lastHop` is the process that handed the message on last. -/
structure SimulationMessage where
  lastHop : Nat
  destination : Nat
  content : Content
deriving DecidableEq, Repr

structure StateMigrationMessage where
  origin : Nat
  destination : Nat
  stateVariableMap : StateVariableMap

structure Clp where
  rank : Nat
  gvt : Nat
  routeTable : RouteTable
  sharedState : SharedState
  sendLoadBalancingMessageQueue : List StateMigrationMessage
  sendMessageQueue : List SimulationMessage
  receiveLoadBalancingMessageQueue : List StateMigrationMessage
  receiveMessageQueue : List SimulationMessage

/-- What the CLPs of one simulation are built from. The thresholds of the access
counters come from logarithms in floating point. `rollbacks` is the content of
the map of a rollback list, whose keys have no strict weak order. -/
structure Setup where
  numberOfClps : Nat
  startTime : Nat
  initialisor : Initialisor
  isParentClp : Nat → Bool
  portThreshold : Nat
  rangeRoutingTable : Nat → RangeRoutingTable
  rollbacks : RollbackList → List (LpId × Nat)

namespace Clp

def addSsvs (initialisor : Initialisor) (startTime : Nat) :
    List SsvId → SharedState → Except Exit SharedState
  | [], s => .ok s
  | ssvId :: rest, s => do
      let value ← orExit .other initialisor.clpSsvIdValueMap[ssvId]?
      let s ← orExit .alreadyExists (s.add ssvId value startTime ⟨0, 0⟩)
      addSsvs initialisor startTime rest s

/-- A CLP without variables, routes and messages. -/
def idle (rank : Nat) : Clp where
  rank := rank
  gvt := 0
  routeTable := ⟨∅, fun _ => none, ∅⟩
  sharedState := .create .empty (.create false 0)
  sendLoadBalancingMessageQueue := []
  sendMessageQueue := []
  receiveLoadBalancingMessageQueue := []
  receiveMessageQueue := []

def create (setup : Setup) (rank : Nat) : Except Exit Clp := do
  let sharedState ← addSsvs setup.initialisor setup.startTime (setup.initialisor.ssvsOf rank)
    (.create (setup.rangeRoutingTable rank)
      (.create (setup.isParentClp rank) setup.portThreshold))
  let routeTable ← orExit .other (RouteTable.create rank setup.numberOfClps setup.initialisor)
  pure
    { rank := rank
      gvt := setup.startTime
      routeTable := routeTable
      sharedState := sharedState
      sendLoadBalancingMessageQueue := []
      sendMessageQueue := []
      receiveLoadBalancingMessageQueue := []
      receiveMessageQueue := [] }

def sendToLp (c : Clp) (m : SimulationMessage) : Clp :=
  { c with sendMessageQueue := c.sendMessageQueue ++ [m] }

def sendResponse (c : Clp) (m : ResponseMessage) : Clp :=
  c.sendToLp ⟨c.rank, m.originalAgent.rank, .response m⟩

/-- `SendRollbacks`; after a state migration the times are moved on by `delay`. -/
def sendRollbacks (c : Clp) (list : List (LpId × Nat)) (tag : RollbackTag) (delay : Nat) : Clp :=
  { c with
    sendMessageQueue := c.sendMessageQueue ++ list.map fun r =>
      ⟨c.rank, r.1.rank, .rollback ⟨r.2 + delay, r.1, tag⟩⟩ }

/-- `ClearRangeUpdates` of the table `HERE`. -/
def clearRangeUpdates (c : Clp) : Clp :=
  { c with
    sharedState :=
      { c.sharedState with
        rangeRoutingTable := { c.sharedState.rangeRoutingTable with rangeUpdateList := [] } } }

def updateAccessCount (c : Clp) (ssvId : SsvId) (agent : LpId) (numberOfHops : Nat) :
    Except Exit Clp := do
  let direction ← orExit .other (c.routeTable.getDirectionFromRank agent.rank)
  pure { c with sharedState := c.sharedState.updateAccessCount ssvId direction numberOfHops }

/-- The guard of the operations of the shared state. -/
def require (c : Clp) (ssvId : SsvId) : Except Exit Unit :=
  if c.sharedState.containsVariable ssvId then .ok () else .error .doesNotExist

section Process

variable (rollbacks : RollbackList → List (LpId × Nat)) (clock : SsvId → Nat)

def processSingleRead (c : Clp) (ssvId : SsvId) (m : SharedStateMessage) (numberOfHops : Nat) :
    Except Exit Clp :=
  if m.timestamp < c.gvt then .ok c
  else do
    c.require ssvId
    let r ← orExit .other (c.sharedState.read ssvId m.originalAgent m.timestamp)
    let c := { c with sharedState := r.2 }
    let c := c.sendResponse
      ⟨m.identifier, m.timestamp, m.originalAgent, .singleReadResponse r.1⟩
    c.updateAccessCount ssvId m.originalAgent numberOfHops

def processWrite (c : Clp) (ssvId : SsvId) (value : AbstractValue) (m : SharedStateMessage)
    (numberOfHops : Nat) : Except Exit Clp := do
  let c := c.clearRangeUpdates
  c.require ssvId
  let r ← orExit .other
    (c.sharedState.writeWithRollback ssvId m.originalAgent value m.timestamp .empty)
  let c := { c with sharedState := r.1 }
  let c := c.sendResponse ⟨m.identifier, m.timestamp, m.originalAgent, .writeResponse r.2.1⟩
  let c := c.sendRollbacks (rollbacks r.2.2)
    ⟨ssvId, m.timestamp, ROLLBACK_BY_WRITE, clock ssvId⟩ 0
  c.clearRangeUpdates.updateAccessCount ssvId m.originalAgent numberOfHops

def processSingleReadAnti (c : Clp) (ssvId : SsvId) (m : AntiMessage) (numberOfHops : Nat) :
    Except Exit Clp :=
  if c.gvt > m.timestamp then .ok c
  else do
    let c := c.clearRangeUpdates
    c.require ssvId
    let s ← orExit .other (c.sharedState.rollbackRead ssvId m.originalAgent m.timestamp)
    let c := { c with sharedState := s }
    c.clearRangeUpdates.updateAccessCount ssvId m.originalAgent numberOfHops

def processWriteAnti (c : Clp) (ssvId : SsvId) (m : AntiMessage) (numberOfHops : Nat) :
    Except Exit Clp :=
  if c.gvt > m.timestamp then .ok c
  else do
    let c := c.clearRangeUpdates
    c.require ssvId
    let r ← orExit .other
      (c.sharedState.rollbackWrite ssvId m.originalAgent m.timestamp .empty)
    let c := { c with sharedState := r.1 }
    let c := c.sendRollbacks (rollbacks r.2) m.rollbackTag 0
    c.clearRangeUpdates.updateAccessCount ssvId m.originalAgent numberOfHops

/-- `ProcessMessage` of the messages that are routed by a variable. -/
def processMessage (c : Clp) (numberOfHops : Nat) : AlpMessage → Except Exit Clp
  | .request m =>
      match m.kind with
      | .singleRead ssvId => c.processSingleRead ssvId m numberOfHops
      | .write ssvId value => c.processWrite rollbacks clock ssvId value m numberOfHops
      | .rangeQuery _ => .error .other
  | .anti m =>
      match m.kind with
      | .singleReadAnti ssvId => c.processSingleReadAnti ssvId m numberOfHops
      | .writeAnti ssvId => c.processWriteAnti rollbacks ssvId m numberOfHops
      | .rangeQueryAnti .. => .error .other

/-- The loop of `ProcessMessage(StateMigrationMessage)`. -/
def processStateMigration : List (SsvId × StateVariable AbstractValue) → Clp → Except Exit Clp
  | [], c => .ok c
  | (ssvId, sv) :: rest, c => do
      let c := { c with routeTable := c.routeTable.setSsvIdHost ssvId .HERE }
      let r ← orExit .alreadyExists (c.sharedState.insert ssvId sv .empty)
      let c := { c with sharedState := r.1 }
      let c := c.sendRollbacks (rollbacks r.2.2) ⟨ssvId, ULONG_MAX, ROLLBACK_BY_SM, clock ssvId⟩ 0
      processStateMigration rest c.clearRangeUpdates

/-- The inner loop of `MigrateStateVariables`: the variables that go in one direction. -/
def takeOut (direction : Direction) :
    List SsvId → Clp → StateVariableMap → Except Exit (Clp × StateVariableMap)
  | [], c, m => .ok (c, m)
  | ssvId :: rest, c, m => do
      let sv ← orExit .doesNotExist (c.sharedState.getCopy ssvId)
      let c := { c with routeTable := c.routeTable.setSsvIdHost ssvId direction }
      let r ← orExit .doesNotExist (c.sharedState.removeWritePeriodList ssvId .empty)
      let s ← orExit .doesNotExist (r.1.delete ssvId)
      let c := { c with sharedState := s }
      let c := c.sendRollbacks (rollbacks r.2) ⟨ssvId, ULONG_MAX, ROLLBACK_BY_SM, clock ssvId⟩ 1
      takeOut direction rest c.clearRangeUpdates (m.insertIfNew ssvId sv)

def migrateStateVariables : List (Direction × List SsvId) → Clp → Except Exit Clp
  | [], c => .ok c
  | (direction, ssvIds) :: rest, c => do
      let destination ← orExit .other (c.routeTable.getRankFromDirection direction)
      let r ← takeOut rollbacks clock direction ssvIds c.clearRangeUpdates ∅
      migrateStateVariables rest { r.1 with
        sendLoadBalancingMessageQueue :=
          r.1.sendLoadBalancingMessageQueue ++ [⟨c.rank, destination, r.2⟩] }

/-- What a call of `Receive` did with the message it took. -/
inductive Received where
  | nothing
  | processed (serial : Nat) (m : AlpMessage)
  | forwarded
  | dropped
  | migrated
deriving DecidableEq, Repr

/-- A message for an agent is routed by the rank of its ALP. -/
def routeToAgent (c : Clp) (agent : LpId) (content : Content) : Except Exit (Clp × Received) := do
  let direction ← orExit .other (c.routeTable.getDirectionFromRank agent.rank)
  if direction = .HERE then .ok (c, .dropped)
  else do
    let destination ← orExit .other (c.routeTable.getRankFromDirection direction)
    .ok (c.sendToLp ⟨c.rank, destination, content⟩, .forwarded)

def receiveSimulation (c : Clp) : Content → Except Exit (Clp × Received)
  | .agent serial numberOfHops m => do
      let ssvId ← orExit .other m.ssvId?
      let direction ← orExit .other (c.routeTable.getDirectionFromSsvId ssvId)
      if direction = .HERE then do
        let c ← c.processMessage rollbacks clock (numberOfHops + 1) m
        .ok (c, .processed serial m)
      else do
        let destination ← orExit .other (c.routeTable.getRankFromDirection direction)
        .ok (c.sendToLp ⟨c.rank, destination, .agent serial (numberOfHops + 1) m⟩, .forwarded)
  | .response m => c.routeToAgent m.originalAgent (.response m)
  | .rollback m => c.routeToAgent m.originalAgent (.rollback m)

def receive (c : Clp) : Except Exit (Clp × Received) :=
  match c.receiveLoadBalancingMessageQueue with
  | m :: rest => do
      let c := { c with receiveLoadBalancingMessageQueue := rest }
      if m.destination = c.rank then do
        let c ← processStateMigration rollbacks clock m.stateVariableMap.toList c
        .ok (c, .migrated)
      else
        .ok ({ c with
          sendLoadBalancingMessageQueue := c.sendLoadBalancingMessageQueue ++ [m] }, .forwarded)
  | [] =>
      match c.receiveMessageQueue with
      | m :: rest =>
          { c with receiveMessageQueue := rest }.receiveSimulation rollbacks clock m.content
      | [] => .ok (c, .nothing)

end Process

/-- The destination of a message for an agent is looked up again when it is sent. -/
def reroute (c : Clp) (m : SimulationMessage) (agent : LpId) : Except Exit SimulationMessage := do
  let direction ← orExit .other (c.routeTable.getDirectionFromRank agent.rank)
  if direction = .HERE then .ok m
  else do
    let destination ← orExit .other (c.routeTable.getRankFromDirection direction)
    .ok { m with destination := destination }

inductive Sent where
  | nothing
  | simulation (m : SimulationMessage)
  | migration (m : StateMigrationMessage)

def send (c : Clp) : Except Exit (Clp × Sent) :=
  match c.sendLoadBalancingMessageQueue with
  | m :: rest => .ok ({ c with sendLoadBalancingMessageQueue := rest }, .migration m)
  | [] =>
      match c.sendMessageQueue with
      | m :: rest => do
          let m ←
            match m.content with
            | .agent .. => .ok m
            | .response r => c.reroute m r.originalAgent
            | .rollback r => c.reroute m r.originalAgent
          .ok ({ c with sendMessageQueue := rest }, .simulation m)
      | [] => .ok (c, .nothing)

/-- `SetGvt`, without the migration it may start. -/
def setGvt (c : Clp) (gvt : Nat) : Clp :=
  { c with gvt := gvt, sharedState := c.sharedState.removeWritePeriods gvt }

end Clp
end PdesMas
