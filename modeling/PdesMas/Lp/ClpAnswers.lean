import PdesMas.Lp.ClpEffect
import PdesMas.Messages.Types

/-!
The answers a CLP queues. A request gets one response, unless it is a read from
below GVT; a write, its undoing and a state migration queue rollbacks besides.
Each answer goes to the process of its agent.
-/

namespace PdesMas

/-- A CLP whose GVT is `gvt` responds to the request. -/
def SharedStateMessage.due (gvt : Nat) (q : SharedStateMessage) : Bool :=
  match q.kind with
  | .singleRead _ => decide (gvt ≤ q.timestamp)
  | .write .. | .rangeQuery _ => true

/-- The response is one to the request. -/
structure ResponseMessage.Answers (r : ResponseMessage) (q : SharedStateMessage) : Prop where
  identifier : r.identifier = q.identifier
  timestamp : r.timestamp = q.timestamp
  agent : r.originalAgent = q.originalAgent
  kind : q.kind.expects r.kind = true

/-- The type of the response to a request. -/
def RequestKind.responseType : RequestKind → PdesmasType
  | .singleRead _ => .SINGLEREADRESPONSEMESSAGE
  | .write .. => .WRITERESPONSEMESSAGE
  | .rangeQuery _ => .RANGEQUERYMESSAGE

/-- `GetType`. -/
def ResponseKind.type : ResponseKind → PdesmasType
  | .singleReadResponse _ => .SINGLEREADRESPONSEMESSAGE
  | .writeResponse _ => .WRITERESPONSEMESSAGE
  | .rangeQueryResponse _ => .RANGEQUERYMESSAGE

theorem expects_iff {request : RequestKind} {response : ResponseKind} :
    request.expects response = true ↔ response.type = request.responseType := by
  cases request <;> cases response <;>
    simp [RequestKind.expects, RequestKind.responseType, ResponseKind.type]

/-- What a request and the response to it have in common. -/
structure Ticket where
  identifier : Nat
  originalAgent : LpId
  responseType : PdesmasType
deriving DecidableEq, Repr

def SharedStateMessage.ticket (q : SharedStateMessage) : Ticket :=
  ⟨q.identifier, q.originalAgent, q.kind.responseType⟩

def ResponseMessage.ticket (r : ResponseMessage) : Ticket :=
  ⟨r.identifier, r.originalAgent, r.kind.type⟩

theorem ResponseMessage.Answers.ticket {r : ResponseMessage} {q : SharedStateMessage}
    (h : r.Answers q) : r.ticket = q.ticket := by
  rw [ResponseMessage.ticket, SharedStateMessage.ticket, h.identifier, h.agent,
    expects_iff.mp h.kind]

/-- The response as the CLP `rank` queues it. -/
def ResponseMessage.sentBy (rank : Nat) (r : ResponseMessage) : SimulationMessage :=
  ⟨rank, r.originalAgent.rank, .response r⟩

def RollbackMessage.sentBy (rank : Nat) (r : RollbackMessage) : SimulationMessage :=
  ⟨rank, r.originalAgent.rank, .rollback r⟩

namespace Clp

/-- The responses to a message of an agent. -/
inductive Responds (gvt : Nat) : AlpMessage → List ResponseMessage → Prop
  | response {q r} (hdue : q.due gvt = true) (h : r.Answers q) : Responds gvt (.request q) [r]
  | late {q} (hdue : q.due gvt = false) : Responds gvt (.request q) []
  | anti {m} : Responds gvt (.anti m) []

/-- `c'` has queued `l`, and may differ in its shared state, its GVT and the routes of its
variables. -/
structure Queues (c c' : Clp) (l : List SimulationMessage) : Prop where
  rank : c'.rank = c.rank
  ranks : c'.routeTable.rankToDirectionMap = c.routeTable.rankToDirectionMap
  ports : c'.routeTable.directionToRankMap = c.routeTable.directionToRankMap
  received : c'.receiveMessageQueue = c.receiveMessageQueue
  sent : c'.sendMessageQueue = c.sendMessageQueue ++ l

variable {c c' c'' : Clp} {l l' : List SimulationMessage}

theorem Queues.trans (h : Queues c c' l) (h' : Queues c' c'' l') : Queues c c'' (l ++ l') :=
  ⟨h'.rank.trans h.rank, h'.ranks.trans h.ranks, h'.ports.trans h.ports,
    h'.received.trans h.received, by rw [h'.sent, h.sent, List.append_assoc]⟩

theorem queues_nil (hrank : c'.rank = c.rank)
    (hranks : c'.routeTable.rankToDirectionMap = c.routeTable.rankToDirectionMap)
    (hports : c'.routeTable.directionToRankMap = c.routeTable.directionToRankMap)
    (hreceived : c'.receiveMessageQueue = c.receiveMessageQueue)
    (hsent : c'.sendMessageQueue = c.sendMessageQueue) : Queues c c' [] :=
  ⟨hrank, hranks, hports, hreceived, by rw [hsent, List.append_nil]⟩

theorem Queues.refl (c : Clp) : Queues c c [] := queues_nil rfl rfl rfl rfl rfl

theorem queues_sendResponse (c : Clp) (r : ResponseMessage) :
    Queues c (c.sendResponse r) [r.sentBy c.rank] := ⟨rfl, rfl, rfl, rfl, rfl⟩

theorem queues_updateAccessCount {ssvId : SsvId} {agent : LpId} {numberOfHops : Nat}
    (h : c.updateAccessCount ssvId agent numberOfHops = .ok c') : Queues c c' [] := by
  obtain ⟨direction, _, h⟩ := bind_eq_ok.mp h
  cases h
  exact queues_nil rfl rfl rfl rfl rfl

/-- Only rollbacks are queued. -/
def RollsBack (c c' : Clp) : Prop :=
  ∃ rolls : List RollbackMessage, Queues c c' (rolls.map (·.sentBy c.rank))

theorem RollsBack.of_queues (h : Queues c c' []) : RollsBack c c' := ⟨[], h⟩

theorem RollsBack.trans (h : RollsBack c c') (h' : RollsBack c' c'') : RollsBack c c'' := by
  obtain ⟨rolls, h⟩ := h
  obtain ⟨rolls', h'⟩ := h'
  rw [h.rank] at h'
  exact ⟨rolls ++ rolls', List.map_append ▸ h.trans h'⟩

theorem rollsBack_sendRollbacks (c : Clp) (list : List (LpId × Nat)) (tag : RollbackTag)
    (delay : Nat) : RollsBack c (c.sendRollbacks list tag delay) := by
  refine ⟨list.map fun r => ⟨r.2 + delay, r.1, tag⟩, rfl, rfl, rfl, rfl, ?_⟩
  rw [List.map_map]
  rfl

theorem rollsBack_clearRangeUpdates (c : Clp) : RollsBack c c.clearRangeUpdates :=
  .of_queues (queues_nil rfl rfl rfl rfl rfl)

section Process

variable {rollbacks : RollbackList → List (LpId × Nat)} {clock : SsvId → Nat}

/-- What a message of an agent makes the CLP queue. -/
theorem responds_of_processMessage {m : AlpMessage} {numberOfHops : Nat}
    (h : c.processMessage rollbacks clock numberOfHops m = .ok c') :
    ∃ (responses : List ResponseMessage) (rolls : List RollbackMessage),
      Responds c.gvt m responses ∧
      Queues c c' (responses.map (·.sentBy c.rank) ++ rolls.map (·.sentBy c.rank)) := by
  cases m with
  | request q =>
      obtain ⟨identifier, timestamp, agent, kind⟩ := q
      cases kind with
      | singleRead ssvId =>
          simp only [processMessage, processSingleRead] at h
          split at h
          · rename_i hlate
            cases h
            refine ⟨[], [], .late ?_, .refl c⟩
            simpa [SharedStateMessage.due] using hlate
          · rename_i hdue
            obtain ⟨_, _, h⟩ := bind_eq_ok.mp h
            obtain ⟨r, _, h⟩ := bind_eq_ok.mp h
            let response : ResponseMessage :=
              ⟨identifier, timestamp, agent, .singleReadResponse r.1⟩
            have hread : Queues c { c with sharedState := r.2 } [] :=
              queues_nil rfl rfl rfl rfl rfl
            refine ⟨[response], [], .response ?_ ⟨rfl, rfl, rfl, rfl⟩, ?_⟩
            · simpa [SharedStateMessage.due] using hdue
            · exact (hread.trans (queues_sendResponse _ response)).trans
                (queues_updateAccessCount h)
      | write ssvId value =>
          obtain ⟨_, _, h⟩ := bind_eq_ok.mp h
          obtain ⟨r, _, h⟩ := bind_eq_ok.mp h
          let response : ResponseMessage := ⟨identifier, timestamp, agent, .writeResponse r.2.1⟩
          let c₁ : Clp := { c.clearRangeUpdates with sharedState := r.1 }
          have hwrite : Queues c c₁ [] := queues_nil rfl rfl rfl rfl rfl
          obtain ⟨rolls, hrolls⟩ := (rollsBack_sendRollbacks (c₁.sendResponse response)
            (rollbacks r.2.2) ⟨ssvId, timestamp, ROLLBACK_BY_WRITE, clock ssvId⟩ 0).trans
              ((rollsBack_clearRangeUpdates _).trans (.of_queues (queues_updateAccessCount h)))
          exact ⟨[response], rolls, .response rfl ⟨rfl, rfl, rfl, rfl⟩,
            (hwrite.trans (queues_sendResponse _ response)).trans hrolls⟩
      | rangeQuery range => cases h
  | anti m =>
      refine ⟨[], ?_⟩
      suffices hrolls : RollsBack c c' by
        obtain ⟨rolls, hrolls⟩ := hrolls
        exact ⟨rolls, .anti, hrolls⟩
      obtain ⟨timestamp, agent, tag, kind⟩ := m
      cases kind with
      | singleReadAnti ssvId =>
          simp only [processMessage, processSingleReadAnti] at h
          split at h
          · cases h
            exact .of_queues (.refl c)
          · obtain ⟨_, _, h⟩ := bind_eq_ok.mp h
            obtain ⟨s, _, h⟩ := bind_eq_ok.mp h
            have hundo : RollsBack c { c.clearRangeUpdates with sharedState := s } :=
              .of_queues (queues_nil rfl rfl rfl rfl rfl)
            exact hundo.trans ((rollsBack_clearRangeUpdates _).trans
              (.of_queues (queues_updateAccessCount h)))
      | writeAnti ssvId =>
          simp only [processMessage, processWriteAnti] at h
          split at h
          · cases h
            exact .of_queues (.refl c)
          · obtain ⟨_, _, h⟩ := bind_eq_ok.mp h
            obtain ⟨r, _, h⟩ := bind_eq_ok.mp h
            have hundo : RollsBack c { c.clearRangeUpdates with sharedState := r.1 } :=
              .of_queues (queues_nil rfl rfl rfl rfl rfl)
            exact (hundo.trans (rollsBack_sendRollbacks _ _ _ _)).trans
              ((rollsBack_clearRangeUpdates _).trans (.of_queues (queues_updateAccessCount h)))
      | rangeQueryAnti range identifier => cases h

theorem rollsBack_processStateMigration {list : List (SsvId × StateVariable AbstractValue)}
    (h : processStateMigration rollbacks clock list c = .ok c') : RollsBack c c' := by
  induction list generalizing c with
  | nil =>
      cases h
      exact .of_queues (.refl _)
  | cons e list ih =>
      obtain ⟨ssvId, sv⟩ := e
      obtain ⟨r, _, h⟩ := bind_eq_ok.mp h
      let c₁ : Clp :=
        { c with routeTable := c.routeTable.setSsvIdHost ssvId .HERE, sharedState := r.1 }
      have henter : RollsBack c c₁ := .of_queues (queues_nil rfl rfl rfl rfl rfl)
      exact ((henter.trans (rollsBack_sendRollbacks _ _ _ _)).trans
        (rollsBack_clearRangeUpdates _)).trans (ih h)

theorem rollsBack_takeOut {direction : Direction} {ssvIds : List SsvId}
    {m : StateVariableMap} {r : Clp × StateVariableMap}
    (h : takeOut rollbacks clock direction ssvIds c m = .ok r) : RollsBack c r.1 := by
  induction ssvIds generalizing c m with
  | nil =>
      cases h
      exact .of_queues (.refl _)
  | cons ssvId ssvIds ih =>
      obtain ⟨sv, _, h⟩ := bind_eq_ok.mp h
      obtain ⟨q, _, h⟩ := bind_eq_ok.mp h
      obtain ⟨s, _, h⟩ := bind_eq_ok.mp h
      let c₁ : Clp :=
        { c with routeTable := c.routeTable.setSsvIdHost ssvId direction, sharedState := s }
      have hleave : RollsBack c c₁ := .of_queues (queues_nil rfl rfl rfl rfl rfl)
      exact ((hleave.trans (rollsBack_sendRollbacks _ _ _ _)).trans
        (rollsBack_clearRangeUpdates _)).trans (ih h)

theorem rollsBack_migrateStateVariables {migrationMap : List (Direction × List SsvId)}
    (h : migrateStateVariables rollbacks clock migrationMap c = .ok c') : RollsBack c c' := by
  induction migrationMap generalizing c with
  | nil =>
      cases h
      exact .of_queues (.refl _)
  | cons e migrationMap ih =>
      obtain ⟨direction, ssvIds⟩ := e
      obtain ⟨destination, _, h⟩ := bind_eq_ok.mp h
      obtain ⟨r, htake, h⟩ := bind_eq_ok.mp h
      have hqueue : RollsBack r.1 { r.1 with
          sendLoadBalancingMessageQueue :=
            r.1.sendLoadBalancingMessageQueue ++ [⟨c.rank, destination, r.2⟩] } :=
        .of_queues (queues_nil rfl rfl rfl rfl rfl)
      have hclear := rollsBack_clearRangeUpdates c
      have hleave := hclear.trans (rollsBack_takeOut htake)
      refine (hleave.trans hqueue).trans (ih ?_)
      have hrank : r.1.rank = c.rank := by
        obtain ⟨_, hq⟩ := hleave
        exact hq.rank
      exact h

end Process

end Clp
end PdesMas
