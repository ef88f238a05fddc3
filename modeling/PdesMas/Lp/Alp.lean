import Std.Data.TreeMap.Lemmas
import PdesMas.Library.Machine
import PdesMas.Lp.Message

/-!
An ALP and its agents. The maps from agent identifiers are one map to the state
of an agent, which also holds the request its thread is blocked on. The control
queue is left out: `Send` serves it first, and nothing in it touches the state
below. Where the source asserts or dereferences what is not there, a step is
`none`.
-/

namespace PdesMas

structure AgentState where
  lvt : Nat
  lvtHistory : List Nat
  response : Option ResponseMessage
  responseMessageId : Nat
  messageReady : Bool
  waiting : Option SharedStateMessage
deriving DecidableEq, Repr

structure Alp where
  rank : Nat
  gvt : Nat
  messageIdHandler : IdentifierHandler
  agents : Std.TreeMap Nat AgentState
  sendMessageQueue : List AlpMessage
  sendList : List SharedStateMessage
  rollbackTagList : List RollbackTag

namespace AgentState

/-- `AddAgent`. -/
def initial : AgentState := ⟨0, [0], none, 0, false, none⟩

/-- `SetAgentLvt`. -/
def setLvt (a : AgentState) (lvt : Nat) : AgentState :=
  if a.lvt ≤ lvt then { a with lvt := lvt, lvtHistory := a.lvtHistory ++ [lvt] } else a

/-- The part of `ProcessRollback` that concerns the agent alone: `upper_bound` and
`back` on its history, which is in order, and a fresh start of its thread. -/
def rollbackTo (a : AgentState) (time : Nat) : Option AgentState :=
  let history := a.lvtHistory.takeWhile fun lvt => decide (lvt ≤ time)
  history.getLast?.map fun lvt => ⟨lvt, history, none, 0, false, none⟩

end AgentState

/-- The read and range query of `agent` from `time` on; of its writes only those
after `time`. -/
def SharedStateMessage.rolledBack (agent : LpId) (time : Nat) (m : SharedStateMessage) : Bool :=
  decide (m.originalAgent = agent) &&
    match m.kind with
    | .singleRead _ | .rangeQuery _ => decide (m.timestamp ≥ time)
    | .write .. => decide (m.timestamp > time)

/-- `MessageQueue::RemoveMessages`. -/
def removeMessages (agent : LpId) (time : Nat) (queue : List AlpMessage) : List AlpMessage :=
  queue.filter fun
    | .request m => ¬ m.rolledBack agent time
    | .anti _ => true

/-- `HasSendList::RollbackSendList`: the messages taken out and the list without them. -/
def rollbackSendList (time : Nat) (agent : LpId) (sendList : List SharedStateMessage) :
    List SharedStateMessage × List SharedStateMessage :=
  (sendList.filter fun m => m.rolledBack agent time,
    sendList.filter fun m => ¬ m.rolledBack agent time)

namespace Alp

def create (rank startTime numberOfClps numberOfAlps : Nat) (agentIds : List Nat) : Alp where
  rank := rank
  gvt := startTime
  messageIdHandler := .create rank numberOfClps numberOfAlps
  agents := agentIds.foldl (fun m id => m.insert id .initial) ∅
  sendMessageQueue := []
  sendList := []
  rollbackTagList := []

def agentId (alp : Alp) (id : Nat) : LpId := ⟨id, alp.rank⟩

def setAgent (alp : Alp) (id : Nat) (a : AgentState) : Alp :=
  { alp with agents := alp.agents.insert id a }

/-- A read, write or range query of an idle agent, up to the point where it waits. -/
def issue (alp : Alp) (id : Nat) (kind : RequestKind) (timestamp : Nat) : Option Alp :=
  match alp.agents[id]? with
  | none => none
  | some a =>
      if a.waiting = none ∧ timestamp ≥ a.lvt then
        let handler := alp.messageIdHandler.getNextID
        let m : SharedStateMessage := ⟨handler.lastID, timestamp, alp.agentId id, kind⟩
        some { alp.setAgent id { a with waiting := some m } with
          messageIdHandler := handler
          sendMessageQueue := alp.sendMessageQueue ++ [.request m] }
      else none

def timeWrap (alp : Alp) (id : Nat) (t : Nat) : Option Alp :=
  match alp.agents[id]? with
  | none => none
  | some a => if a.waiting = none then some (alp.setAgent id (a.setLvt (a.lvt + t))) else none

/-- `Send`, when a simulation message is at hand. -/
def send (alp : Alp) : Option (Alp × AlpMessage) :=
  match alp.sendMessageQueue with
  | [] => none
  | .anti m :: rest => some ({ alp with sendMessageQueue := rest }, .anti m)
  | .request m :: rest =>
      match alp.agents[m.originalAgent.identifier]? with
      | none => none
      | some a =>
          some ({ alp.setAgent m.originalAgent.identifier
              { a with responseMessageId := m.identifier } with
            sendMessageQueue := rest
            sendList := alp.sendList ++ [m] }, .request m)

/-- `HasSendList::RemoveFromSendList`. -/
def removeFromSendList (messageId : Nat) (sendList : List SharedStateMessage) :
    List SharedStateMessage :=
  sendList.eraseP fun m => m.identifier == messageId

/-- A write that failed has no period to roll back, and leaves the send list. -/
def dropFailed (m : ResponseMessage) (sendList : List SharedStateMessage) :
    List SharedStateMessage :=
  if m.kind = .writeResponse .writeFAILURE then removeFromSendList m.identifier sendList
  else sendList

/-- `ProcessMessage` of the three responses. -/
def processResponse (alp : Alp) (m : ResponseMessage) : Option Alp :=
  let alp' := { alp with sendList := dropFailed m alp.sendList }
  match alp.agents[m.originalAgent.identifier]? with
  | none => none
  | some a =>
      if a.responseMessageId = m.identifier then
        some (alp'.setAgent m.originalAgent.identifier
          { a with response := some m, messageReady := true })
      else some alp'

/-- The agent takes its answer and moves its LVT behind the request. -/
def consume (alp : Alp) (id : Nat) : Option (Alp × SharedStateMessage × ResponseMessage) :=
  match alp.agents[id]? with
  | none => none
  | some a =>
      match a.waiting, a.response with
      | some request, some response =>
          if a.messageReady = true ∧ request.kind.expects response.kind = true then
            let a' := { a with messageReady := false, waiting := none }
            some (alp.setAgent id (a'.setLvt (request.timestamp + 1)), request, response)
          else none
      | _, _ => none

/-- `HasRollbackTagList::CheckRollbackTagList`. -/
def checkRollbackTagList (alp : Alp) (tag : RollbackTag) : Bool × Alp :=
  if tag ∈ alp.rollbackTagList then (true, alp)
  else (false, { alp with rollbackTagList := alp.rollbackTagList ++ [tag] })

/-- The anti-messages for what was taken from the send list, none below GVT. -/
def antiMessages (gvt : Nat) (tag : RollbackTag) (removed : List SharedStateMessage) :
    List AlpMessage :=
  (removed.filter fun m => ¬ gvt > m.timestamp).map fun m => .anti (m.anti tag)

/-- `ProcessRollback`, with its result. -/
def processRollback (alp : Alp) (m : RollbackMessage) : Option (Alp × Bool) :=
  match alp.agents[m.originalAgent.identifier]? with
  | none => none
  | some a =>
      let check := alp.checkRollbackTagList m.rollbackTag
      if check.1 = true then some (check.2, false)
      else if m.timestamp > a.lvt then some (check.2, false)
      else
        (a.rollbackTo m.timestamp).map fun a' =>
          let r := rollbackSendList m.timestamp m.originalAgent alp.sendList
          ({ check.2.setAgent m.originalAgent.identifier a' with
              sendMessageQueue :=
                removeMessages m.originalAgent m.timestamp alp.sendMessageQueue ++
                  antiMessages alp.gvt m.rollbackTag r.1
              sendList := r.2 }, true)

/-- `SetGvt`, with `ClearSendList` and `ClearRollbackTagList`. -/
def setGvt (alp : Alp) (gvt : Nat) : Alp :=
  { alp with
    gvt := gvt
    sendList := alp.sendList.filter fun m => ¬ m.timestamp < gvt
    rollbackTagList := alp.rollbackTagList.filter fun tag => ¬ tag.time < gvt }

inductive Event where
  | issue (agentId : Nat) (kind : RequestKind) (timestamp : Nat)
  | timeWrap (agentId : Nat) (t : Nat)
  | send
  | receiveResponse (m : ResponseMessage)
  | consume (agentId : Nat)
  | receiveRollback (m : RollbackMessage)
  | setGvt (gvt : Nat)
deriving DecidableEq, Repr

inductive Result where
  | done
  | sent (m : AlpMessage)
  | consumed (request : SharedStateMessage) (response : ResponseMessage)
  | processed (executed : Bool)
deriving DecidableEq, Repr

def step (alp : Alp) : Event → Option (Alp × Result)
  | .issue id kind timestamp => (alp.issue id kind timestamp).map fun s => (s, .done)
  | .timeWrap id t => (alp.timeWrap id t).map fun s => (s, .done)
  | .send => alp.send.map fun r => (r.1, .sent r.2)
  | .receiveResponse m => (alp.processResponse m).map fun s => (s, .done)
  | .consume id => (alp.consume id).map fun r => (r.1, .consumed r.2.1 r.2.2)
  | .receiveRollback m => (alp.processRollback m).map fun r => (r.1, .processed r.2)
  | .setGvt gvt => some (alp.setGvt gvt, .done)

def machine : Machine Alp Event Result := ⟨step⟩

/-- What a step can do, one constructor for each way through the source. -/
inductive Transition : Alp → Event → Alp → Result → Prop
  | issue {alp : Alp} {a} (id kind timestamp) (ha : alp.agents[id]? = some a)
      (hidle : a.waiting = none) (hts : a.lvt ≤ timestamp) :
      Transition alp (.issue id kind timestamp)
        { alp.setAgent id { a with
            waiting := some ⟨alp.messageIdHandler.getNextID.lastID, timestamp,
              alp.agentId id, kind⟩ } with
          messageIdHandler := alp.messageIdHandler.getNextID
          sendMessageQueue := alp.sendMessageQueue ++
            [.request ⟨alp.messageIdHandler.getNextID.lastID, timestamp, alp.agentId id, kind⟩] }
        .done
  | timeWrap {alp : Alp} {a} (id t) (ha : alp.agents[id]? = some a) (hidle : a.waiting = none) :
      Transition alp (.timeWrap id t) (alp.setAgent id (a.setLvt (a.lvt + t))) .done
  | sendAnti {alp : Alp} {m rest} (hqueue : alp.sendMessageQueue = .anti m :: rest) :
      Transition alp .send { alp with sendMessageQueue := rest } (.sent (.anti m))
  | sendRequest {alp : Alp} {m rest a} (hqueue : alp.sendMessageQueue = .request m :: rest)
      (ha : alp.agents[m.originalAgent.identifier]? = some a) :
      Transition alp .send
        { alp.setAgent m.originalAgent.identifier { a with responseMessageId := m.identifier } with
          sendMessageQueue := rest
          sendList := alp.sendList ++ [m] }
        (.sent (.request m))
  | responseIgnored {alp : Alp} {a} (m : ResponseMessage)
      (ha : alp.agents[m.originalAgent.identifier]? = some a)
      (hid : a.responseMessageId ≠ m.identifier) :
      Transition alp (.receiveResponse m) { alp with sendList := dropFailed m alp.sendList } .done
  | responseStored {alp : Alp} {a} (m : ResponseMessage)
      (ha : alp.agents[m.originalAgent.identifier]? = some a)
      (hid : a.responseMessageId = m.identifier) :
      Transition alp (.receiveResponse m)
        { alp.setAgent m.originalAgent.identifier
            { a with response := some m, messageReady := true } with
          sendList := dropFailed m alp.sendList }
        .done
  | consume {alp : Alp} {a request response} (id) (ha : alp.agents[id]? = some a)
      (hwaiting : a.waiting = some request) (hresponse : a.response = some response)
      (hready : a.messageReady = true) :
      Transition alp (.consume id)
        (alp.setAgent id (AgentState.setLvt { a with messageReady := false, waiting := none }
          (request.timestamp + 1)))
        (.consumed request response)
  | rollbackDuplicate {alp : Alp} {a} (m : RollbackMessage)
      (ha : alp.agents[m.originalAgent.identifier]? = some a)
      (htag : m.rollbackTag ∈ alp.rollbackTagList) :
      Transition alp (.receiveRollback m) alp (.processed false)
  | rollbackTooLate {alp : Alp} {a} (m : RollbackMessage)
      (ha : alp.agents[m.originalAgent.identifier]? = some a)
      (htag : m.rollbackTag ∉ alp.rollbackTagList) (hlvt : a.lvt < m.timestamp) :
      Transition alp (.receiveRollback m)
        { alp with rollbackTagList := alp.rollbackTagList ++ [m.rollbackTag] } (.processed false)
  | rollbackExecuted {alp : Alp} {a a'} (m : RollbackMessage)
      (ha : alp.agents[m.originalAgent.identifier]? = some a)
      (htag : m.rollbackTag ∉ alp.rollbackTagList) (hlvt : m.timestamp ≤ a.lvt)
      (ha' : a.rollbackTo m.timestamp = some a') :
      Transition alp (.receiveRollback m)
        { alp.setAgent m.originalAgent.identifier a' with
          sendMessageQueue := removeMessages m.originalAgent m.timestamp alp.sendMessageQueue ++
            antiMessages alp.gvt m.rollbackTag
              (rollbackSendList m.timestamp m.originalAgent alp.sendList).1
          sendList := (rollbackSendList m.timestamp m.originalAgent alp.sendList).2
          rollbackTagList := alp.rollbackTagList ++ [m.rollbackTag] }
        (.processed true)
  | setGvt {alp : Alp} (gvt) : Transition alp (.setGvt gvt) (alp.setGvt gvt) .done

private theorem transition_of_rollback {alp alp' : Alp} {m : RollbackMessage} {r : Result}
    (h : alp.step (.receiveRollback m) = some (alp', r)) :
    Transition alp (.receiveRollback m) alp' r := by
  obtain ⟨⟨s, b⟩, hs, heq⟩ := Option.map_eq_some_iff.mp h
  cases heq
  simp only [processRollback] at hs
  split at hs
  · cases hs
  · rename_i a ha
    by_cases htag : m.rollbackTag ∈ alp.rollbackTagList
    · simp only [checkRollbackTagList, htag, ite_true, Option.some.injEq, Prod.mk.injEq] at hs
      obtain ⟨rfl, rfl⟩ := hs
      exact .rollbackDuplicate m ha htag
    · simp only [checkRollbackTagList, htag, ite_false, Bool.false_eq_true] at hs
      split at hs
      · rename_i hlvt
        cases hs
        exact .rollbackTooLate m ha htag hlvt
      · rename_i hlvt
        obtain ⟨a', ha', heq⟩ := Option.map_eq_some_iff.mp hs
        cases heq
        exact .rollbackExecuted m ha htag (Nat.le_of_not_lt hlvt) ha'

theorem transition_of_step {alp alp' : Alp} {e : Event} {r : Result}
    (h : alp.step e = some (alp', r)) : Transition alp e alp' r := by
  cases e with
  | issue id kind timestamp =>
      obtain ⟨s, hs, heq⟩ := Option.map_eq_some_iff.mp h
      cases heq
      simp only [issue] at hs
      split at hs
      · cases hs
      · rename_i a ha
        split at hs
        · rename_i hok
          cases hs
          exact .issue id kind timestamp ha hok.1 hok.2
        · cases hs
  | timeWrap id t =>
      obtain ⟨s, hs, heq⟩ := Option.map_eq_some_iff.mp h
      cases heq
      simp only [timeWrap] at hs
      split at hs
      · cases hs
      · rename_i a ha
        split at hs
        · rename_i hidle
          cases hs
          exact .timeWrap id t ha hidle
        · cases hs
  | send =>
      obtain ⟨s, hs, heq⟩ := Option.map_eq_some_iff.mp h
      cases heq
      simp only [send] at hs
      split at hs
      · cases hs
      · rename_i m rest hqueue
        cases hs
        exact .sendAnti hqueue
      · rename_i m rest hqueue
        split at hs
        · cases hs
        · rename_i a ha
          cases hs
          exact .sendRequest hqueue ha
  | receiveResponse m =>
      obtain ⟨s, hs, heq⟩ := Option.map_eq_some_iff.mp h
      cases heq
      simp only [processResponse] at hs
      split at hs
      · cases hs
      · rename_i a ha
        split at hs
        · rename_i hid
          cases hs
          exact .responseStored m ha hid
        · rename_i hid
          cases hs
          exact .responseIgnored m ha hid
  | consume id =>
      obtain ⟨s, hs, heq⟩ := Option.map_eq_some_iff.mp h
      cases heq
      simp only [consume] at hs
      split at hs
      · cases hs
      · rename_i a ha
        split at hs
        · rename_i request response hwaiting hresponse
          split at hs
          · rename_i hok
            cases hs
            exact .consume id ha hwaiting hresponse hok.1
          · cases hs
        · cases hs
  | receiveRollback m => exact transition_of_rollback h
  | setGvt gvt =>
      obtain ⟨rfl, rfl⟩ : alp.setGvt gvt = alp' ∧ Result.done = r := by simpa [step] using h
      exact .setGvt gvt

end Alp
end PdesMas
