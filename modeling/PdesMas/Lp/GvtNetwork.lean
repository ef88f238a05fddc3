import PdesMas.Library.Pipes
import PdesMas.Lp.Alp
import PdesMas.Lp.GvtCalculator

/-!
The logical processes of one simulation while they compute GVT. An ALP is the
model of `Alp` with its agents; of a CLP only the queue is kept, and what it
answers to a message is part of the event; `systemStep` adds what it queues
otherwise. Links are queues, one for each pair of processes, up to the point where
the receiver takes a message. State migrations and range updates, which
`PreProcessSendMessage` never sees, are left out themselves.

The history of a process and of a message is the model's own. No step looks at
it; it says which messages and times a cut has taken account of.
-/

namespace PdesMas

def AlpMessage.timestamp : AlpMessage → Nat
  | .request m => m.timestamp
  | .anti m => m.timestamp

/-- `GetLvt`, with its assertion. -/
def Alp.getLvt (alp : Alp) : Option Nat :=
  let minimum := alp.agents.toList.foldl
    (fun minimum e => if e.2.lvt < minimum then e.2.lvt else minimum) ULONG_MAX
  if minimum ≠ ULONG_MAX then some minimum else none

namespace Gvt

inductive Payload where
  | agent (m : AlpMessage)
  | response (m : ResponseMessage)
  | rollback (m : RollbackMessage)
deriving DecidableEq, Repr

def Payload.timestamp : Payload → Nat
  | .agent m => m.timestamp
  | .response m => m.timestamp
  | .rollback m => m.timestamp

structure SimulationMessage where
  destination : Nat
  colour : MatternColour
  payload : Payload
deriving DecidableEq, Repr

def SimulationMessage.timestamp (m : SimulationMessage) : Nat := m.payload.timestamp

/-- A simulation message on a link. `epoch` counts the first cuts its sender had made.
`recorded` says that the red time of the sender covers it, or that the sender had
made its second cut. -/
structure Transmission where
  message : SimulationMessage
  epoch : Nat
  recorded : Bool
deriving DecidableEq, Repr

inductive Packet where
  | simulation (t : Transmission)
  | control (m : ControlMessage)

def Packet.control? : Packet → Option GvtControlMessage
  | .simulation _ => none
  | .control m => m.control?

inductive Process where
  | clp (gvt : Nat) (sendMessageQueue : List SimulationMessage)
  | alp (alp : Alp)

namespace Process

def getLvt : Process → Option Nat
  | .clp .. => some ULONG_MAX
  | .alp a => a.getLvt

def setGvt (gvt : Nat) : Process → Process
  | .clp _ queue => .clp gvt queue
  | .alp a => .alp (a.setGvt gvt)

/-- The timestamps of the messages queued for sending. -/
def queued : Process → List Nat
  | .clp _ queue => queue.map SimulationMessage.timestamp
  | .alp a => a.sendMessageQueue.map AlpMessage.timestamp

/-- A step of one of the agents of an ALP. -/
def agentStep : Process → Alp.Event → Option Process
  | .clp .., _ => none
  | .alp a, e =>
      match e with
      | .issue .. | .timeWrap .. | .consume .. => (a.step e).map fun r => .alp r.1
      | _ => none

/-- The part of `Send` that takes a simulation message from its queue. -/
def dequeue (parentClp : Nat) : Process → Option (Process × SimulationMessage)
  | .clp gvt queue =>
      match queue with
      | [] => none
      | m :: rest => some (.clp gvt rest, m)
  | .alp a => a.send.map fun r => (.alp r.1, ⟨parentClp, .WHITE, .agent r.2⟩)

/-- `Clp::Send` has no case for `RANGEQUERYANTIMESSAGE`. -/
def preProcesses : Process → Payload → Bool
  | .clp .., .agent (.anti m) =>
      match m.kind with
      | .rangeQueryAnti .. => false
      | _ => true
  | _, _ => true

/-- The rollback has set the LVT of its agent back to before its own time. -/
def restoredBefore (m : RollbackMessage) (executed : Bool) (a : Alp) : Bool :=
  match a.agents[m.originalAgent.identifier]? with
  | none => false
  | some agent => executed && decide (agent.lvt < m.timestamp)

/-- What `Receive` does with a simulation message, after `PreProcessReceiveMessage`,
and whether it has restored an LVT before the time of a rollback. A CLP answers
with messages that are not behind the one it takes; one it hands on without
`PreProcessSendMessage` keeps its colour. -/
def receive (m : SimulationMessage) (answers : List (Nat × Payload)) :
    Process → Option (Process × Bool)
  | .clp gvt queue =>
      if ∀ a ∈ answers, m.timestamp ≤ a.2.timestamp then
        some (.clp gvt (queue ++ answers.map fun a => ⟨a.1, m.colour, a.2⟩), false)
      else none
  | .alp a =>
      match m.payload with
      | .agent _ => none
      | .response r => (a.processResponse r).map fun a => (.alp a, false)
      | .rollback r =>
          (a.processRollback r).map fun p => (.alp p.1, restoredBefore r p.2 p.1)

/-- A CLP queues a message of its own, such as the rollbacks after a range update and after
a state migration. -/
def post (m : SimulationMessage) : Process → Option Process
  | .clp gvt queue => some (.clp gvt (queue ++ [m]))
  | .alp _ => none

end Process

/-- `epoch` counts the first cuts a process has made, and `settled` says that it has made
its second cut since. At `measured` its last cut left the control message. It is
`exposed` where something before these times may have come to it, or was left in its
queue by the cut or put there since. At its last first cut it `reported` the counts that it
added to those of the control message. -/
structure CutHistory where
  epoch : Nat
  settled : Bool
  exposed : Bool
  measured : Nat
  reported : Nat → Int

/-- No cut that the process has made takes account of the message. -/
def CutHistory.misses (h : CutHistory) (t : Transmission) : Bool :=
  decide (t.epoch < h.epoch) || (h.settled && !t.recorded)

structure Lp where
  calculator : GvtCalculator
  process : Process
  sendControlMessageQueue : List ControlMessage
  awaiting : Option GvtControlMessage
  history : CutHistory

namespace Lp

def apply (lp : Lp) (o : GvtCalculator.Outcome) : Lp :=
  { lp with
    calculator := o.calculator
    process :=
      match o.gvt with
      | none => lp.process
      | some gvt => lp.process.setGvt gvt
    sendControlMessageQueue := lp.sendControlMessageQueue ++ o.queued }

/-- The times at which the first cut leaves the control message. -/
def firstCutTimes (lvt : Nat) (m : GvtControlMessage) : Nat := min m.messageMinimumTime lvt

/-- The times at which the second cut leaves the control message. -/
def secondCutTimes (lp : Lp) (lvt : Nat) (m : GvtControlMessage) : Nat :=
  min (min m.messageMinimumTime lvt) (min m.redMessageTime lp.calculator.redTime)

/-- A message before `time` is still queued. -/
def leaves (lp : Lp) (time : Nat) : Bool := lp.process.queued.any fun t => decide (t < time)

def firstCut (lp : Lp) (m : GvtControlMessage) : Option (Lp × Option Nat) :=
  lp.process.getLvt.map fun lvt =>
    let o := lp.calculator.processFirstCut lvt m
    ({ lp.apply o with
        history := ⟨lp.history.epoch + 1, false, lp.leaves (firstCutTimes lvt m),
          firstCutTimes lvt m, lp.calculator.getWhiteTransientMessageCounter⟩ }, o.gvt)

def secondCut (lp : Lp) (m : GvtControlMessage) : Option (Lp × Option Nat) :=
  lp.process.getLvt.map fun lvt =>
    let o := lp.calculator.processSecondCut lvt m
    ({ lp.apply o with
        awaiting := none
        history := ⟨lp.history.epoch, true, lp.leaves (lp.secondCutTimes lvt m),
          lp.secondCutTimes lvt m, lp.history.reported⟩ }, o.gvt)

/-- `Send`: control messages go first. -/
def send (parentClp : Nat) (lp : Lp) : Option (Lp × Nat × Packet) :=
  match lp.sendControlMessageQueue with
  | m :: rest => some ({ lp with sendControlMessageQueue := rest }, m.destination, .control m)
  | [] => do
      let (process, m) ← lp.process.dequeue parentClp
      if lp.process.preProcesses m.payload then
        let calculator ← lp.calculator.preProcessSendMessage m.destination m.timestamp
        some ({ lp with calculator := calculator, process := process }, m.destination,
          .simulation ⟨{ m with colour := lp.calculator.colour }, lp.history.epoch,
            lp.history.settled || lp.calculator.colour == .RED⟩)
      else
        some ({ lp with process := process }, m.destination,
          .simulation ⟨m, lp.history.epoch, lp.history.settled⟩)

def receiveSimulation (t : Transmission) (answers : List (Nat × Payload)) (lp : Lp) :
    Option Lp :=
  (lp.process.receive t.message answers).map fun r =>
    { lp with
      calculator := lp.calculator.preProcessReceiveMessage t.message.colour
      process := r.1
      history :=
        { lp.history with exposed := lp.history.exposed || lp.history.misses t || r.2 } }

def receiveValue (m : GvtValueMessage) (lp : Lp) : Lp :=
  { lp with
    calculator := lp.calculator.processValue
    process := if lp.calculator.isGVTStarter then lp.process else lp.process.setGvt m.gvt }

/-- The thread of the process is in its main loop, or in that of the second cut with
messages outstanding. -/
def isReceiving (lp : Lp) : Bool :=
  match lp.awaiting with
  | none => true
  | some m => lp.calculator.isOutstanding m

/-- `Receive`. A control message never comes while the process has one. -/
def receive (packet : Packet) (answers : List (Nat × Payload)) (lp : Lp) :
    Option (Lp × Option Nat) :=
  match packet with
  | .simulation t => (lp.receiveSimulation t answers).map fun lp => (lp, none)
  | .control (.value m) => some (lp.receiveValue m, none)
  | .control (.control m) =>
      match lp.awaiting, m.matternCut with
      | some _, _ => none
      | none, .FIRST => lp.firstCut m
      | none, .SECOND => some ({ lp with awaiting := some m }, none)

/-- The end of the loop of the second cut, and the rest of it. -/
def complete (lp : Lp) : Option (Lp × Option Nat) :=
  match lp.awaiting with
  | none => none
  | some m => if lp.calculator.isOutstanding m then none else lp.secondCut m

def post (m : SimulationMessage) (lp : Lp) : Option Lp :=
  (lp.process.post m).map fun process =>
    { lp with
      process := process
      history :=
        { lp.history with
          exposed := lp.history.exposed || decide (m.timestamp < lp.history.measured) } }

/-- What goes out of a process, and what the process is then. -/
inductive Sends (parentClp : Nat) (lp : Lp) : Lp → Nat → Packet → Prop
  | control {m rest} (hqueue : lp.sendControlMessageQueue = m :: rest) :
      Sends parentClp lp { lp with sendControlMessageQueue := rest } m.destination (.control m)
  | message {process m calculator} (hcontrol : lp.sendControlMessageQueue = [])
      (hdequeue : lp.process.dequeue parentClp = some (process, m))
      (hpre : lp.process.preProcesses m.payload = true)
      (hsend : lp.calculator.preProcessSendMessage m.destination m.timestamp = some calculator) :
      Sends parentClp lp { lp with calculator := calculator, process := process } m.destination
        (.simulation ⟨{ m with colour := lp.calculator.colour }, lp.history.epoch,
          lp.history.settled || lp.calculator.colour == .RED⟩)
  | handOn {process m} (hcontrol : lp.sendControlMessageQueue = [])
      (hdequeue : lp.process.dequeue parentClp = some (process, m))
      (hpre : lp.process.preProcesses m.payload = false) :
      Sends parentClp lp { lp with process := process } m.destination
        (.simulation ⟨m, lp.history.epoch, lp.history.settled⟩)

/-- What the process is once it has taken a packet, and the GVT that is then set. -/
inductive Receives (lp : Lp) (answers : List (Nat × Payload)) :
    Packet → Lp → Option Nat → Prop
  | message {t process restored}
      (hreceive : lp.process.receive t.message answers = some (process, restored)) :
      Receives lp answers (.simulation t)
        { lp with
          calculator := lp.calculator.preProcessReceiveMessage t.message.colour
          process := process
          history :=
            { lp.history with
              exposed := lp.history.exposed || lp.history.misses t || restored } } none
  | value {m} : Receives lp answers (.control (.value m)) (lp.receiveValue m) none
  | firstCut {m lvt} (hcut : m.matternCut = .FIRST) (hawaiting : lp.awaiting = none)
      (hlvt : lp.process.getLvt = some lvt) :
      Receives lp answers (.control (.control m))
        { lp.apply (lp.calculator.processFirstCut lvt m) with
          history := ⟨lp.history.epoch + 1, false, lp.leaves (firstCutTimes lvt m),
            firstCutTimes lvt m, lp.calculator.getWhiteTransientMessageCounter⟩ }
        (lp.calculator.processFirstCut lvt m).gvt
  | await {m} (hcut : m.matternCut = .SECOND) (hawaiting : lp.awaiting = none) :
      Receives lp answers (.control (.control m)) { lp with awaiting := some m } none

section Inversion

variable {lp lp' : Lp} {parentClp destination : Nat} {packet : Packet}
  {answers : List (Nat × Payload)} {o : Option Nat}

theorem sends_of_send (h : lp.send parentClp = some (lp', destination, packet)) :
    lp.Sends parentClp lp' destination packet := by
  simp only [send] at h
  split at h
  · rename_i m rest hqueue
    cases h
    exact .control hqueue
  · rename_i hcontrol
    obtain ⟨⟨process, m⟩, hdequeue, h⟩ := Option.bind_eq_some_iff.mp h
    simp only at h
    split at h
    · rename_i hpre
      obtain ⟨calculator, hsend, h⟩ := Option.bind_eq_some_iff.mp h
      cases h
      exact .message hcontrol hdequeue hpre hsend
    · rename_i hpre
      cases h
      exact .handOn hcontrol hdequeue (Bool.eq_false_iff.mpr hpre)

theorem receives_of_receive (h : lp.receive packet answers = some (lp', o)) :
    lp.Receives answers packet lp' o := by
  simp only [receive] at h
  split at h
  · obtain ⟨lp₁, hlp₁, heq⟩ := Option.map_eq_some_iff.mp h
    cases heq
    obtain ⟨⟨process, restored⟩, hreceive, rfl⟩ := Option.map_eq_some_iff.mp hlp₁
    exact .message hreceive
  · cases h
    exact .value
  · split at h
    · cases h
    · rename_i hawaiting hcut
      obtain ⟨lvt, hlvt, heq⟩ := Option.map_eq_some_iff.mp h
      cases heq
      exact .firstCut hcut hawaiting hlvt
    · rename_i hawaiting hcut
      cases h
      exact .await hcut hawaiting

theorem exists_of_complete (h : lp.complete = some (lp', o)) :
    ∃ m lvt, lp.awaiting = some m ∧ lp.calculator.isOutstanding m = false ∧
      lp.process.getLvt = some lvt ∧ o = (lp.calculator.processSecondCut lvt m).gvt ∧
      lp' =
        { lp.apply (lp.calculator.processSecondCut lvt m) with
          awaiting := none
          history := ⟨lp.history.epoch, true, lp.leaves (lp.secondCutTimes lvt m),
            lp.secondCutTimes lvt m, lp.history.reported⟩ } := by
  simp only [complete] at h
  split at h
  · cases h
  · rename_i m hawaiting
    split at h
    · cases h
    · rename_i houtstanding
      obtain ⟨lvt, hlvt, heq⟩ := Option.map_eq_some_iff.mp h
      cases heq
      exact ⟨m, lvt, hawaiting, Bool.eq_false_iff.mpr houtstanding, hlvt, rfl, rfl⟩

end Inversion
end Lp

structure Setup where
  size : Nat
  parentClp : Nat → Nat

structure Network where
  lp : Nat → Lp
  link : Pipes Nat Packet

inductive Event where
  | agent (rank : Nat) (e : Alp.Event)
  | send (rank : Nat)
  | receive (rank source : Nat) (answers : List (Nat × Payload))
  | complete (rank : Nat)
  | request (rank : Nat)
deriving DecidableEq, Repr

/-- A step of one process of the network, or a message that a CLP queues besides its
answers to simulation messages. -/
inductive SystemEvent where
  | network (e : Event)
  | post (rank : Nat) (m : SimulationMessage)
deriving DecidableEq, Repr

namespace Network

def setLp (net : Network) (rank : Nat) (lp : Lp) : Network :=
  { net with lp := Function.update net.lp rank lp }

variable (setup : Setup)

def step (net : Network) : Event → Option (Network × Option Nat)
  | .agent rank e =>
      if rank < setup.size then
        ((net.lp rank).process.agentStep e).map fun process =>
          (net.setLp rank { net.lp rank with process := process }, none)
      else none
  | .send rank =>
      if rank < setup.size then do
        let (lp, destination, packet) ← (net.lp rank).send (setup.parentClp rank)
        if destination < setup.size then
          some ({ net.setLp rank lp with link := net.link.push rank destination packet }, none)
        else none
      else none
  | .receive rank source answers =>
      if rank < setup.size ∧ (net.lp rank).isReceiving = true then
        match net.link source rank with
        | [] => none
        | packet :: rest =>
            ((net.lp rank).receive packet answers).map fun r =>
              ({ net.setLp rank r.1 with link := net.link.put source rank rest }, r.2)
      else none
  | .complete rank =>
      if rank < setup.size then
        (net.lp rank).complete.map fun r => (net.setLp rank r.1, r.2)
      else none
  | .request rank =>
      if rank < setup.size ∧ (net.lp rank).isReceiving = true then
        some (net.setLp rank ((net.lp rank).apply (net.lp rank).calculator.processRequest), none)
      else none

def machine : Machine Network Event (Option Nat) := ⟨step setup⟩

def systemStep (net : Network) : SystemEvent → Option (Network × Option Nat)
  | .network e => net.step setup e
  | .post rank m =>
      if rank < setup.size then
        ((net.lp rank).post m).map fun lp => (net.setLp rank lp, none)
      else none

def systemMachine : Machine Network SystemEvent (Option Nat) := ⟨systemStep setup⟩

/-- One process is at work in a step, and on one link at most. -/
inductive Works (net : Network) : Event → Network → Option Nat → Prop
  | agent {rank e process} (hr : rank < setup.size)
      (hagent : (net.lp rank).process.agentStep e = some process) :
      Works net (.agent rank e) (net.setLp rank { net.lp rank with process := process }) none
  | send {rank lp destination packet} (hr : rank < setup.size) (hd : destination < setup.size)
      (hsend : (net.lp rank).send (setup.parentClp rank) = some (lp, destination, packet)) :
      Works net (.send rank)
        { net.setLp rank lp with link := net.link.push rank destination packet } none
  | receive {rank source answers packet rest lp o} (hr : rank < setup.size)
      (hreceiving : (net.lp rank).isReceiving = true)
      (hlink : net.link source rank = packet :: rest)
      (hreceive : (net.lp rank).receive packet answers = some (lp, o)) :
      Works net (.receive rank source answers)
        { net.setLp rank lp with link := net.link.put source rank rest } o
  | complete {rank lp o} (hr : rank < setup.size)
      (hcomplete : (net.lp rank).complete = some (lp, o)) :
      Works net (.complete rank) (net.setLp rank lp) o
  | request {rank} (hr : rank < setup.size) (hreceiving : (net.lp rank).isReceiving = true) :
      Works net (.request rank)
        (net.setLp rank ((net.lp rank).apply (net.lp rank).calculator.processRequest)) none

theorem works_of_step {setup : Setup} {net net' : Network} {e : Event} {o : Option Nat}
    (h : net.step setup e = some (net', o)) : Works setup net e net' o := by
  cases e with
  | agent rank e =>
      obtain ⟨hr, h⟩ := Option.ite_none_right_eq_some.mp h
      obtain ⟨process, hagent, heq⟩ := Option.map_eq_some_iff.mp h
      cases heq
      exact .agent hr hagent
  | send rank =>
      obtain ⟨hr, h⟩ := Option.ite_none_right_eq_some.mp h
      obtain ⟨⟨lp, destination, packet⟩, hsend, h⟩ := Option.bind_eq_some_iff.mp h
      obtain ⟨hd, h⟩ := Option.ite_none_right_eq_some.mp h
      cases h
      exact .send hr hd hsend
  | receive rank source answers =>
      obtain ⟨⟨hr, hreceiving⟩, h⟩ := Option.ite_none_right_eq_some.mp h
      split at h
      · cases h
      · rename_i packet rest hlink
        obtain ⟨⟨lp, o⟩, hreceive, heq⟩ := Option.map_eq_some_iff.mp h
        cases heq
        exact .receive hr hreceiving hlink hreceive
  | complete rank =>
      obtain ⟨hr, h⟩ := Option.ite_none_right_eq_some.mp h
      obtain ⟨⟨lp, o⟩, hcomplete, heq⟩ := Option.map_eq_some_iff.mp h
      cases heq
      exact .complete hr hcomplete
  | request rank =>
      obtain ⟨⟨hr, hreceiving⟩, h⟩ := Option.ite_none_right_eq_some.mp h
      cases h
      exact .request hr hreceiving

/-- The network that the constructors leave, of the given processes. -/
def create (process : Nat → Process) : Network where
  lp rank :=
    { calculator := .create rank setup.size
      process := process rank
      sendControlMessageQueue := []
      awaiting := none
      history := ⟨0, true, false, 0, fun _ => 0⟩ }
  link := fun _ _ => []

/-- Every calculator as its constructor leaves it and nothing on the way; the agents of
the ALPs may be anywhere. -/
structure Initial (net : Network) : Prop where
  calculator : ∀ rank, (net.lp rank).calculator = .create rank setup.size
  queued : ∀ rank, (net.lp rank).process.queued = []
  control : ∀ rank, (net.lp rank).sendControlMessageQueue = []
  awaiting : ∀ rank, (net.lp rank).awaiting = none
  history : ∀ rank, (net.lp rank).history = ⟨0, true, false, 0, fun _ => 0⟩
  link : ∀ source target, net.link source target = []

theorem initial_create {process : Nat → Process} (h : ∀ rank, (process rank).queued = []) :
    Initial setup (create setup process) :=
  ⟨fun _ => rfl, h, fun _ => rfl, fun _ => rfl, fun _ => rfl, fun _ _ => rfl⟩

/-- `gvt` is not above the LVT of an ALP, nor above the timestamp of a simulation message
that is queued for sending or on a link. -/
structure Bounds (gvt : Nat) (net : Network) : Prop where
  lvt : ∀ rank alp lvt, rank < setup.size → (net.lp rank).process = .alp alp →
    alp.getLvt = some lvt → gvt ≤ lvt
  queued : ∀ rank, rank < setup.size → ∀ t ∈ (net.lp rank).process.queued, gvt ≤ t
  inFlight : ∀ source target t, .simulation t ∈ net.link source target →
    gvt ≤ t.message.timestamp

end Network
end Gvt
end PdesMas
