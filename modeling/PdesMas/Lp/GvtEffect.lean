import PdesMas.Library.Token
import PdesMas.Lp.GvtNetwork

/-!
What a step of the network can do while GVT is computed, and where the control
message is. One constructor of `Transition` stands for each way through the
source; the steps that give a message or a cut to a calculator come with what
its functions do.
-/

namespace PdesMas.Gvt

/-- Where a control message can be. -/
inductive Station where
  | queue (rank : Nat)
  | link (source target : Nat)
  | awaiting (rank : Nat)
deriving DecidableEq, Repr

/-- A message for `destination` can be there. -/
def Station.LeadsTo (destination : Nat) : Station → Prop
  | .queue _ => True
  | .link _ target => target = destination
  | .awaiting rank => rank = destination

namespace Network

variable {setup : Setup} {net net' : Network} {e : Event} {o : Option Nat}

def controls (net : Network) : Station → List GvtControlMessage
  | .queue rank => (net.lp rank).sendControlMessageQueue.filterMap ControlMessage.control?
  | .link source target => (net.link source target).filterMap Packet.control?
  | .awaiting rank => (net.lp rank).awaiting.toList

theorem controls_of_queue {rank : Nat} {m : GvtControlMessage} {rest : List ControlMessage}
    (hqueue : (net.lp rank).sendControlMessageQueue = .control m :: rest) :
    net.controls (.queue rank) = m :: rest.filterMap ControlMessage.control? := by
  simp [controls, hqueue, ControlMessage.control?]

theorem controls_of_link {source rank : Nat} {m : GvtControlMessage} {rest : List Packet}
    (hlink : net.link source rank = .control (.control m) :: rest) :
    net.controls (.link source rank) = m :: rest.filterMap Packet.control? := by
  simp [controls, hlink, Packet.control?, ControlMessage.control?]

theorem mem_controls_queue {rank : Nat} {m : GvtControlMessage} {rest : List ControlMessage}
    (hqueue : (net.lp rank).sendControlMessageQueue = .control m :: rest) :
    m ∈ net.controls (.queue rank) := by
  simp [controls_of_queue hqueue]

theorem mem_controls_link {source rank : Nat} {m : GvtControlMessage} {rest : List Packet}
    (hlink : net.link source rank = .control (.control m) :: rest) :
    m ∈ net.controls (.link source rank) := by
  simp [controls_of_link hlink]

theorem mem_controls_awaiting {rank : Nat} {m : GvtControlMessage}
    (hawaiting : (net.lp rank).awaiting = some m) : m ∈ net.controls (.awaiting rank) := by
  simp [controls, hawaiting]

@[simp] theorem setLp_lp_self (net : Network) (rank : Nat) (lp : Lp) :
    (net.setLp rank lp).lp rank = lp := Function.update_self ..

theorem setLp_lp_of_ne (net : Network) {rank i : Nat} (lp : Lp) (h : i ≠ rank) :
    (net.setLp rank lp).lp i = net.lp i := Function.update_of_ne h ..

@[simp] theorem setLp_link (net : Network) (rank : Nat) (lp : Lp) :
    (net.setLp rank lp).link = net.link := rfl

inductive Transition (setup : Setup) : Network → Event → Network → Option Nat → Prop
  | agent {net : Network} {rank e process} (hr : rank < setup.size)
      (hstep : (net.lp rank).process.agentStep e = some process) :
      Transition setup net (.agent rank e)
        (net.setLp rank { net.lp rank with process := process }) none
  | sendControl {net : Network} {rank m rest} (hr : rank < setup.size)
      (hd : m.destination < setup.size)
      (hqueue : (net.lp rank).sendControlMessageQueue = m :: rest) :
      Transition setup net (.send rank)
        { net.setLp rank { net.lp rank with sendControlMessageQueue := rest } with
          link := net.link.push rank m.destination (.control m) } none
  | sendMessage {net : Network} {rank process calculator m} {t : Transmission}
      (hr : rank < setup.size) (hd : m.destination < setup.size)
      (hdequeue : (net.lp rank).process.dequeue (setup.parentClp rank) = some (process, m))
      (hkeeps : (net.lp rank).calculator.Keeps calculator)
      (htime : t.message.timestamp = m.timestamp) (hepoch : t.epoch = (net.lp rank).history.epoch)
      (hrecorded : t.recorded = true → (net.lp rank).history.settled = false →
        calculator.redTime ≤ t.message.timestamp) :
      Transition setup net (.send rank)
        { net.setLp rank { net.lp rank with calculator := calculator, process := process } with
          link := net.link.push rank m.destination (.simulation t) } none
  | receiveMessage {net : Network} {rank source t rest answers process restored}
      (hr : rank < setup.size) (hlink : net.link source rank = .simulation t :: rest)
      (hreceive : (net.lp rank).process.receive t.message answers = some (process, restored)) :
      Transition setup net (.receive rank source answers)
        { net.setLp rank
            { net.lp rank with
              calculator :=
                (net.lp rank).calculator.preProcessReceiveMessage t.message.colour
              process := process
              history :=
                { (net.lp rank).history with
                  exposed := (net.lp rank).history.exposed ||
                    (net.lp rank).history.misses t || restored } } with
          link := net.link.put source rank rest } none
  | receiveValue {net : Network} {rank source m rest answers} (hr : rank < setup.size)
      (hlink : net.link source rank = .control (.value m) :: rest) :
      Transition setup net (.receive rank source answers)
        { net.setLp rank ((net.lp rank).receiveValue m) with
          link := net.link.put source rank rest } none
  | firstCut {net : Network} {rank source m rest answers lvt} (hr : rank < setup.size)
      (hlink : net.link source rank = .control (.control m) :: rest)
      (hcut : m.matternCut = .FIRST) (hawaiting : (net.lp rank).awaiting = none)
      (hlvt : (net.lp rank).process.getLvt = some lvt) :
      Transition setup net (.receive rank source answers)
        { net.setLp rank
            { (net.lp rank).apply ((net.lp rank).calculator.processFirstCut lvt m) with
              history := ⟨(net.lp rank).history.epoch + 1, false,
                (net.lp rank).leaves (Lp.firstCutTimes lvt m), Lp.firstCutTimes lvt m,
                (net.lp rank).calculator.getWhiteTransientMessageCounter⟩ } with
          link := net.link.put source rank rest }
        ((net.lp rank).calculator.processFirstCut lvt m).gvt
  | await {net : Network} {rank source m rest answers} (hr : rank < setup.size)
      (hlink : net.link source rank = .control (.control m) :: rest)
      (hcut : m.matternCut = .SECOND) (hawaiting : (net.lp rank).awaiting = none) :
      Transition setup net (.receive rank source answers)
        { net.setLp rank { net.lp rank with awaiting := some m } with
          link := net.link.put source rank rest } none
  | complete {net : Network} {rank m lvt} (hr : rank < setup.size)
      (hawaiting : (net.lp rank).awaiting = some m)
      (hlvt : (net.lp rank).process.getLvt = some lvt) :
      Transition setup net (.complete rank)
        (net.setLp rank
          { (net.lp rank).apply ((net.lp rank).calculator.processSecondCut lvt m) with
            awaiting := none
            history := ⟨(net.lp rank).history.epoch, true,
              (net.lp rank).leaves ((net.lp rank).secondCutTimes lvt m),
              (net.lp rank).secondCutTimes lvt m, (net.lp rank).history.reported⟩ })
        ((net.lp rank).calculator.processSecondCut lvt m).gvt
  | request {net : Network} {rank} (hr : rank < setup.size) :
      Transition setup net (.request rank)
        (net.setLp rank ((net.lp rank).apply (net.lp rank).calculator.processRequest)) none

private theorem transition_of_send {rank destination : Nat} {lp : Lp} {packet : Packet}
    (hr : rank < setup.size) (hd : destination < setup.size)
    (h : (net.lp rank).send (setup.parentClp rank) = some (lp, destination, packet)) :
    Transition setup net (.send rank)
      { net.setLp rank lp with link := net.link.push rank destination packet } none := by
  cases Lp.sends_of_send h with
  | control hqueue => exact .sendControl hr hd hqueue
  | message hcontrol hdequeue hpre hsend =>
      obtain ⟨hkeeps, hred⟩ := GvtCalculator.keeps_preProcessSendMessage hsend
      refine .sendMessage hr hd hdequeue hkeeps rfl rfl ?_
      intro hrecorded hsettled
      exact hred (by simpa [hsettled] using hrecorded)
  | handOn hcontrol hdequeue hpre =>
      refine .sendMessage hr hd hdequeue (.refl _) rfl rfl ?_
      intro hrecorded hsettled
      rw [hsettled] at hrecorded
      cases hrecorded

private theorem transition_of_receive {rank source : Nat} {answers : List (Nat × Payload)}
    {packet : Packet} {rest : List Packet} {lp : Lp} (hr : rank < setup.size)
    (hlink : net.link source rank = packet :: rest)
    (h : (net.lp rank).receive packet answers = some (lp, o)) :
    Transition setup net (.receive rank source answers)
      { net.setLp rank lp with link := net.link.put source rank rest } o := by
  cases Lp.receives_of_receive h with
  | message hreceive => exact .receiveMessage hr hlink hreceive
  | value => exact .receiveValue hr hlink
  | firstCut hcut hawaiting hlvt => exact .firstCut hr hlink hcut hawaiting hlvt
  | await hcut hawaiting => exact .await hr hlink hcut hawaiting

theorem transition_of_step (h : net.step setup e = some (net', o)) :
    Transition setup net e net' o := by
  cases works_of_step h with
  | agent hr hagent => exact .agent hr hagent
  | send hr hd hsend => exact transition_of_send hr hd hsend
  | receive hr hreceiving hlink hreceive => exact transition_of_receive hr hlink hreceive
  | complete hr hcomplete =>
      obtain ⟨m, lvt, hawaiting, _, hlvt, rfl, rfl⟩ := Lp.exists_of_complete hcomplete
      exact .complete hr hawaiting hlvt
  | request hr hreceiving => exact .request hr

end Network
end PdesMas.Gvt
