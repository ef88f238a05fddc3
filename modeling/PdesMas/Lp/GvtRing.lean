import PdesMas.Lp.GvtCuts
import PdesMas.Lp.GvtFastPath

/-!
The control message of a whole system goes round the ring in the same way, whatever
the CLPs send besides their answers. A step leaves the round as it is, begins one,
or takes one of the cuts on from a process to the next.
-/

namespace PdesMas
namespace GvtCalculator

variable {g : GvtCalculator}

theorem addMessageCounts_red (g : GvtCalculator) (m : GvtControlMessage) :
    (g.addMessageCounts m).redMessageTime = m.redMessageTime := by
  simp only [addMessageCounts]
  generalize List.range g.size = l
  induction l generalizing m with
  | nil => rfl
  | cons lp l ih => exact ih (m.setMessageCount lp _)

theorem count_firstCut (m : GvtControlMessage) (lvt : Nat) {target : Nat}
    (htarget : target < g.size) :
    (g.addMessageCounts (m.lowerMinimum lvt)).getMessageCount target =
      toInt32 (m.getMessageCount target + g.getWhiteTransientMessageCounter target) := by
  rw [getMessageCount_addMessageCounts g _ htarget, getMessageCount_lowerMinimum]

theorem red_firstCut (m : GvtControlMessage) (lvt : Nat) :
    (g.addMessageCounts (m.lowerMinimum lvt)).redMessageTime = m.redMessageTime := by
  rw [addMessageCounts_red, GvtControlMessage.lowerMinimum_eq]

/-- What becomes of counts, red times and colour in a first cut that goes on. -/
theorem processFirstCut_counts {lvt : Nat} {m : GvtControlMessage}
    (h : g.endsWithFirstCut lvt m = false) :
    ∃ m', (g.processFirstCut lvt m).Passes g m' ∧
      m'.matternCut = (if g.isGVTStarter then .SECOND else m.matternCut) ∧
      m'.redMessageTime = m.redMessageTime ∧
      (∀ target, target < g.size → m'.getMessageCount target =
        toInt32 (m.getMessageCount target + g.getWhiteTransientMessageCounter target)) ∧
      (g.processFirstCut lvt m).calculator.colour = .RED := by
  by_cases hstarter : g.isGVTStarter = true
  · have hremaining : g.hasWhiteTransientsRemaining
        (g.addMessageCounts (m.lowerMinimum lvt)) = true := by
      simpa [endsWithFirstCut, hstarter] using h
    have heq : g.processFirstCut lvt m = { g with colour := .RED, redTime := LONG_MAX }.passOn
        { g.addMessageCounts (m.lowerMinimum lvt) with matternCut := .SECOND } :=
      (if_pos hstarter).trans (if_pos hremaining)
    rw [heq, if_pos hstarter]
    exact ⟨_, ⟨rfl, rfl, rfl, rfl, rfl, rfl⟩, rfl, red_firstCut m lvt,
      fun target htarget => count_firstCut m lvt htarget, rfl⟩
  · have hcut : (g.addMessageCounts (m.lowerMinimum lvt)).matternCut = m.matternCut := by
      rw [addMessageCounts_cut, GvtControlMessage.lowerMinimum_eq]
    rw [processFirstCut_of_not_starter (eq_false_of_ne_true hstarter), if_neg hstarter]
    exact ⟨_, ⟨rfl, rfl, rfl, rfl, rfl, rfl⟩, hcut, red_firstCut m lvt,
      fun target htarget => count_firstCut m lvt htarget, rfl⟩

theorem colour_processSecondCut (g : GvtCalculator) (lvt : Nat) (m : GvtControlMessage) :
    (g.processSecondCut lvt m).calculator.colour = .WHITE := by
  simp only [processSecondCut]
  split
  · rfl
  · rfl

theorem processSecondCut_counts {lvt : Nat} {m : GvtControlMessage}
    (h : g.isGVTStarter = false) :
    ∃ m', (g.processSecondCut lvt m).Passes g m' ∧ m'.matternCut = m.matternCut ∧
      m'.redMessageTime = min m.redMessageTime g.redTime ∧
      ∀ target, target ≠ g.rank → m'.getMessageCount target = m.getMessageCount target := by
  have heq : g.processSecondCut lvt m = { g with colour := .WHITE }.passOn
      (((m.lowerMinimum lvt).lowerRed g.redTime).setMessageCount g.rank 0) :=
    if_neg (ne_true_of_eq_false h)
  rw [heq]
  refine ⟨_, ⟨rfl, rfl, rfl, rfl, rfl, rfl⟩, ?_, ?_, ?_⟩
  · simp only [GvtControlMessage.lowerMinimum_eq, GvtControlMessage.lowerRed_eq,
      GvtControlMessage.setMessageCount_cut]
  · simp only [GvtControlMessage.lowerMinimum_eq, GvtControlMessage.lowerRed_eq,
      GvtControlMessage.setMessageCount_red]
  · intro target htarget
    have hset := getMessageCount_setMessageCount ((m.lowerMinimum lvt).lowerRed g.redTime)
      g.rank target 0
    rw [if_neg htarget] at hset
    refine hset.trans ?_
    rw [GvtControlMessage.lowerRed_eq]
    exact getMessageCount_lowerMinimum m lvt target

end GvtCalculator

namespace Gvt

def Packet.simulation? : Packet → Option Transmission
  | .simulation t => some t
  | .control _ => none

namespace Network

/-- A step of the system that takes no cut on. Unlike `Transition` this keeps the colours,
and what the process was doing. -/
inductive Plain (setup : Setup) : Network → SystemEvent → Network → Prop
  | agent {net : Network} {rank e process} (hr : rank < setup.size) :
      Plain setup net (.network (.agent rank e))
        (net.setLp rank { net.lp rank with process := process })
  | post {net : Network} {rank m process exposed} (hr : rank < setup.size)
      (hexposed : (net.lp rank).history.exposed = true → exposed = true) :
      Plain setup net (.post rank m)
        (net.setLp rank
          { net.lp rank with
            process := process
            history := { (net.lp rank).history with exposed := exposed } })
  | sendControl {net : Network} {rank m rest} (hr : rank < setup.size)
      (hd : m.destination < setup.size)
      (hqueue : (net.lp rank).sendControlMessageQueue = m :: rest) :
      Plain setup net (.network (.send rank))
        { net.setLp rank { net.lp rank with sendControlMessageQueue := rest } with
          link := net.link.push rank m.destination (.control m) }
  | sendMessage {net : Network} {rank process calculator} {m : SimulationMessage}
      (hr : rank < setup.size) (hd : m.destination < setup.size)
      (hpre : ∀ gvt n rest, (net.lp rank).process = .clp gvt (n :: rest) →
        (net.lp rank).process.preProcesses n.payload = true)
      (hsend : (net.lp rank).calculator.preProcessSendMessage m.destination m.timestamp =
        some calculator) :
      Plain setup net (.network (.send rank))
        { net.setLp rank { net.lp rank with calculator := calculator, process := process } with
          link := net.link.push rank m.destination
            (.simulation ⟨{ m with colour := (net.lp rank).calculator.colour },
              (net.lp rank).history.epoch,
              (net.lp rank).history.settled || (net.lp rank).calculator.colour == .RED⟩) }
  | handOn {net : Network} {rank gvt rest} {m : SimulationMessage}
      (hr : rank < setup.size) (hd : m.destination < setup.size)
      (hprocess : (net.lp rank).process = .clp gvt (m :: rest))
      (hcontrol : (net.lp rank).sendControlMessageQueue = [])
      (hpre : (net.lp rank).process.preProcesses m.payload = false) :
      Plain setup net (.network (.send rank))
        { net.setLp rank { net.lp rank with process := .clp gvt rest } with
          link := net.link.push rank m.destination
            (.simulation ⟨m, (net.lp rank).history.epoch, (net.lp rank).history.settled⟩) }
  | receiveMessage {net : Network} {rank source t rest answers process exposed}
      (hr : rank < setup.size) (hreceiving : (net.lp rank).isReceiving = true)
      (hlink : net.link source rank = .simulation t :: rest)
      (hexposed : (net.lp rank).history.exposed = true → exposed = true) :
      Plain setup net (.network (.receive rank source answers))
        { net.setLp rank
            { net.lp rank with
              calculator :=
                (net.lp rank).calculator.preProcessReceiveMessage t.message.colour
              process := process
              history := { (net.lp rank).history with exposed := exposed } } with
          link := net.link.put source rank rest }
  | receiveValue {net : Network} {rank source m rest answers} (hr : rank < setup.size)
      (hlink : net.link source rank = .control (.value m) :: rest) :
      Plain setup net (.network (.receive rank source answers))
        { net.setLp rank ((net.lp rank).receiveValue m) with
          link := net.link.put source rank rest }
  | await {net : Network} {rank source m rest answers} (hr : rank < setup.size)
      (hlink : net.link source rank = .control (.control m) :: rest)
      (hcut : m.matternCut = .SECOND) (hawaiting : (net.lp rank).awaiting = none) :
      Plain setup net (.network (.receive rank source answers))
        { net.setLp rank { net.lp rank with awaiting := some m } with
          link := net.link.put source rank rest }
  | ignored {net : Network} {rank}
      (hignored : ¬ ((net.lp rank).calculator.isGVTStarter = true ∧
        (net.lp rank).calculator.isAcceptingRequests = true)) :
      Plain setup net (.network (.request rank)) net

inductive SystemTransition (setup : Setup) : Network → SystemEvent → Network → Prop
  | plain {net net' : Network} {e} (h : Plain setup net e net') : SystemTransition setup net e net'
  | firstCut {net : Network} {rank source m rest answers lvt exposed measured}
      (hr : rank < setup.size)
      (hlink : net.link source rank = .control (.control m) :: rest)
      (hcut : m.matternCut = .FIRST) (hawaiting : (net.lp rank).awaiting = none) :
      SystemTransition setup net (.network (.receive rank source answers))
        { net.setLp rank
            { (net.lp rank).apply ((net.lp rank).calculator.processFirstCut lvt m) with
              history := ⟨(net.lp rank).history.epoch + 1, false, exposed, measured,
                (net.lp rank).calculator.getWhiteTransientMessageCounter⟩ } with
          link := net.link.put source rank rest }
  | complete {net : Network} {rank m lvt exposed measured} (hr : rank < setup.size)
      (hawaiting : (net.lp rank).awaiting = some m)
      (houtstanding : (net.lp rank).calculator.isOutstanding m = false) :
      SystemTransition setup net (.network (.complete rank))
        (net.setLp rank
          { (net.lp rank).apply ((net.lp rank).calculator.processSecondCut lvt m) with
            awaiting := none
            history := ⟨(net.lp rank).history.epoch, true, exposed, measured,
              (net.lp rank).history.reported⟩ })
  | begins {net : Network} {rank} (hr : rank < setup.size)
      (hbegins : (net.lp rank).calculator.isGVTStarter = true ∧
        (net.lp rank).calculator.isAcceptingRequests = true) :
      SystemTransition setup net (.network (.request rank))
        (net.setLp rank ((net.lp rank).apply (net.lp rank).calculator.processRequest))

section Transition

variable {setup : Setup} {net net' : Network} {e : SystemEvent} {o : Option Nat}

/-- An ignored request changes nothing. -/
theorem apply_nothing (net : Network) (rank : Nat) :
    net.setLp rank ((net.lp rank).apply ⟨(net.lp rank).calculator, [], none⟩) = net := by
  simp [Lp.apply, setLp]

private theorem system_of_send {rank destination : Nat} {lp : Lp} {packet : Packet}
    (hr : rank < setup.size) (hd : destination < setup.size)
    (h : (net.lp rank).send (setup.parentClp rank) = some (lp, destination, packet)) :
    SystemTransition setup net (.network (.send rank))
      { net.setLp rank lp with link := net.link.push rank destination packet } := by
  cases Lp.sends_of_send h with
  | control hqueue => exact .plain (.sendControl hr hd hqueue)
  | message hcontrol hdequeue hpre hsend =>
      refine .plain (.sendMessage hr hd ?_ hsend)
      intro gvt n rest hprocess
      rw [hprocess] at hdequeue
      cases hdequeue
      exact hpre
  | handOn hcontrol hdequeue hpre =>
      obtain ⟨gvt, rest, hprocess⟩ := Lp.clp_of_not_preProcesses hdequeue hpre
      rw [hprocess] at hdequeue
      cases hdequeue
      exact .plain (.handOn hr hd hprocess hcontrol hpre)

private theorem system_of_receive {rank source : Nat} {answers : List (Nat × Payload)}
    {packet : Packet} {rest : List Packet} {lp : Lp} (hr : rank < setup.size)
    (hreceiving : (net.lp rank).isReceiving = true)
    (hlink : net.link source rank = packet :: rest)
    (h : (net.lp rank).receive packet answers = some (lp, o)) :
    SystemTransition setup net (.network (.receive rank source answers))
      { net.setLp rank lp with link := net.link.put source rank rest } := by
  cases Lp.receives_of_receive h with
  | message hreceive =>
      refine .plain (.receiveMessage hr hreceiving hlink ?_)
      intro hexposed
      simp [hexposed]
  | value => exact .plain (.receiveValue hr hlink)
  | firstCut hcut hawaiting hlvt => exact .firstCut hr hlink hcut hawaiting
  | await hcut hawaiting => exact .plain (.await hr hlink hcut hawaiting)

theorem system_of_step (h : net.systemStep setup e = some (net', o)) :
    SystemTransition setup net e net' := by
  cases e with
  | post rank m =>
      simp only [systemStep] at h
      split at h
      · rename_i hr
        obtain ⟨lp, hpost, heq⟩ := Option.map_eq_some_iff.mp h
        cases heq
        obtain ⟨process, _, rfl⟩ := Option.map_eq_some_iff.mp hpost
        refine .plain (.post hr ?_)
        intro hexposed
        simp [hexposed]
      · cases h
  | network e =>
      change net.step setup e = some (net', o) at h
      cases works_of_step h with
      | agent hr hagent => exact .plain (.agent hr)
      | send hr hd hsend => exact system_of_send hr hd hsend
      | receive hr hreceiving hlink hreceive => exact system_of_receive hr hreceiving hlink hreceive
      | complete hr hcomplete =>
          obtain ⟨m, lvt, hawaiting, houtstanding, _, _, rfl⟩ := Lp.exists_of_complete hcomplete
          exact .complete hr hawaiting houtstanding
      | @request rank hr hreceiving =>
          by_cases hbegins : (net.lp rank).calculator.isGVTStarter = true ∧
              (net.lp rank).calculator.isAcceptingRequests = true
          · exact .begins hr hbegins
          · rw [GvtCalculator.processRequest_ignored hbegins, apply_nothing]
            exact .plain (.ignored hbegins)

end Transition

/-- What holds of the ring in every reachable state. -/
structure Orderly (setup : Setup) (net : Network) : Prop where
  placed : net.Placed setup
  logged : net.Logged setup
  phase : ∃ R, net.Idle setup R ∨ ∃ station m p, Circulates setup net R station m p

/-- The round, or the rest between two, goes on. -/
structure Stays (setup : Setup) (net net' : Network) : Prop where
  ordinary : Ordinary net net'
  idle : ∀ R, net.Idle setup R → net'.Idle setup R
  circulates : ∀ R station m p, Circulates setup net R station m p →
    ∃ station', Circulates setup net' R station' m p

variable {setup : Setup} {net net' : Network} {e : SystemEvent} {o : Option Nat}

/-- The control message stays where it is. -/
theorem stays_of_controls (ho : Ordinary net net')
    (hcontrols : ∀ s, net'.controls s = net.controls s) : Stays setup net net' where
  ordinary := ho
  idle _ h := h.ordinary ho hcontrols
  circulates _ station _ _ h :=
    ⟨station, h.ordinary ho (h.token.congr hcontrols) h.leadsTo h.waits⟩

/-- The control message goes to another station. -/
theorem stays_of_moved (ho : Ordinary net net') (s s' : Station) {m : GvtControlMessage}
    (hm : m ∈ net.controls s) (hleads : s.LeadsTo m.destination → s'.LeadsTo m.destination)
    (hwaits : ∀ rank, s' = .awaiting rank → m.matternCut = .SECOND)
    (htoken : Token.At net.controls s m → Token.At net'.controls s' m) :
    Stays setup net net' where
  ordinary := ho
  idle _ h := absurd hm h.token.not_mem
  circulates _ station m' _ h := by
    obtain ⟨rfl, rfl⟩ := h.token.of_mem hm
    exact ⟨s', h.ordinary ho (htoken h.token) (hleads h.leadsTo) hwaits⟩

theorem Plain.stays (h : Plain setup net e net') : Stays setup net net' := by
  cases h with
  | agent hr =>
      refine stays_of_controls (ordinary_setLp (.refl _) rfl rfl id) ?_
      exact fun s => controls_frame s (fun _ => rfl) (fun _ => rfl) fun _ _ _ => rfl
  | post hr hexposed =>
      refine stays_of_controls (ordinary_setLp (.refl _) rfl rfl hexposed) ?_
      exact fun s => controls_frame s (fun _ => rfl) (fun _ => rfl) fun _ _ _ => rfl
  | @sendControl rank m rest hr hd hqueue =>
      have ho : Ordinary net
          { net.setLp rank { net.lp rank with sendControlMessageQueue := rest } with
            link := net.link.push rank m.destination (.control m) } :=
        ordinary_setLp (.refl _) rfl rfl id
      cases m with
      | value m =>
          refine stays_of_controls ho fun s => controls_frame s ?_ (fun _ => rfl) ?_
          · intro _
            rw [hqueue]
            rfl
          · exact fun i j _ => Pipes.filterMap_push net.link rfl i j
      | control m =>
          have hm : m ∈ net.controls (.queue rank) := mem_controls_queue hqueue
          exact stays_of_moved ho (.queue rank) (.link rank m.destination) hm (fun _ => rfl)
            (by simp) (token_sendControl hqueue)
  | sendMessage hr hd hpre hsend =>
      have hkeeps := (GvtCalculator.keeps_preProcessSendMessage hsend).1
      refine stays_of_controls (ordinary_setLp hkeeps rfl rfl id) ?_
      exact fun s => controls_frame s (fun _ => rfl) (fun _ => rfl)
        fun i j _ => Pipes.filterMap_push net.link rfl i j
  | handOn hr hd hprocess hcontrol hpre =>
      refine stays_of_controls (ordinary_setLp (.refl _) rfl rfl id) ?_
      exact fun s => controls_frame s (fun _ => rfl) (fun _ => rfl)
        fun i j _ => Pipes.filterMap_push net.link rfl i j
  | receiveMessage hr hreceiving hlink hexposed =>
      have hkeeps := GvtCalculator.keeps_preProcessReceiveMessage
      refine stays_of_controls (ordinary_setLp (hkeeps _ _) rfl rfl hexposed) ?_
      exact fun s => controls_frame s (fun _ => rfl) (fun _ => rfl)
        fun i j _ => Pipes.filterMap_put hlink rfl i j
  | receiveValue hr hlink =>
      have hkeeps := GvtCalculator.keeps_processValue
      refine stays_of_controls (ordinary_setLp (hkeeps _) rfl rfl id) ?_
      exact fun s => controls_frame s (fun _ => rfl) (fun _ => rfl)
        fun i j _ => Pipes.filterMap_put hlink rfl i j
  | @await rank source m rest answers hr hlink hcut hawaiting =>
      have hm : m ∈ net.controls (.link source rank) := mem_controls_link hlink
      exact stays_of_moved (ordinary_setLp (.refl _) rfl rfl id) (.link source rank)
        (.awaiting rank) hm id (fun _ _ => hcut) (token_await hlink)
  | ignored hignored =>
      exact stays_of_controls ⟨fun _ => .refl _, fun _ => rfl, fun _ => rfl, fun _ => id⟩
        fun _ => rfl

theorem mem_simulations {l : List Packet} {t : Transmission} :
    t ∈ l.filterMap Packet.simulation? ↔ .simulation t ∈ l := by
  rw [List.mem_filterMap]
  constructor
  · rintro ⟨packet, hmem, heq⟩
    cases packet with
    | simulation t' =>
        cases heq
        exact hmem
    | control m => cases heq
  · exact fun h => ⟨.simulation t, h, rfl⟩

/-- The process `rank` takes a control message, or ends its wait for the second cut, and
leaves what is on the links and in the counters. -/
structure Cuts (net : Network) (e : SystemEvent) (net' : Network) (rank epoch : Nat)
    (settled : Bool) : Prop where
  event : e = .network (.complete rank) ∨ ∃ source answers m rest,
    e = .network (.receive rank source answers) ∧
      net.link source rank = .control (.control m) :: rest
  counters : (net.lp rank).calculator.SameCounters (net'.lp rank).calculator
  size : (net'.lp rank).calculator.size = (net.lp rank).calculator.size
  others : ∀ i, i ≠ rank → net'.lp i = net.lp i
  epochAfter : (net'.lp rank).history.epoch = epoch
  settledAfter : (net'.lp rank).history.settled = settled
  white : settled = true → (net'.lp rank).calculator.colour = .WHITE
  flight : ∀ i j, (net'.link i j).filterMap Packet.simulation? =
    (net.link i j).filterMap Packet.simulation?

/-- What a step does to the round. -/
inductive RingStep (setup : Setup) (net : Network) (e : SystemEvent) (net' : Network) : Prop
  | plain (h : Plain setup net e net') (hstays : Stays setup net net')
  | begins {R : Nat} {m : GvtControlMessage} (hevent : e = .network (.request 0))
      (hstarts : (net.lp 0).calculator.isGVTStarter = true ∧
        (net.lp 0).calculator.isAcceptingRequests = true)
      (hidle : net.Idle setup R) (hnew : Circulates setup net' R (.queue 0) m 1)
      (hcut : m.matternCut = .FIRST)
      (hcount : ∀ target, target < setup.size → m.getMessageCount target = 0)
      (hcalculator : (net'.lp 0).calculator =
        { (net.lp 0).calculator with isAcceptingRequests := false, colour := .WHITE })
      (hothers : ∀ i, i ≠ 0 → net'.lp i = net.lp i)
      (hhistory : ∀ i, (net'.lp i).history = (net.lp i).history)
      (hlink : net'.link = net.link)
  | first {R p p' rank : Nat} {station station' : Station} {m m' : GvtControlMessage}
      (hr : rank < setup.size) (hround : Circulates setup net R station m p)
      (hcut : m.matternCut = .FIRST) (hnew : Circulates setup net' R station' m' p')
      (hcuts : Cuts net e net' rank (R + 1) false)
      (hepoch : (net.lp rank).history.epoch = R)
      (hcount : ∀ target, target < setup.size → m'.getMessageCount target =
        toInt32 (m.getMessageCount target +
          (net.lp rank).calculator.getWhiteTransientMessageCounter target))
      (hreported : (net'.lp rank).history.reported =
        (net.lp rank).calculator.getWhiteTransientMessageCounter)
      (hred : m'.redMessageTime = m.redMessageTime)
      (hcolour : (net'.lp rank).calculator.colour = .RED)
  | second {R p : Nat} {station : Station} {m m' : GvtControlMessage}
      (hr : p < setup.size) (hround : Circulates setup net R station m p)
      (hcut : m.matternCut = .SECOND) (hnew : Circulates setup net' R (.queue p) m' (p + 1))
      (hcut' : m'.matternCut = .SECOND) (hcuts : Cuts net e net' p (R + 1) true)
      (hcount : ∀ target, target ≠ p → m'.getMessageCount target = m.getMessageCount target)
      (hreported : (net'.lp p).history.reported = (net.lp p).history.reported)
      (hred : m'.redMessageTime = min m.redMessageTime (net.lp p).calculator.redTime)
  | ends {R : Nat} {station : Station} {m : GvtControlMessage} {settled : Bool}
      (hr : 0 < setup.size) (hround : Circulates setup net R station m setup.size)
      (hidle : net'.Idle setup (R + 1)) (hcuts : Cuts net e net' 0 (R + 1) settled)
      (hsettled : (net.lp 0).history.epoch = R + 1 → settled = true)

section Cut

variable {rank R p : Nat} {station : Station} {outcome : GvtCalculator.Outcome}
  {m m' : GvtControlMessage}

theorem Orderly.circulates_of_mem (h : Orderly setup net) (hm : m ∈ net.controls station) :
    ∃ R p, Circulates setup net R station m p := by
  obtain ⟨R, hidle | ⟨station', m', p, hround⟩⟩ := h.phase
  · exact absurd hm hidle.token.not_mem
  · obtain ⟨rfl, rfl⟩ := hround.token.of_mem hm
    exact ⟨R, p, hround⟩

theorem Orderly.circulates_of_link {source : Nat} {rest : List Packet} (h : Orderly setup net)
    (hlink : net.link source rank = .control (.control m) :: rest) :
    ∃ R p, Circulates setup net R (.link source rank) m p :=
  h.circulates_of_mem (mem_controls_link hlink)

theorem Orderly.circulates_of_awaiting (h : Orderly setup net)
    (hawaiting : (net.lp rank).awaiting = some m) :
    ∃ R p, Circulates setup net R (.awaiting rank) m p :=
  h.circulates_of_mem (mem_controls_awaiting hawaiting)

end Cut

section Step

variable {rank source R p lvt : Nat} {station : Station} {m : GvtControlMessage}

/-- The outcomes of a first cut: the round goes on, or the starter ends it. -/
theorem ring_firstCut (h : Orderly setup net) (hr : rank < setup.size)
    (hround : Circulates setup net R station m p) (hrank : rank = m.destination)
    (hcut : m.matternCut = .FIRST)
    (hc : CutAt net net' rank station ((net.lp rank).calculator.processFirstCut lvt m))
    (hcuts : Cuts net e net' rank ((net.lp rank).history.epoch + 1) false)
    (hreported : (net'.lp rank).history.reported =
      (net.lp rank).calculator.getWhiteTransientMessageCounter) :
    RingStep setup net e net' := by
  have hepoch : (net.lp rank).history.epoch = R := by
    simpa [hcut] using (hround.others rank hr (hround.not_swept hrank)).1
  have hsize : (net.lp rank).calculator.size = setup.size := (h.placed rank).2
  rw [hepoch] at hcuts
  cases hends : (net.lp rank).calculator.endsWithFirstCut lvt m with
  | true =>
      obtain ⟨gvt, hfinishes, _⟩ := GvtCalculator.processFirstCut_finishes hends
      obtain rfl : rank = 0 := h.placed.starter_of_ends hends
      obtain rfl : p = setup.size := hround.size_of_starter hrank
      refine .ends hr hround (hc.idle hround.token hfinishes ?_) hcuts ?_
      · intro i hi
        by_cases hi0 : i = 0
        · subst hi0
          exact hcuts.epochAfter
        · rw [hc.others i hi0]
          exact (hround.passed i ⟨Nat.pos_of_ne_zero hi0, hi⟩).1
      · intro hsame
        omega
  | false =>
      obtain ⟨m', hpasses, hcut', hred, hcount, hcolour⟩ :=
        GvtCalculator.processFirstCut_counts hends
      rw [← hc.calculator] at hcolour
      rw [hsize] at hcount
      cases hround.rank_eq hrank with
      | inl hstarter =>
          obtain ⟨rfl, rfl⟩ := hstarter
          rw [if_pos (h.placed.isGVTStarter.mpr rfl)] at hcut'
          have hnew := hc.turned h.placed hround hcut hpasses hcut'
            ⟨hcuts.epochAfter, hcuts.settledAfter⟩
          exact .first hr hround hcut hnew hcuts hepoch hcount hreported hred hcolour
      | inr hnext =>
          obtain ⟨rfl, hlt⟩ := hnext
          have hnot : ¬ (net.lp rank).calculator.isGVTStarter = true := by
            rw [h.placed.isGVTStarter]
            exact Nat.ne_of_gt hround.position.1
          rw [if_neg hnot] at hcut'
          have hnew := hc.circulates hlt hround h.placed hpasses hcut'
            ⟨hcuts.epochAfter, by simpa [hcut] using hcuts.settledAfter⟩
          exact .first hr hround hcut hnew hcuts hepoch hcount hreported hred hcolour

theorem ring_secondCut (h : Orderly setup net) (hr : rank < setup.size)
    (hround : Circulates setup net R station m p) (hrank : rank = m.destination)
    (hcut : m.matternCut = .SECOND)
    (hc : CutAt net net' rank station ((net.lp rank).calculator.processSecondCut lvt m))
    (hcuts : Cuts net e net' rank (net.lp rank).history.epoch true)
    (hreported : (net'.lp rank).history.reported = (net.lp rank).history.reported) :
    RingStep setup net e net' := by
  have hepoch : ∀ i, i < setup.size → (net.lp i).history.epoch = R + 1 :=
    fun i hi => hround.epoch_of_second hcut hi
  rw [hepoch rank hr] at hcuts
  cases hround.rank_eq hrank with
  | inl hstarter =>
      obtain ⟨rfl, rfl⟩ := hstarter
      have hfinishes := GvtCalculator.processSecondCut_finishes lvt m
        (h.placed.isGVTStarter.mpr rfl)
      refine .ends hr hround (hc.idle hround.token hfinishes ?_) hcuts fun _ => rfl
      intro i hi
      by_cases hi0 : i = 0
      · subst hi0
        exact hcuts.epochAfter
      · rw [hc.others i hi0]
        exact hepoch i hi
  | inr hnext =>
      obtain ⟨rfl, hlt⟩ := hnext
      have hnot : (net.lp rank).calculator.isGVTStarter = false := by
        rw [← Bool.not_eq_true, h.placed.isGVTStarter]
        exact Nat.ne_of_gt hround.position.1
      obtain ⟨m', hpasses, hcut', hred, hcount⟩ := GvtCalculator.processSecondCut_counts hnot
      have hnew := hc.circulates hlt hround h.placed hpasses hcut'
        ⟨hcuts.epochAfter, by simpa [hcut] using hcuts.settledAfter⟩
      rw [(h.placed rank).1] at hcount
      exact .second hr hround hcut hnew (hcut'.trans hcut) hcuts hcount hreported hred

theorem ring_begins (h : Orderly setup net) (hr : rank < setup.size)
    (hbegins : (net.lp rank).calculator.isGVTStarter = true ∧
      (net.lp rank).calculator.isAcceptingRequests = true) :
    RingStep setup net (.network (.request rank))
      (net.setLp rank ((net.lp rank).apply (net.lp rank).calculator.processRequest)) := by
  obtain rfl := h.placed.isGVTStarter.mp hbegins.1
  obtain ⟨m, heq, hdestination, hcut⟩ := GvtCalculator.processRequest_begins hbegins
  have hcount : ∀ target, target < setup.size → m.getMessageCount target = 0 := by
    intro target htarget
    apply GvtCalculator.FirstCut.count_request (g := (net.lp 0).calculator) (by rw [heq])
    rw [(h.placed 0).2]
    exact htarget
  rw [heq]
  obtain ⟨R, hidle | ⟨station, m', p, hround⟩⟩ := h.phase
  · exact .begins rfl hbegins hidle (hidle.begins h.placed hr rfl rfl hdestination hcut) hcut
      hcount (by simp [Lp.apply]) (fun i hi => setLp_lp_of_ne net _ hi) (history_apply net 0 _) rfl
  · rw [hround.busy] at hbegins
    cases hbegins.2

end Step

theorem ring_step (h : Orderly setup net) (hstep : SystemTransition setup net e net') :
    RingStep setup net e net' := by
  cases hstep with
  | plain hplain => exact .plain hplain hplain.stays
  | begins hr hbegins => exact ring_begins h hr hbegins
  | @firstCut rank source m rest answers lvt exposed measured hr hlink hcut hawaiting =>
      obtain ⟨R, p, hround⟩ := h.circulates_of_link hlink
      have hcounters := (net.lp rank).calculator.sameCounters_processFirstCut lvt m
      have hsize := GvtCalculator.size_processFirstCut (net.lp rank).calculator lvt m
      refine ring_firstCut h hr hround hround.leadsTo hcut (cutAt_link hlink) ?_ (by simp)
      refine ⟨.inr ⟨source, answers, m, rest, rfl, hlink⟩, ?_, ?_, ?_, ?_, ?_, nofun, ?_⟩
      · simpa [Lp.apply] using hcounters
      · simpa [Lp.apply] using hsize
      · exact fun i hi => setLp_lp_of_ne net _ hi
      · simp
      · simp
      · exact Pipes.filterMap_put hlink rfl
  | @complete rank m lvt exposed measured hr hawaiting houtstanding =>
      obtain ⟨R, p, hround⟩ := h.circulates_of_awaiting hawaiting
      have hcounters := (net.lp rank).calculator.sameCounters_processSecondCut lvt m
      have hsize := GvtCalculator.size_processSecondCut (net.lp rank).calculator lvt m
      have hcolour := (net.lp rank).calculator.colour_processSecondCut lvt m
      refine ring_secondCut h hr hround hround.leadsTo (hround.waits rank rfl) cutAt_awaiting ?_
        (by simp)
      refine ⟨.inl rfl, ?_, ?_, ?_, ?_, ?_, fun _ => ?_, fun _ _ => rfl⟩
      · simpa [Lp.apply] using hcounters
      · simpa [Lp.apply] using hsize
      · exact fun i hi => setLp_lp_of_ne net _ hi
      · simp
      · simp
      · simpa [Lp.apply] using hcolour

theorem Cuts.placed {rank epoch : Nat} {settled : Bool}
    (hc : Cuts net e net' rank epoch settled) (h : net.Placed setup) : net'.Placed setup := by
  intro i
  by_cases hi : i = rank
  · subst hi
    rw [hc.counters.rank, hc.size]
    exact h i
  · rw [hc.others i hi]
    exact h i

theorem Cuts.logged {rank epoch : Nat} {settled : Bool}
    (hc : Cuts net e net' rank epoch settled) (h : net.Logged setup)
    (hepoch : (net.lp rank).history.epoch ≤ epoch)
    (hsettled : (net.lp rank).history.epoch = epoch → settled = true) : net'.Logged setup := by
  refine h.mono ?_ ?_ ?_
  · intro i j t ht
    rw [← mem_simulations] at ht ⊢
    rwa [hc.flight i j] at ht
  · intro i
    by_cases hi : i = rank
    · subst hi
      rw [hc.epochAfter]
      exact hepoch
    · rw [hc.others i hi]
  · intro i hsame hnot
    by_cases hi : i = rank
    · subst hi
      rw [hc.epochAfter] at hsame
      rw [hc.settledAfter, hsettled hsame.symm] at hnot
      cases hnot
    · rw [hc.others i hi] at hnot ⊢
      exact ⟨hnot, le_refl _⟩

theorem Plain.logged (h : Plain setup net e net') (hl : net.Logged setup) :
    net'.Logged setup := by
  have ho := h.stays.ordinary
  cases h with
  | agent hr | post hr => exact hl.ordinary ho fun _ _ _ ht => ht
  | sendControl hr hd hqueue => exact hl.ordinary ho fun _ _ _ ht => simulation_of_push ht
  | @sendMessage rank process calculator m hr hd hpre hsend =>
      have hkeeps := GvtCalculator.keeps_preProcessSendMessage hsend
      have hset : (net.setLp rank
          { net.lp rank with calculator := calculator, process := process }).Logged setup :=
        hl.ordinary (ordinary_setLp hkeeps.1 rfl rfl id) fun _ _ _ ht => ht
      refine hset.push hr hd ?_ ?_
      · simp
      · intro hrecorded hsettled
        simp only [setLp_lp_self] at hsettled ⊢
        refine hkeeps.2 ?_
        simpa [hsettled] using hrecorded
  | @handOn rank gvt rest m hr hd hprocess hcontrol hpre =>
      have hset : (net.setLp rank { net.lp rank with process := .clp gvt rest }).Logged setup :=
        hl.ordinary (ordinary_setLp (.refl _) rfl rfl id) fun _ _ _ ht => ht
      refine hset.push hr hd ?_ ?_
      · simp
      · intro hrecorded hsettled
        simp only [setLp_lp_self] at hsettled
        simp only at hrecorded
        rw [hrecorded] at hsettled
        cases hsettled
  | receiveMessage hr hreceiving hlink hexposed =>
      exact hl.ordinary ho fun _ _ _ => Pipes.mem_put_tail hlink
  | receiveValue hr hlink => exact hl.ordinary ho fun _ _ _ => Pipes.mem_put_tail hlink
  | await hr hlink hcut hawaiting => exact hl.ordinary ho fun _ _ _ => Pipes.mem_put_tail hlink
  | ignored hignored => exact hl

theorem orderly_of_ring (h : Orderly setup net) (hstep : RingStep setup net e net') :
    Orderly setup net' := by
  cases hstep with
  | plain hplain hstays =>
      refine ⟨h.placed.ordinary hstays.ordinary, hplain.logged h.logged, ?_⟩
      obtain ⟨R, hidle | ⟨station, m, p, hround⟩⟩ := h.phase
      · exact ⟨R, .inl (hstays.idle R hidle)⟩
      · obtain ⟨station', hround'⟩ := hstays.circulates R station m p hround
        exact ⟨R, .inr ⟨station', m, p, hround'⟩⟩
  | @begins R m hevent hstarts hidle hnew hcut hcount hcalculator hothers hhistory hlink =>
      refine ⟨?_, ?_, R, .inr ⟨_, m, 1, hnew⟩⟩
      · intro i
        by_cases hi : i = 0
        · subst hi
          rw [hcalculator]
          exact h.placed 0
        · rw [hothers i hi]
          exact h.placed i
      · refine h.logged.mono (fun i j t ht => by rwa [hlink] at ht) (fun i => by rw [hhistory]) ?_
        intro i _ hnot
        rw [hhistory] at hnot
        refine ⟨hnot, ?_⟩
        by_cases hi : i = 0
        · subst hi
          rw [hcalculator]
        · rw [hothers i hi]
  | @first R p p' rank station station' m m' hr hround hcut hnew hcuts hepoch hcount hreported hred
      hcolour =>
      refine ⟨hcuts.placed h.placed, hcuts.logged h.logged ?_ ?_, R, .inr ⟨station', m', p', hnew⟩⟩
      · omega
      · omega
  | @second R p station m m' hr hround hcut hnew hcut' hcuts hcount hreported hred =>
      have hepoch := (hround.others p hr fun hs => Nat.lt_irrefl _ hs.2).1
      rw [if_pos hcut] at hepoch
      exact ⟨hcuts.placed h.placed, hcuts.logged h.logged hepoch.le fun _ => rfl, R,
        .inr ⟨_, m', p + 1, hnew⟩⟩
  | @ends R station m settled hr hround hidle hcuts hsettled =>
      refine ⟨hcuts.placed h.placed, hcuts.logged h.logged ?_ hsettled, R + 1, .inl hidle⟩
      have hepoch := (hround.others 0 hr (zero_not_swept _)).1
      split at hepoch
      · exact hepoch.le
      · omega

theorem orderly_initial (h : net.Initial setup) : Orderly setup net := by
  have hcomputing := computing_of_initial h
  exact ⟨hcomputing.placed, hcomputing.logged, 0, .inl (idle_of_initial h)⟩

end Network
end Gvt
end PdesMas
