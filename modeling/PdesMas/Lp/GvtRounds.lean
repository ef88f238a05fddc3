import PdesMas.Library.Sweep
import PdesMas.Lp.GvtEffect
import PdesMas.Lp.GvtTimes

/-!
The rounds in which GVT is computed. Between two rounds there is no control
message; in a round there is one, and each of its two cuts is a sweep over the
ring. What a cut leaves behind the control message stays behind a bound: the
minimum the message carries in the first cut, and in the second also the red
times it carries or has yet to collect.
-/

namespace PdesMas.Gvt.Network

variable {setup : Setup} {net net' : Network}

section Definitions

variable (setup : Setup) (net : Network)

def Placed : Prop :=
  ∀ rank, (net.lp rank).calculator.rank = rank ∧ (net.lp rank).calculator.size = setup.size

/-- What the history of a message says of its sender. -/
def Logged : Prop :=
  ∀ source target t, .simulation t ∈ net.link source target →
    (source < setup.size ∧ target < setup.size) ∧ t.epoch ≤ (net.lp source).history.epoch ∧
      (t.epoch = (net.lp source).history.epoch → t.recorded = true →
        (net.lp source).history.settled = false →
          (net.lp source).calculator.redTime ≤ t.message.timestamp)

def sites : Sites Nat Nat Transmission where
  times rank := (net.lp rank).times
  flight source target := {t | .simulation t ∈ net.link source target}

/-- The processes a cut has passed when it comes to the `p`th process of the ring. The
starter is the last. -/
def swept (p : Nat) : Set Nat := {rank | 1 ≤ rank ∧ rank < p}

/-- The messages a cut of the round after `R` rounds takes account of. -/
def counts (R : Nat) (cut : MatternCut) : Set Transmission :=
  {t | R < t.epoch ∧ (cut = .SECOND → t.recorded = true)}

def bound (m : GvtControlMessage) (p : Nat) : Set Nat :=
  match m.matternCut with
  | .FIRST => Set.Ici m.messageMinimumTime
  | .SECOND =>
      {t | m.messageMinimumTime ≤ t ∨ m.redMessageTime ≤ t ∨
        ∃ rank, rank < setup.size ∧ rank ∉ swept p ∧ (net.lp rank).calculator.redTime ≤ t}

/-- Something has escaped the cut, or everything is behind its bound. -/
def Sweeping (R : Nat) (m : GvtControlMessage) (p : Nat) : Prop :=
  (∃ rank ∈ swept p, (net.lp rank).history.exposed = true) ∨
    net.sites.Within (fun t => t.message.timestamp) (swept p) (counts R m.matternCut)
      (net.bound setup m p)

structure Idle (R : Nat) : Prop where
  token : Token.Nowhere net.controls
  accepting : (net.lp 0).calculator.isAcceptingRequests = true
  epoch : ∀ rank, rank < setup.size → (net.lp rank).history.epoch = R

/-- A round is under way and the control message `m` on its way to the `p`th process. -/
structure Circulates (R : Nat) (station : Station) (m : GvtControlMessage) (p : Nat) : Prop where
  token : Token.At net.controls station m
  leadsTo : station.LeadsTo m.destination
  waits : ∀ rank, station = .awaiting rank → m.matternCut = .SECOND
  position : 1 ≤ p ∧ p ≤ setup.size ∧ m.destination = p % setup.size
  busy : (net.lp 0).calculator.isAcceptingRequests = false
  passed : ∀ rank ∈ swept p, (net.lp rank).history.epoch = R + 1 ∧
    (net.lp rank).history.settled = decide (m.matternCut = .SECOND)
  others : ∀ rank, rank < setup.size → rank ∉ swept p →
    (net.lp rank).history.epoch = (if m.matternCut = .SECOND then R + 1 else R) ∧
      (m.matternCut = .SECOND → (net.lp rank).history.settled = false)

/-- The round, with what the cut leaves behind the control message. -/
structure Round (R : Nat) (station : Station) (m : GvtControlMessage) (p : Nat) : Prop
    extends Circulates setup net R station m p where
  sweeping : net.Sweeping setup R m p

/-- What holds in every reachable state. -/
structure Computing : Prop where
  placed : net.Placed setup
  logged : net.Logged setup
  phase : ∃ R, net.Idle setup R ∨ ∃ station m p, net.Round setup R station m p

end Definitions

/-- A step that leaves every cut as it is. -/
structure Ordinary (net net' : Network) : Prop where
  keeps : ∀ rank, (net.lp rank).calculator.Keeps (net'.lp rank).calculator
  epoch : ∀ rank, (net'.lp rank).history.epoch = (net.lp rank).history.epoch
  settled : ∀ rank, (net'.lp rank).history.settled = (net.lp rank).history.settled
  exposed : ∀ rank, (net.lp rank).history.exposed = true → (net'.lp rank).history.exposed = true

theorem ordinary_setLp {rank : Nat} {lp : Lp} {link : Pipes Nat Packet}
    (hkeeps : (net.lp rank).calculator.Keeps lp.calculator)
    (hepoch : lp.history.epoch = (net.lp rank).history.epoch)
    (hsettled : lp.history.settled = (net.lp rank).history.settled)
    (hexposed : (net.lp rank).history.exposed = true → lp.history.exposed = true) :
    Ordinary net { net.setLp rank lp with link := link } := by
  constructor <;> intro i <;> by_cases hi : i = rank
  · subst hi
    simpa using hkeeps
  · simp only [setLp_lp_of_ne net lp hi]
    exact .refl _
  · subst hi
    simpa using hepoch
  · simp only [setLp_lp_of_ne net lp hi]
  · subst hi
    simpa using hsettled
  · simp only [setLp_lp_of_ne net lp hi]
  · subst hi
    simpa using hexposed
  · simp only [setLp_lp_of_ne net lp hi]
    exact id

/-- Messages on links after a step that only takes some off. -/
theorem Logged.mono (h : net.Logged setup)
    (hflight : ∀ i j t, .simulation t ∈ net'.link i j → .simulation t ∈ net.link i j)
    (hepoch : ∀ i, (net.lp i).history.epoch ≤ (net'.lp i).history.epoch)
    (hsettled : ∀ i, (net'.lp i).history.epoch = (net.lp i).history.epoch →
      (net'.lp i).history.settled = false → (net.lp i).history.settled = false ∧
        (net'.lp i).calculator.redTime ≤ (net.lp i).calculator.redTime) :
    net'.Logged setup := by
  intro i j t ht
  obtain ⟨hi, hle, hred⟩ := h i j t (hflight i j t ht)
  refine ⟨hi, hle.trans (hepoch i), ?_⟩
  intro heq hrecorded hnot
  have hsame : (net'.lp i).history.epoch = (net.lp i).history.epoch := by
    have := hepoch i
    omega
  obtain ⟨hwas, hredTime⟩ := hsettled i hsame hnot
  exact hredTime.trans (hred (heq.trans hsame) hrecorded hwas)

theorem Logged.ordinary (h : net.Logged setup) (ho : Ordinary net net')
    (hflight : ∀ i j t, .simulation t ∈ net'.link i j → .simulation t ∈ net.link i j) :
    net'.Logged setup := by
  refine h.mono hflight (fun i => (ho.epoch i).ge) ?_
  intro i _ hnot
  rw [ho.settled i] at hnot
  exact ⟨hnot, (ho.keeps i).redTime⟩

theorem Placed.ordinary (h : net.Placed setup) (ho : Ordinary net net') : net'.Placed setup := by
  intro rank
  rw [(ho.keeps rank).rank, (ho.keeps rank).size]
  exact h rank

theorem isUpperSet_bound (m : GvtControlMessage) (p : Nat) : IsUpperSet (net.bound setup m p) := by
  simp only [bound]
  split
  · exact isUpperSet_Ici _
  · intro t u hle ht
    rcases ht with ht | ht | ⟨rank, hr, hs, ht⟩
    · exact .inl (ht.trans hle)
    · exact .inr (.inl (ht.trans hle))
    · exact .inr (.inr ⟨rank, hr, hs, ht.trans hle⟩)

theorem Ordinary.bound (ho : Ordinary net net') (m : GvtControlMessage) (p : Nat) :
    net.bound setup m p ⊆ net'.bound setup m p := by
  simp only [Network.bound]
  split
  · exact le_refl _
  · intro t ht
    rcases ht with ht | ht | ⟨rank, hr, hs, ht⟩
    · exact .inl ht
    · exact .inr (.inl ht)
    · exact .inr (.inr ⟨rank, hr, hs, (ho.keeps rank).redTime.trans ht⟩)

theorem Idle.ordinary {R : Nat} (h : net.Idle setup R) (ho : Ordinary net net')
    (hcontrols : ∀ s, net'.controls s = net.controls s) : net'.Idle setup R where
  token := h.token.congr hcontrols
  accepting := (ho.keeps 0).accepting.trans h.accepting
  epoch rank hr := (ho.epoch rank).trans (h.epoch rank hr)

theorem Circulates.ordinary {R p : Nat} {station station' : Station} {m : GvtControlMessage}
    (h : Circulates setup net R station m p) (ho : Ordinary net net')
    (htoken : Token.At net'.controls station' m) (hleads : station'.LeadsTo m.destination)
    (hwaits : ∀ rank, station' = .awaiting rank → m.matternCut = .SECOND) :
    Circulates setup net' R station' m p where
  token := htoken
  leadsTo := hleads
  waits := hwaits
  position := h.position
  busy := (ho.keeps 0).accepting.trans h.busy
  passed rank hr := by
    rw [ho.epoch rank, ho.settled rank]
    exact h.passed rank hr
  others rank hr hs := by
    rw [ho.epoch rank, ho.settled rank]
    exact h.others rank hr hs

theorem Round.ordinary {R p : Nat} {station station' : Station} {m : GvtControlMessage}
    (h : net.Round setup R station m p) (ho : Ordinary net net')
    (htoken : Token.At net'.controls station' m) (hleads : station'.LeadsTo m.destination)
    (hwaits : ∀ rank, station' = .awaiting rank → m.matternCut = .SECOND)
    (hsweeping : net'.Sweeping setup R m p) : net'.Round setup R station' m p :=
  ⟨h.toCirculates.ordinary ho htoken hleads hwaits, hsweeping⟩

/-- Processes go on from their times, and what is sent comes from a process the cut has
passed or is behind the bound. -/
theorem Sweeping.advance {R p : Nat} {m : GvtControlMessage} (h : net.Sweeping setup R m p)
    (ho : Ordinary net net')
    (htimes : ∀ i, (net'.lp i).times ⊆ upperClosure (net.lp i).times)
    (hflight : ∀ i j t, .simulation t ∈ net'.link i j → .simulation t ∈ net.link i j ∨
      (t ∈ counts R m.matternCut → (i ∈ swept p ∧ t.message.timestamp ∈ (net.lp i).times) ∨
        t.message.timestamp ∈ net'.bound setup m p)) :
    net'.Sweeping setup R m p := by
  rcases h with ⟨rank, hr, hexposed⟩ | hwithin
  · exact .inl ⟨rank, hr, ho.exposed rank hexposed⟩
  · refine .inr ((hwithin.widen (ho.bound m p)).advance (isUpperSet_bound m p) ?_ ?_)
    · exact fun i _ => htimes i
    · intro i j t ht
      refine (hflight i j t ht).imp id ?_
      intro hnew hc
      rcases hnew hc with ⟨hi, htime⟩ | htime
      · exact ho.bound m p (hwithin.site i hi htime)
      · exact htime

/-- A step that puts no simulation message on a link. -/
structure Quiet (net net' : Network) : Prop extends Ordinary net net' where
  times : ∀ i, (net'.lp i).times ⊆ upperClosure (net.lp i).times
  flight : ∀ i j t, .simulation t ∈ net'.link i j → .simulation t ∈ net.link i j

theorem Quiet.sweeping {R p : Nat} {m : GvtControlMessage} (hq : Quiet net net')
    (h : net.Sweeping setup R m p) : net'.Sweeping setup R m p :=
  h.advance hq.toOrdinary hq.times fun i j t ht => .inl (hq.flight i j t ht)

theorem times_setLp {rank : Nat} {lp : Lp}
    (h : lp.times ⊆ upperClosure (net.lp rank).times) (i : Nat) :
    ((net.setLp rank lp).lp i).times ⊆ upperClosure (net.lp i).times := by
  by_cases hi : i = rank
  · subst hi
    simpa using h
  · simp only [setLp_lp_of_ne net lp hi]
    exact subset_upperClosure

theorem quiet_setLp {rank : Nat} {lp : Lp} {link : Pipes Nat Packet}
    (hkeeps : (net.lp rank).calculator.Keeps lp.calculator)
    (hhistory : lp.history = (net.lp rank).history)
    (htimes : lp.process.times ⊆ upperClosure (net.lp rank).process.times)
    (hflight : ∀ i j t, .simulation t ∈ link i j → .simulation t ∈ net.link i j) :
    Quiet net { net.setLp rank lp with link := link } where
  toOrdinary := ordinary_setLp hkeeps (by rw [hhistory]) (by rw [hhistory])
    (by rw [hhistory]; exact id)
  times := times_setLp (Lp.times_of_process (by rw [hhistory]) htimes)
  flight := hflight

/-- The control message stays where it is. -/
theorem Computing.quiet (h : net.Computing setup) (hq : Quiet net net')
    (hcontrols : ∀ s, net'.controls s = net.controls s) : net'.Computing setup where
  placed := h.placed.ordinary hq.toOrdinary
  logged := h.logged.ordinary hq.toOrdinary hq.flight
  phase := by
    obtain ⟨R, hidle | ⟨station, m, p, hround⟩⟩ := h.phase
    · exact ⟨R, .inl (hidle.ordinary hq.toOrdinary hcontrols)⟩
    · refine ⟨R, .inr ⟨station, m, p, ?_⟩⟩
      exact hround.ordinary hq.toOrdinary (hround.token.congr hcontrols) hround.leadsTo
        hround.waits (hq.sweeping hround.sweeping)

theorem Computing.round_of_mem {station : Station} {m : GvtControlMessage}
    (h : net.Computing setup) (hm : m ∈ net.controls station) :
    ∃ R p, net.Round setup R station m p := by
  obtain ⟨R, hidle | ⟨station', m', p, hround⟩⟩ := h.phase
  · exact absurd hm hidle.token.not_mem
  · obtain ⟨rfl, rfl⟩ := hround.token.of_mem hm
    exact ⟨R, p, hround⟩

/-- The control message goes to another station. -/
theorem Computing.moved (h : net.Computing setup) (hq : Quiet net net') (s s' : Station)
    {m : GvtControlMessage} (hm : m ∈ net.controls s) (hleads : s'.LeadsTo m.destination)
    (hwaits : ∀ rank, s' = .awaiting rank → m.matternCut = .SECOND)
    (htoken : Token.At net.controls s m → Token.At net'.controls s' m) :
    net'.Computing setup where
  placed := h.placed.ordinary hq.toOrdinary
  logged := h.logged.ordinary hq.toOrdinary hq.flight
  phase := by
    obtain ⟨R, p, hround⟩ := h.round_of_mem hm
    refine ⟨R, .inr ⟨s', m, p, ?_⟩⟩
    exact hround.ordinary hq.toOrdinary (htoken hround.token) hleads hwaits
      (hq.sweeping hround.sweeping)

/-- The stations a step does not touch. -/
theorem controls_frame {rank : Nat} {lp : Lp} {link : Pipes Nat Packet} (s : Station)
    (hqueue : s = .queue rank → lp.sendControlMessageQueue.filterMap ControlMessage.control? =
      (net.lp rank).sendControlMessageQueue.filterMap ControlMessage.control?)
    (hawaiting : s = .awaiting rank → lp.awaiting = (net.lp rank).awaiting)
    (hlink : ∀ i j, s = .link i j →
      (link i j).filterMap Packet.control? = (net.link i j).filterMap Packet.control?) :
    ({ net.setLp rank lp with link := link } : Network).controls s = net.controls s := by
  cases s with
  | queue i =>
      by_cases hi : i = rank
      · subst hi
        simpa [controls] using hqueue rfl
      · simp only [controls, setLp_lp_of_ne net lp hi]
  | link i j => exact hlink i j rfl
  | awaiting i =>
      by_cases hi : i = rank
      · subst hi
        simpa [controls] using congrArg Option.toList (hawaiting rfl)
      · simp only [controls, setLp_lp_of_ne net lp hi]

theorem simulation_of_push {link : Pipes Nat Packet} {a b i j : Nat} {m : ControlMessage}
    {t : Transmission} (h : .simulation t ∈ link.push a b (.control m) i j) :
    .simulation t ∈ link i j := by
  rcases Pipes.mem_push h with h | ⟨_, _, h⟩
  · exact h
  · cases h

theorem computing_agent {rank : Nat} {e : Alp.Event} {process : Process}
    (h : net.Computing setup) (hstep : (net.lp rank).process.agentStep e = some process) :
    (net.setLp rank { net.lp rank with process := process }).Computing setup :=
  h.quiet (quiet_setLp (.refl _) rfl (Process.times_of_agentStep hstep) fun _ _ _ ht => ht)
    fun s => controls_frame s (fun _ => rfl) (fun _ => rfl) fun _ _ _ => rfl

/-- The control message goes from the queue of a process to its link. -/
theorem token_sendControl {rank : Nat} {m : GvtControlMessage} {rest : List ControlMessage}
    (hqueue : (net.lp rank).sendControlMessageQueue = .control m :: rest)
    (htoken : Token.At net.controls (.queue rank) m) :
    Token.At
      ({ net.setLp rank { net.lp rank with sendControlMessageQueue := rest } with
        link := net.link.push rank m.destination (.control (.control m)) } : Network).controls
      (.link rank m.destination) m := by
  obtain ⟨_, _, hrest⟩ := htoken.of_cons (controls_of_queue hqueue)
  refine htoken.move ?_ ?_ ?_
  · simpa [controls] using hrest
  · have hempty := htoken.empty (j := .link rank m.destination) (by simp)
    simp only [controls] at hempty ⊢
    simp [hempty, Packet.control?, ControlMessage.control?]
  · intro s hs hs'
    refine controls_frame s (fun hsame => absurd hsame hs) (fun _ => rfl) ?_
    intro i j hsame
    rw [Pipes.push_of_ne]
    rintro ⟨rfl, rfl⟩
    exact hs' hsame

/-- The control message is taken off a link to wait for the second cut. -/
theorem token_await {rank source : Nat} {m : GvtControlMessage} {rest : List Packet}
    (hlink : net.link source rank = .control (.control m) :: rest)
    (htoken : Token.At net.controls (.link source rank) m) :
    Token.At
      ({ net.setLp rank { net.lp rank with awaiting := some m } with
        link := net.link.put source rank rest } : Network).controls (.awaiting rank) m := by
  obtain ⟨_, _, hrest⟩ := htoken.of_cons (controls_of_link hlink)
  refine htoken.move ?_ ?_ ?_
  · simpa [controls] using hrest
  · simp [controls]
  · intro s hs hs'
    refine controls_frame s (fun _ => rfl) (fun hsame => absurd hsame hs') ?_
    intro i j hsame
    rw [Pipes.put_of_ne]
    rintro ⟨rfl, rfl⟩
    exact hs hsame

theorem computing_sendControl {rank : Nat} {m : ControlMessage} {rest : List ControlMessage}
    (h : net.Computing setup) (hqueue : (net.lp rank).sendControlMessageQueue = m :: rest) :
    Computing setup { net.setLp rank { net.lp rank with sendControlMessageQueue := rest } with
      link := net.link.push rank m.destination (.control m) } := by
  have hquiet : Quiet net { net.setLp rank { net.lp rank with sendControlMessageQueue := rest } with
      link := net.link.push rank m.destination (.control m) } :=
    quiet_setLp (.refl _) rfl subset_upperClosure fun _ _ _ => simulation_of_push
  cases m with
  | value m =>
      refine h.quiet hquiet fun s => controls_frame s ?_ (fun _ => rfl) ?_
      · intro _
        rw [hqueue]
        rfl
      · exact fun i j _ => Pipes.filterMap_push net.link rfl i j
  | control m =>
      have hm : m ∈ net.controls (.queue rank) := mem_controls_queue hqueue
      exact h.moved hquiet (.queue rank) (.link rank m.destination) hm rfl nofun
        (token_sendControl hqueue)

theorem computing_receiveValue {rank source : Nat} {m : GvtValueMessage} {rest : List Packet}
    (h : net.Computing setup) (hlink : net.link source rank = .control (.value m) :: rest) :
    Computing setup { net.setLp rank ((net.lp rank).receiveValue m) with
      link := net.link.put source rank rest } := by
  refine h.quiet (quiet_setLp (GvtCalculator.keeps_processValue _) rfl ?_ ?_) ?_
  · simp only [Lp.receiveValue]
    split
    · exact subset_upperClosure
    · rw [Process.times_setGvt]
      exact subset_upperClosure
  · exact fun _ _ _ => Pipes.mem_put_tail hlink
  · exact fun s => controls_frame s (fun _ => rfl) (fun _ => rfl)
      fun i j _ => Pipes.filterMap_put hlink rfl i j

theorem computing_await {rank source : Nat} {m : GvtControlMessage} {rest : List Packet}
    (h : net.Computing setup) (hlink : net.link source rank = .control (.control m) :: rest)
    (hcut : m.matternCut = .SECOND) :
    Computing setup { net.setLp rank { net.lp rank with awaiting := some m } with
      link := net.link.put source rank rest } := by
  have hm : m ∈ net.controls (.link source rank) := mem_controls_link hlink
  have hleads : rank = m.destination := by
    obtain ⟨R, p, hround⟩ := h.round_of_mem hm
    exact hround.leadsTo
  exact h.moved (quiet_setLp (.refl _) rfl subset_upperClosure
    fun _ _ _ => Pipes.mem_put_tail hlink) (.link source rank) (.awaiting rank) hm hleads
      (fun _ _ => hcut) (token_await hlink)

theorem Logged.push {a b : Nat} {t : Transmission} (h : net.Logged setup) (ha : a < setup.size)
    (hb : b < setup.size) (hepoch : t.epoch ≤ (net.lp a).history.epoch)
    (hred : t.recorded = true → (net.lp a).history.settled = false →
      (net.lp a).calculator.redTime ≤ t.message.timestamp) :
    Logged setup { net with link := net.link.push a b (.simulation t) } := by
  intro i j t' ht'
  rcases Pipes.mem_push ht' with ht' | ⟨rfl, rfl, heq⟩
  · exact h i j t' ht'
  · cases heq
    exact ⟨⟨ha, hb⟩, hepoch, fun _ => hred⟩

theorem computing_sendMessage {rank destination : Nat} {process : Process}
    {calculator : GvtCalculator} {t : Transmission} (h : net.Computing setup)
    (hr : rank < setup.size) (hd : destination < setup.size)
    (hkeeps : (net.lp rank).calculator.Keeps calculator)
    (htimes : process.times ⊆ upperClosure (net.lp rank).process.times)
    (htime : t.message.timestamp ∈ (net.lp rank).process.times)
    (hepoch : t.epoch = (net.lp rank).history.epoch)
    (hrecorded : t.recorded = true → (net.lp rank).history.settled = false →
      calculator.redTime ≤ t.message.timestamp) :
    Computing setup
      { net.setLp rank { net.lp rank with calculator := calculator, process := process } with
        link := net.link.push rank destination (.simulation t) } := by
  have hordinary (link : Pipes Nat Packet) : Ordinary net
      { net.setLp rank { net.lp rank with calculator := calculator, process := process } with
        link := link } := ordinary_setLp hkeeps rfl rfl id
  have hcontrols (s : Station) :
      ({ net.setLp rank { net.lp rank with calculator := calculator, process := process } with
        link := net.link.push rank destination (.simulation t) } : Network).controls s =
          net.controls s :=
    controls_frame s (fun _ => rfl) (fun _ => rfl)
      fun i j _ => Pipes.filterMap_push net.link rfl i j
  refine ⟨h.placed.ordinary (hordinary _), ?_, ?_⟩
  · refine (h.logged.ordinary (hordinary net.link) fun _ _ _ ht => ht).push hr hd ?_ ?_
    · rw [(hordinary net.link).epoch, hepoch]
    · rw [(hordinary net.link).settled]
      simpa using hrecorded
  · obtain ⟨R, hidle | ⟨station, m, p, hround⟩⟩ := h.phase
    · exact ⟨R, .inl (hidle.ordinary (hordinary _) hcontrols)⟩
    · refine ⟨R, .inr ⟨station, m, p, ?_⟩⟩
      refine hround.ordinary (hordinary _) (hround.token.congr hcontrols) hround.leadsTo
        hround.waits ?_
      refine hround.sweeping.advance (hordinary _)
        (times_setLp (Lp.times_of_process rfl htimes)) ?_
      intro i j t' ht'
      rcases Pipes.mem_push ht' with ht' | ⟨rfl, _, heq⟩
      · exact .inl ht'
      · cases heq
        refine .inr fun hc => ?_
        by_cases hs : i ∈ swept p
        · exact .inl ⟨hs, Lp.times_process _ htime⟩
        · -- a process the cut has not come to sends what the cut does not count, or red
          obtain ⟨hothers, hunsettled⟩ := hround.others i hr hs
          cases hcut : m.matternCut with
          | FIRST =>
              rw [hcut] at hothers hc
              have := hc.1
              simp only [reduceCtorEq, ite_false] at hothers
              omega
          | SECOND =>
              have hred := hrecorded (hc.2 hcut) (hunsettled hcut)
              simp only [bound, hcut]
              refine .inr (.inr (.inr ⟨i, hr, hs, ?_⟩))
              simpa using hred

theorem computing_receiveMessage {rank source : Nat} {t : Transmission} {rest : List Packet}
    {answers : List (Nat × Payload)} {process : Process} {restored : Bool}
    (h : net.Computing setup) (hlink : net.link source rank = .simulation t :: rest)
    (hreceive : (net.lp rank).process.receive t.message answers = some (process, restored)) :
    Computing setup
      { net.setLp rank
          { net.lp rank with
            calculator := (net.lp rank).calculator.preProcessReceiveMessage t.message.colour
            process := process
            history :=
              { (net.lp rank).history with
                exposed := (net.lp rank).history.exposed || (net.lp rank).history.misses t ||
                  restored } } with
        link := net.link.put source rank rest } := by
  generalize hlp : ({ net.lp rank with
    calculator := (net.lp rank).calculator.preProcessReceiveMessage t.message.colour
    process := process
    history :=
      { (net.lp rank).history with
        exposed := (net.lp rank).history.exposed || (net.lp rank).history.misses t ||
          restored } } : Lp) = lp
  have hordinary :
      Ordinary net { net.setLp rank lp with link := net.link.put source rank rest } := by
    subst hlp
    refine ordinary_setLp (GvtCalculator.keeps_preProcessReceiveMessage _ _) rfl rfl ?_
    intro hexposed
    simp [hexposed]
  have hflight : ∀ i j t, .simulation t ∈ net.link.put source rank rest i j →
      .simulation t ∈ net.link i j := fun _ _ _ => Pipes.mem_put_tail hlink
  have hcontrols (s : Station) :
      ({ net.setLp rank lp with link := net.link.put source rank rest } : Network).controls s =
        net.controls s :=
    controls_frame s (fun _ => by rw [← hlp]) (fun _ => by rw [← hlp])
      fun i j _ => Pipes.filterMap_put hlink rfl i j
  refine ⟨h.placed.ordinary hordinary, h.logged.ordinary hordinary hflight, ?_⟩
  obtain ⟨R, hidle | ⟨station, m, p, hround⟩⟩ := h.phase
  · exact ⟨R, .inl (hidle.ordinary hordinary hcontrols)⟩
  · refine ⟨R, .inr ⟨station, m, p, ?_⟩⟩
    refine hround.ordinary hordinary (hround.token.congr hcontrols) hround.leadsTo hround.waits ?_
    rcases hround.sweeping with ⟨i, hi, hexposed⟩ | hwithin
    · exact .inl ⟨i, hi, hordinary.exposed i hexposed⟩
    · by_cases hescapes : rank ∈ swept p ∧ lp.history.exposed = true
      · refine .inl ⟨rank, hescapes.1, ?_⟩
        simpa using hescapes.2
      · refine .inr ((hwithin.widen (hordinary.bound m p)).receive (isUpperSet_bound m p)
          (i := source) (j := rank) (m := t) ?_ ?_ ?_ hflight)
        · show .simulation t ∈ net.link source rank
          rw [hlink]
          exact List.mem_cons_self
        · intro hs
          have hexposed : lp.history.exposed = false := by simpa [hs] using hescapes
          rw [← hlp] at hexposed
          simp only [Bool.or_eq_false_iff] at hexposed
          obtain ⟨⟨_, hmisses⟩, hrestored⟩ := hexposed
          obtain ⟨hepoch, hsettled⟩ := hround.passed rank hs
          refine ⟨?_, ?_⟩
          · simp only [CutHistory.misses, hepoch, hsettled, Bool.or_eq_false_iff,
              decide_eq_false_iff_not, Bool.and_eq_false_iff] at hmisses
            refine ⟨by omega, fun hcut => ?_⟩
            simpa [hcut] using hmisses.2
          · rw [hrestored] at hreceive
            simp only [sites, setLp_lp_self, ← hlp]
            rw [Lp.times, Lp.times, Set.insert_comm]
            refine Set.insert_subset (subset_upperClosure (Set.mem_insert _ _)) ?_
            refine (Process.times_of_receive hreceive).trans ?_
            exact upperClosure_anti (Set.subset_insert _ _)
        · intro i hi
          simp [sites, setLp_lp_of_ne net lp hi]

/-- What a CLP queues of its own exposes it or is not before the times of its cut. -/
theorem computing_post {rank : Nat} {m : SimulationMessage} {lp : Lp} (h : net.Computing setup)
    (hpost : (net.lp rank).post m = some lp) : (net.setLp rank lp).Computing setup := by
  have htimes := Lp.times_of_post hpost
  have hordinary : Ordinary net (net.setLp rank lp) := by
    obtain ⟨process, _, rfl⟩ := Option.map_eq_some_iff.mp hpost
    refine ordinary_setLp (.refl _) rfl rfl ?_
    intro hexposed
    simp [hexposed]
  have hcontrols (s : Station) : (net.setLp rank lp).controls s = net.controls s := by
    obtain ⟨process, _, rfl⟩ := Option.map_eq_some_iff.mp hpost
    exact controls_frame s (fun _ => rfl) (fun _ => rfl) fun _ _ _ => rfl
  refine ⟨h.placed.ordinary hordinary, h.logged.ordinary hordinary fun _ _ _ ht => ht, ?_⟩
  obtain ⟨R, hidle | ⟨station, m', p, hround⟩⟩ := h.phase
  · exact ⟨R, .inl (hidle.ordinary hordinary hcontrols)⟩
  · refine ⟨R, .inr ⟨station, m', p, ?_⟩⟩
    refine hround.ordinary hordinary (hround.token.congr hcontrols) hround.leadsTo hround.waits ?_
    rcases hround.sweeping with ⟨i, hi, hexposed⟩ | hwithin
    · exact .inl ⟨i, hi, hordinary.exposed i hexposed⟩
    · by_cases hescapes : rank ∈ swept p ∧ lp.history.exposed = true
      · refine .inl ⟨rank, hescapes.1, ?_⟩
        simpa using hescapes.2
      · refine .inr ((hwithin.widen (hordinary.bound m' p)).advance (isUpperSet_bound m' p) ?_
          fun _ _ _ ht => .inl ht)
        intro i hi
        by_cases hir : i = rank
        · subst hir
          simpa [sites] using htimes (by simpa [hi] using hescapes)
        · simp only [sites, setLp_lp_of_ne net lp hir]
          exact subset_upperClosure

end PdesMas.Gvt.Network
