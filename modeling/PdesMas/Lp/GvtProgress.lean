import PdesMas.Lp.GvtAgreement
import PdesMas.Lp.GvtRing

/-!
GVT from one round to the next. Once a value has been computed and nothing has
escaped its round, no process takes up a time before it again, unless a rollback
restores one or a CLP queues such a message of its own; so whatever the next
rounds measure is not before it either, and GVT never goes back.
-/

namespace PdesMas

section Definitions

variable (gvt : Nat) (late : Prop)

/-- Messages of the second cut are about only when it is `late`. -/
structure GvtControlMessage.NotBefore (m : GvtControlMessage) : Prop where
  minimum : gvt ≤ m.messageMinimumTime
  red : gvt ≤ m.redMessageTime
  bounded : m.messageMinimumTime ≤ LONG_MAX
  late : m.matternCut = .SECOND → late

structure GvtCalculator.Outcome.NotBefore (o : Outcome) : Prop where
  queued : ∀ m, .control m ∈ o.queued → m.NotBefore gvt late
  computed : ∀ value ∈ o.gvt, gvt ≤ value ∧ value ≤ LONG_MAX

end Definitions

theorem GvtControlMessage.NotBefore.mono {gvt : Nat} {late late' : Prop} {m : GvtControlMessage}
    (h : m.NotBefore gvt late) (hlate : late → late') : m.NotBefore gvt late' :=
  ⟨h.minimum, h.red, h.bounded, fun hcut => hlate (h.late hcut)⟩

namespace GvtCalculator

variable {gvt lvt : Nat} {late : Prop} {g : GvtCalculator} {m : GvtControlMessage}

theorem notBefore_passOn (h : m.NotBefore gvt late) : (g.passOn m).NotBefore gvt late where
  queued m' hm' := by
    obtain rfl : m' = { m with destination := g.nextLpInRing } := by simpa [passOn] using hm'
    exact ⟨h.minimum, h.red, h.bounded, h.late⟩
  computed _ hvalue := by cases hvalue

theorem notBefore_sendAndSetGvt (h : m.NotBefore gvt late) :
    (g.sendAndSetGvt m).NotBefore gvt late where
  queued m' hm' := by
    obtain ⟨lp, _, heq⟩ := List.mem_map.mp hm'
    cases heq
  computed value hvalue := by
    obtain rfl : m.gvt = value := Option.some.inj hvalue
    rw [GvtControlMessage.gvt_eq]
    exact ⟨Nat.le_min.mpr ⟨h.minimum, h.red⟩, (Nat.min_le_left _ _).trans h.bounded⟩

theorem notBefore_processRequest (h : gvt ≤ LONG_MAX) : g.processRequest.NotBefore gvt late := by
  simp only [processRequest]
  split
  · refine ⟨fun m hm => ?_, fun value hvalue => by cases hvalue⟩
    obtain rfl := by simpa using hm
    exact ⟨h, h, Nat.le_refl _, by simp⟩
  · exact ⟨by simp, fun value hvalue => by cases hvalue⟩

/-- Only the starter turns to the second cut. -/
theorem notBefore_processFirstCut (h : m.NotBefore gvt late) (hlvt : gvt ≤ lvt)
    (hturns : g.isGVTStarter = true → late) : (g.processFirstCut lvt m).NotBefore gvt late := by
  have hm : (g.addMessageCounts (m.lowerMinimum lvt)).NotBefore gvt late := by
    refine ⟨?_, ?_, ?_, ?_⟩
    · rw [addMessageCounts_minimum, GvtControlMessage.lowerMinimum_eq]
      exact Nat.le_min.mpr ⟨h.minimum, hlvt⟩
    · rw [addMessageCounts_red, GvtControlMessage.lowerMinimum_eq]
      exact h.red
    · rw [addMessageCounts_minimum, GvtControlMessage.lowerMinimum_eq]
      exact (Nat.min_le_left _ _).trans h.bounded
    · rw [addMessageCounts_cut, GvtControlMessage.lowerMinimum_eq]
      exact h.late
  simp only [processFirstCut]
  split
  · rename_i hstarter
    split
    · exact notBefore_passOn ⟨hm.minimum, hm.red, hm.bounded, fun _ => hturns hstarter⟩
    · exact notBefore_sendAndSetGvt hm
  · exact notBefore_passOn hm

theorem redTime_processFirstCut (g : GvtCalculator) (lvt : Nat) (m : GvtControlMessage) :
    (g.processFirstCut lvt m).calculator.redTime = LONG_MAX := by
  simp only [processFirstCut]
  split
  · split <;> rfl
  · rfl

theorem notBefore_processSecondCut (h : m.NotBefore gvt late) (hlvt : gvt ≤ lvt)
    (hown : gvt ≤ g.redTime) : (g.processSecondCut lvt m).NotBefore gvt late := by
  have hm :
      (((m.lowerMinimum lvt).lowerRed g.redTime).setMessageCount g.rank 0).NotBefore gvt late := by
    rw [GvtControlMessage.lowerRed_eq, GvtControlMessage.lowerMinimum_eq]
    exact ⟨Nat.le_min.mpr ⟨h.minimum, hlvt⟩, Nat.le_min.mpr ⟨h.red, hown⟩,
      (Nat.min_le_left _ _).trans h.bounded, h.late⟩
  simp only [processSecondCut]
  split
  · exact notBefore_sendAndSetGvt hm
  · exact notBefore_passOn hm

theorem redTime_processSecondCut (g : GvtCalculator) (lvt : Nat) (m : GvtControlMessage) :
    (g.processSecondCut lvt m).calculator.redTime = g.redTime := by
  simp only [processSecondCut]
  split <;> rfl

theorem redTime_processRequest (g : GvtCalculator) :
    g.processRequest.calculator.redTime = g.redTime := by
  simp only [processRequest]
  split <;> rfl

theorem redTime_processValue (g : GvtCalculator) : g.processValue.redTime = g.redTime := by
  simp only [processValue]
  split <;> rfl

theorem redTime_preProcessReceiveMessage (g : GvtCalculator) (colour : MatternColour) :
    (g.preProcessReceiveMessage colour).redTime = g.redTime := by
  cases colour <;> rfl

/-- The red time comes down at most to the time of the message that is sent. -/
theorem le_redTime_preProcessSendMessage {g' : GvtCalculator} {destination timestamp : Nat}
    (h : g.preProcessSendMessage destination timestamp = some g') (htime : gvt ≤ timestamp)
    (hred : gvt ≤ g.redTime) : gvt ≤ g'.redTime := by
  simp only [preProcessSendMessage] at h
  split at h
  · split at h
    · cases h
      exact hred
    · cases h
  · cases h
    exact Nat.le_min.mpr ⟨hred, htime⟩

end GvtCalculator

namespace Alp

/-- An LVT that a rollback restores is not before `gvt`. -/
def RestoresFrom (alp : Alp) (gvt : Nat) (m : RollbackMessage) : Prop :=
  ∀ a ∈ alp.agents[m.originalAgent.identifier]?, m.rollbackTag ∉ alp.rollbackTagList →
    m.timestamp ≤ a.lvt → ∀ a' ∈ a.rollbackTo m.timestamp, gvt ≤ a'.lvt

instance (alp : Alp) (gvt : Nat) (m : RollbackMessage) : Decidable (alp.RestoresFrom gvt m) :=
  inferInstanceAs (Decidable (∀ a ∈ alp.agents[m.originalAgent.identifier]?, _))

theorem times_of_restored {alp alp' : Alp} {m : RollbackMessage} {executed : Bool} {gvt : Nat}
    (h : Transition alp (.receiveRollback m) alp' (.processed executed))
    (htimes : alp.times ⊆ Set.Ici gvt) (hm : gvt ≤ m.timestamp)
    (hrestores : alp.RestoresFrom gvt m) : alp'.times ⊆ Set.Ici gvt := by
  cases h with
  | rollbackDuplicate | rollbackTooLate => exact htimes
  | @rollbackExecuted a a' m ha htag hlvt ha' =>
      refine times_subset (lvt_of_insert htimes (hrestores a ha htag hlvt a' ha')) ?_
      intro n hn
      rcases List.mem_append.mp hn with hn | hn
      · exact htimes (timestamp_mem_times (timestamp_of_removeMessages hn))
      · exact hm.trans (le_of_antiMessages hn)

end Alp

namespace Gvt

section Definitions

variable (gvt R : Nat) (late : Prop)

def Packet.NotBefore : Packet → Prop
  | .simulation t => gvt ≤ t.message.timestamp
  | .control (.control m) => m.NotBefore gvt late
  | .control (.value _) => True

/-- A process that has nothing from before `gvt`, which was computed when every process had
made `R` first cuts. -/
structure Lp.NotBefore (lp : Lp) : Prop where
  times : lp.process.times ⊆ Set.Ici gvt
  red : R < lp.history.epoch → gvt ≤ lp.calculator.redTime
  epoch : R ≤ lp.history.epoch
  queued : ∀ m, .control m ∈ lp.sendControlMessageQueue → m.NotBefore gvt late
  awaiting : ∀ m ∈ lp.awaiting, m.NotBefore gvt late

end Definitions

namespace Process

variable {p p' : Process} {gvt : Nat}

theorem times_notBefore_agentStep {e : Alp.Event} (h : p.agentStep e = some p')
    (htimes : p.times ⊆ Set.Ici gvt) : p'.times ⊆ Set.Ici gvt :=
  (times_of_agentStep h).trans (upperClosure_min htimes (isUpperSet_Ici gvt))

theorem times_notBefore_dequeue {parentClp : Nat} {m : SimulationMessage}
    (h : p.dequeue parentClp = some (p', m)) (htimes : p.times ⊆ Set.Ici gvt) :
    p'.times ⊆ Set.Ici gvt ∧ gvt ≤ m.timestamp := by
  obtain ⟨hafter, hm⟩ := times_of_dequeue h
  exact ⟨hafter.trans (upperClosure_min htimes (isUpperSet_Ici gvt)), htimes hm⟩

theorem times_notBefore_receive {m : SimulationMessage} {answers : List (Nat × Payload)}
    {restored : Bool} (h : p.receive m answers = some (p', restored))
    (htimes : p.times ⊆ Set.Ici gvt) (hm : gvt ≤ m.timestamp)
    (hrestores : ∀ alp r, p = .alp alp → m.payload = .rollback r → alp.RestoresFrom gvt r) :
    p'.times ⊆ Set.Ici gvt := by
  cases restored with
  | false =>
      refine (times_of_receive h).trans (upperClosure_min ?_ (isUpperSet_Ici gvt))
      exact Set.insert_subset hm htimes
  | true =>
      -- only a rollback restores an LVT before its own time
      cases p with
      | clp now queue =>
          simp only [receive] at h
          split at h <;> cases h
      | alp a =>
          simp only [receive] at h
          split at h
          · cases h
          · obtain ⟨a', _, heq⟩ := Option.map_eq_some_iff.mp h
            cases heq
          · rename_i r hr
            obtain ⟨⟨a', executed⟩, ha', heq⟩ := Option.map_eq_some_iff.mp h
            obtain ⟨rfl, _⟩ := Prod.mk.inj heq
            have hstep : a.step (.receiveRollback r) = some (a', .processed executed) := by
              simp [Alp.step, ha']
            have htime : m.timestamp = r.timestamp := by
              simp only [SimulationMessage.timestamp, hr, Payload.timestamp]
            exact Alp.times_of_restored (Alp.transition_of_step hstep) htimes (htime ▸ hm)
              (hrestores a r rfl hr)

end Process

section Processes

variable {gvt R : Nat} {late late' : Prop}

theorem Packet.NotBefore.mono {packet : Packet} (h : packet.NotBefore gvt late)
    (hlate : late → late') : packet.NotBefore gvt late' := by
  match packet with
  | .simulation _ => exact h
  | .control (.control _) => exact GvtControlMessage.NotBefore.mono h hlate
  | .control (.value _) => trivial

namespace Lp

variable {lp lp' : Lp}

theorem NotBefore.mono (h : lp.NotBefore gvt R late) (hlate : late → late') :
    lp.NotBefore gvt R late' :=
  ⟨h.times, h.red, h.epoch, fun m hm => (h.queued m hm).mono hlate,
    fun m hm => (h.awaiting m hm).mono hlate⟩

theorem NotBefore.le_lvt (h : lp.NotBefore gvt R late) (hmax : gvt ≤ LONG_MAX) {lvt : Nat}
    (hlvt : lp.process.getLvt = some lvt) : gvt ≤ lvt := by
  have htimes := h.times
  cases hprocess : lp.process with
  | clp now queue =>
      rw [hprocess] at hlvt
      cases hlvt
      exact hmax.trans (by decide)
  | alp a =>
      rw [hprocess] at hlvt htimes
      exact htimes (Alp.getLvt_eq_some hlvt).2

/-- What a calculator queues and computes. -/
theorem NotBefore.apply (h : lp.NotBefore gvt R late) {o : GvtCalculator.Outcome}
    (history : CutHistory) (ho : o.NotBefore gvt late) (hepoch : R ≤ history.epoch)
    (hred : R < history.epoch → gvt ≤ o.calculator.redTime) :
    { lp.apply o with history := history }.NotBefore gvt R late where
  times := by
    rw [Network.apply_times]
    exact h.times
  red := hred
  epoch := hepoch
  queued m hm := (List.mem_append.mp hm).elim (h.queued m) (ho.queued m)
  awaiting := h.awaiting

theorem NotBefore.sends {parentClp destination : Nat} {packet : Packet}
    (h : lp.NotBefore gvt R late) (hs : lp.Sends parentClp lp' destination packet) :
    lp'.NotBefore gvt R late ∧ packet.NotBefore gvt late := by
  cases hs with
  | @control m rest hqueue =>
      have hrest : ∀ m', .control m' ∈ m :: rest → m'.NotBefore gvt late := hqueue ▸ h.queued
      refine ⟨⟨h.times, h.red, h.epoch, fun m' hm' => hrest m' (List.mem_cons_of_mem _ hm'),
        h.awaiting⟩, ?_⟩
      cases m with
      | control m => exact hrest m List.mem_cons_self
      | value => trivial
  | message hcontrol hdequeue hpre hsend =>
      obtain ⟨htimes, hm⟩ := Process.times_notBefore_dequeue hdequeue h.times
      refine ⟨⟨htimes, fun hepoch => ?_, h.epoch, h.queued, h.awaiting⟩, hm⟩
      exact GvtCalculator.le_redTime_preProcessSendMessage hsend hm (h.red hepoch)
  | handOn hcontrol hdequeue hpre =>
      obtain ⟨htimes, hm⟩ := Process.times_notBefore_dequeue hdequeue h.times
      exact ⟨⟨htimes, h.red, h.epoch, h.queued, h.awaiting⟩, hm⟩

theorem NotBefore.receives {answers : List (Nat × Payload)} {packet : Packet} {o : Option Nat}
    (h : lp.NotBefore gvt R late) (hr : lp.Receives answers packet lp' o)
    (hpacket : packet.NotBefore gvt late) (hmax : gvt ≤ LONG_MAX)
    (hrestores : ∀ t alp r, packet = .simulation t → lp.process = .alp alp →
      t.message.payload = .rollback r → alp.RestoresFrom gvt r)
    (hturns : ∀ m, packet = .control (.control m) → m.matternCut = .FIRST →
      lp.calculator.isGVTStarter = true → late) :
    lp'.NotBefore gvt R late ∧ ∀ value ∈ o, gvt ≤ value ∧ value ≤ LONG_MAX := by
  cases hr with
  | @message t process restored hreceive =>
      refine ⟨⟨?_, ?_, h.epoch, h.queued, h.awaiting⟩, fun value hvalue => by cases hvalue⟩
      · exact Process.times_notBefore_receive hreceive h.times hpacket fun alp r halp hr =>
          hrestores t alp r rfl halp hr
      · rw [GvtCalculator.redTime_preProcessReceiveMessage]
        exact h.red
  | @value m =>
      refine ⟨⟨?_, ?_, h.epoch, h.queued, h.awaiting⟩, fun value hvalue => by cases hvalue⟩
      · simp only [receiveValue]
        split
        · exact h.times
        · rw [Process.times_setGvt]
          exact h.times
      · simp only [receiveValue, GvtCalculator.redTime_processValue]
        exact h.red
  | @firstCut m lvt hcut hawaiting hlvt =>
      have ho := GvtCalculator.notBefore_processFirstCut hpacket (h.le_lvt hmax hlvt)
        (hturns m rfl hcut)
      refine ⟨h.apply _ ho (h.epoch.trans (Nat.le_succ _)) fun _ => ?_, ho.computed⟩
      rw [GvtCalculator.redTime_processFirstCut]
      exact hmax
  | @await m hcut hawaiting =>
      refine ⟨⟨h.times, h.red, h.epoch, h.queued, fun m' hm' => ?_⟩,
        fun value hvalue => by cases hvalue⟩
      obtain rfl := Option.some.inj hm'
      exact hpacket

theorem NotBefore.completes {m : GvtControlMessage} {lvt : Nat}
    (h : lp.NotBefore gvt R late) (exposed : Bool) (measured : Nat) (reported : Nat → Int)
    (hmax : gvt ≤ LONG_MAX)
    (hawaiting : lp.awaiting = some m)
    (hlvt : lp.process.getLvt = some lvt) (hepoch : R < lp.history.epoch) :
    { lp.apply (lp.calculator.processSecondCut lvt m) with
        awaiting := none
        history := ⟨lp.history.epoch, true, exposed, measured, reported⟩ }.NotBefore gvt R late ∧
      ∀ value ∈ (lp.calculator.processSecondCut lvt m).gvt, gvt ≤ value ∧ value ≤ LONG_MAX := by
  have ho := GvtCalculator.notBefore_processSecondCut (h.awaiting m hawaiting)
    (h.le_lvt hmax hlvt) (h.red hepoch)
  have happly : { lp.apply (lp.calculator.processSecondCut lvt m) with
      history := ⟨lp.history.epoch, true, exposed, measured, reported⟩ }.NotBefore gvt R late := by
    refine h.apply _ ho h.epoch fun _ => ?_
    rw [GvtCalculator.redTime_processSecondCut]
    exact h.red hepoch
  exact ⟨⟨happly.times, happly.red, happly.epoch, happly.queued, fun _ hm => by cases hm⟩,
    ho.computed⟩

end Lp

end Processes

def Packet.message? : Packet → Option SimulationMessage
  | .simulation t => some t.message
  | .control _ => none

def Payload.rollback? : Payload → Option RollbackMessage
  | .agent _ | .response _ => none
  | .rollback m => some m

def Process.alp? : Process → Option Alp
  | .clp .. => none
  | .alp a => some a

namespace Network

section Definitions

variable (setup : Setup) (gvt R : Nat) (net : Network)

/-- Every process has made more than `R` first cuts. -/
def Late : Prop := ∀ rank, rank < setup.size → R < (net.lp rank).history.epoch

structure NotBefore : Prop where
  lps : ∀ rank, rank < setup.size → (net.lp rank).NotBefore gvt R (net.Late setup R)
  links : ∀ source target, ∀ packet ∈ net.link source target,
    packet.NotBefore gvt (net.Late setup R)
  bounded : gvt ≤ LONG_MAX

/-- A rollback that is taken restores no LVT before `gvt`, and no CLP queues a message of its
own before it. -/
def StaysFrom : SystemEvent → Prop
  | .network (.receive rank source _) =>
      ∀ m ∈ (net.link source rank).head?.bind Packet.message?,
        ∀ alp ∈ (net.lp rank).process.alp?, ∀ r ∈ m.payload.rollback?, alp.RestoresFrom gvt r
  | .network _ => True
  | .post _ m => gvt ≤ m.timestamp

instance : ∀ e, Decidable (net.StaysFrom gvt e)
  | .network (.receive rank source _) =>
      inferInstanceAs (Decidable (∀ m ∈ (net.link source rank).head?.bind Packet.message?,
        ∀ alp ∈ (net.lp rank).process.alp?, ∀ r ∈ m.payload.rollback?, alp.RestoresFrom gvt r))
  | .network (.agent ..) | .network (.send _) | .network (.complete _) | .network (.request _) =>
      inferInstanceAs (Decidable True)
  | .post _ m => inferInstanceAs (Decidable (gvt ≤ m.timestamp))

end Definitions

variable {setup : Setup} {gvt R : Nat} {net net' : Network} {e : Event} {o : Option Nat}

section Step

variable {rank : Nat} {lp : Lp} {link : Pipes Nat Packet}

theorem Late.setLp (h : net.Late setup R)
    (hepoch : (net.lp rank).history.epoch ≤ lp.history.epoch) :
    ({ net.setLp rank lp with link := link } : Network).Late setup R := by
  intro i hi
  by_cases hir : i = rank
  · subst hir
    simpa using Nat.lt_of_lt_of_le (h i hi) hepoch
  · simp only [setLp_lp_of_ne net lp hir]
    exact h i hi

/-- One process has changed, and what is new on the links. -/
theorem NotBefore.setLp (h : net.NotBefore setup gvt R) (hr : rank < setup.size)
    (hepoch : (net.lp rank).history.epoch ≤ lp.history.epoch)
    (hchange : (∀ source target, ∀ packet ∈ net.link source target, packet.NotBefore gvt
          (({ net.setLp rank lp with link := link } : Network).Late setup R)) →
        (net.lp rank).NotBefore gvt R
          (({ net.setLp rank lp with link := link } : Network).Late setup R) →
      lp.NotBefore gvt R (({ net.setLp rank lp with link := link } : Network).Late setup R) ∧
        ∀ source target, ∀ packet ∈ link source target, packet ∈ net.link source target ∨
          packet.NotBefore gvt
            (({ net.setLp rank lp with link := link } : Network).Late setup R)) :
    ({ net.setLp rank lp with link := link } : Network).NotBefore setup gvt R := by
  have hlate : net.Late setup R →
      ({ net.setLp rank lp with link := link } : Network).Late setup R := fun h => h.setLp hepoch
  have hlinks := fun source target packet hpacket =>
    (h.links source target packet hpacket).mono hlate
  obtain ⟨hlp, hlink⟩ := hchange hlinks ((h.lps rank hr).mono hlate)
  refine ⟨fun i hi => ?_, fun source target packet hpacket => ?_, h.bounded⟩
  · by_cases hir : i = rank
    · subst hir
      simpa using hlp
    · simp only [setLp_lp_of_ne net lp hir]
      exact (h.lps i hi).mono hlate
  · exact (hlink source target packet hpacket).elim (hlinks source target packet) id

/-- When the starter turns to the second cut, every process has made the first. -/
theorem Round.late {m : GvtControlMessage} {station : Station} {p S : Nat}
    (hround : net.Round setup S station m p) (hcut : m.matternCut = .FIRST)
    (hdestination : 0 = m.destination) (hepoch : R ≤ (net.lp 0).history.epoch)
    (hlp : lp.history.epoch = (net.lp 0).history.epoch + 1) :
    ({ net.setLp 0 lp with link := link } : Network).Late setup R := by
  have hp : p = setup.size := hround.toCirculates.size_of_starter hdestination
  have hsize := hround.position
  have hstarter := (hround.others 0 (by omega) (zero_not_swept p)).1
  simp only [hcut, reduceCtorEq, ite_false] at hstarter
  intro i hi
  by_cases hi0 : i = 0
  · subst hi0
    rw [setLp_lp_self, hlp]
    exact Nat.lt_succ_of_le hepoch
  · simp only [setLp_lp_of_ne net lp hi0]
    rw [(hround.passed i ⟨Nat.pos_of_ne_zero hi0, hp ▸ hi⟩).1]
    omega

/-- No step of a process goes back behind `gvt`, and none computes a value before it. -/
theorem NotBefore.work (h : net.NotBefore setup gvt R) (hc : net.Computing setup)
    (hstays : net.StaysFrom gvt (.network e)) (hworks : Works setup net e net' o) :
    net'.NotBefore setup gvt R ∧ ∀ value ∈ o, gvt ≤ value ∧ value ≤ LONG_MAX := by
  cases hworks with
  | @agent rank e process hr hagent =>
      refine ⟨h.setLp hr (Nat.le_refl _) fun _ hlp => ⟨?_, fun _ _ _ hmem => .inl hmem⟩,
        fun _ hv => by cases hv⟩
      exact ⟨Process.times_notBefore_agentStep hagent hlp.times, hlp.red, hlp.epoch, hlp.queued,
        hlp.awaiting⟩
  | @send rank lp destination packet hr hd hsend =>
      have hs := Lp.sends_of_send hsend
      have hepoch : (net.lp rank).history.epoch ≤ lp.history.epoch := by
        cases hs <;> exact Nat.le_refl _
      refine ⟨h.setLp hr hepoch fun _ hlp => ?_, fun _ hv => by cases hv⟩
      obtain ⟨hlp', hpacket⟩ := hlp.sends hs
      refine ⟨hlp', fun i j packet' hmem => (Pipes.mem_push hmem).imp_right ?_⟩
      rintro ⟨_, _, rfl⟩
      exact hpacket
  | @receive rank source answers packet rest lp o hr hreceiving hlink hreceive =>
      have hreceives := Lp.receives_of_receive hreceive
      have hepoch : (net.lp rank).history.epoch ≤ lp.history.epoch := by
        cases hreceives with
        | message | value | await => exact Nat.le_refl _
        | firstCut => exact Nat.le_succ _
      have hrestores : ∀ t alp r, packet = .simulation t → (net.lp rank).process = .alp alp →
          t.message.payload = .rollback r → alp.RestoresFrom gvt r := by
        rintro t alp r rfl halp hr
        exact hstays t.message (by simp [hlink, Packet.message?]) alp
          (by simp [halp, Process.alp?]) r (by simp [hr, Payload.rollback?])
      have htaken : ∀ late : Prop, packet.NotBefore gvt late →
          (net.lp rank).NotBefore gvt R late →
          (∀ m, packet = .control (.control m) → m.matternCut = .FIRST →
            (net.lp rank).calculator.isGVTStarter = true → late) →
          lp.NotBefore gvt R late ∧ ∀ value ∈ o, gvt ≤ value ∧ value ≤ LONG_MAX :=
        fun _ hpacket hlp hturns => hlp.receives hreceives hpacket h.bounded hrestores hturns
      have hmem : packet ∈ net.link source rank := by simp [hlink]
      refine ⟨h.setLp hr hepoch fun hlinks hlp => ⟨?_, fun i j packet' hmem' =>
          .inl (Pipes.mem_put_tail hlink hmem')⟩,
        (htaken True ((h.links source rank packet hmem).mono fun _ => trivial)
          ((h.lps rank hr).mono fun _ => trivial) fun _ _ _ _ => trivial).2⟩
      refine (htaken _ (hlinks source rank packet hmem) hlp ?_).1
      rintro m rfl hcut hstarter
      obtain rfl := hc.placed.isGVTStarter.mp hstarter
      obtain ⟨S, p, hround⟩ := hc.round_of_link hlink
      refine hround.late hcut hround.leadsTo (h.lps 0 hr).epoch ?_
      cases hreceives with
      | firstCut => rfl
      | await hsecond =>
          rw [hcut] at hsecond
          cases hsecond
  | @complete rank lp o hr hcomplete =>
      obtain ⟨m, lvt, hawaiting, _, hlvt, rfl, rfl⟩ := Lp.exists_of_complete hcomplete
      obtain ⟨S, p, hround⟩ := hc.round_of_awaiting hawaiting
      have hlate := ((h.lps rank hr).awaiting m hawaiting).late (hround.waits rank rfl) rank hr
      refine ⟨h.setLp hr (Nat.le_refl _) fun _ hlp => ⟨?_, fun _ _ _ hmem => .inl hmem⟩,
        ((h.lps rank hr).completes false 0 (fun _ => 0) h.bounded hawaiting hlvt hlate).2⟩
      exact (hlp.completes _ _ _ h.bounded hawaiting hlvt hlate).1
  | @request rank hr hreceiving =>
      refine ⟨h.setLp hr (Nat.le_refl _) fun _ hlp => ⟨?_, fun _ _ _ hmem => .inl hmem⟩,
        fun _ hv => by cases hv⟩
      refine hlp.apply (net.lp rank).history (GvtCalculator.notBefore_processRequest h.bounded)
        hlp.epoch fun hepoch => ?_
      rw [GvtCalculator.redTime_processRequest]
      exact hlp.red hepoch

theorem NotBefore.step {e : SystemEvent} (h : net.NotBefore setup gvt R)
    (hc : net.Computing setup) (hstays : net.StaysFrom gvt e)
    (hstep : net.systemStep setup e = some (net', o)) :
    net'.NotBefore setup gvt R ∧ ∀ value ∈ o, gvt ≤ value ∧ value ≤ LONG_MAX := by
  cases e with
  | network e => exact h.work hc hstays (works_of_step hstep)
  | post rank m =>
      obtain ⟨hr, hstep⟩ := Option.ite_none_right_eq_some.mp hstep
      obtain ⟨lp, hpost, heq⟩ := Option.map_eq_some_iff.mp hstep
      cases heq
      obtain ⟨process, hprocess, rfl⟩ := Option.map_eq_some_iff.mp hpost
      refine ⟨h.setLp hr (Nat.le_refl _) fun _ hlp => ⟨?_, fun _ _ _ hmem => .inl hmem⟩,
        fun _ hv => by cases hv⟩
      have htimes := (Process.times_of_post hprocess).trans (Set.insert_subset hstays hlp.times)
      exact ⟨htimes, hlp.red, hlp.epoch, hlp.queued, hlp.awaiting⟩

/-- A round is over when GVT has been computed. -/
theorem idle_of_computed {e : SystemEvent} (h : net.Computing setup)
    (hstep : net.systemStep setup e = some (net', some gvt)) : ∃ R, net'.Idle setup R := by
  have hcomputing := computing_step h hstep
  obtain ⟨e, rfl, hstep⟩ := network_of_computed hstep
  have haccepting : (net'.lp 0).calculator.isAcceptingRequests = true := by
    have htransition := transition_of_step hstep
    generalize hsome : some gvt = o at htransition
    cases htransition with
    | agent | sendControl | sendMessage | receiveMessage | receiveValue | await | request =>
        cases hsome
    | @firstCut rank source m rest answers lvt hr hlink hcut hawaiting hlvt =>
        have hends : (net.lp rank).calculator.endsWithFirstCut lvt m = true := by
          by_contra hnot
          obtain ⟨m', hpasses, _⟩ := GvtCalculator.processFirstCut_passes (by simpa using hnot)
          rw [hpasses.gvt] at hsome
          cases hsome
        obtain rfl := h.placed.starter_of_ends hends
        obtain ⟨_, hfinishes, _⟩ := GvtCalculator.processFirstCut_finishes hends
        rw [(cutAt_link hlink).calculator]
        exact hfinishes.accepting
    | @complete rank m lvt hr hawaiting hlvt =>
        have hstarter : (net.lp rank).calculator.isGVTStarter = true := by
          by_contra hnot
          obtain ⟨m', hpasses, _⟩ := GvtCalculator.processSecondCut_passes lvt m
            (by simpa using hnot)
          rw [hpasses.gvt] at hsome
          cases hsome
        obtain rfl := h.placed.isGVTStarter.mp hstarter
        rw [cutAt_awaiting.calculator]
        exact (GvtCalculator.processSecondCut_finishes lvt m hstarter).accepting
  obtain ⟨R, hidle | ⟨_, _, _, hround⟩⟩ := hcomputing.phase
  · exact ⟨R, hidle⟩
  · rw [hround.busy] at haccepting
    cases haccepting

theorem Bounds.times (h : net.Bounds setup gvt) (hmax : gvt ≤ LONG_MAX) (hr : rank < setup.size) :
    (net.lp rank).process.times ⊆ Set.Ici gvt := by
  have hqueued := h.queued rank hr
  cases hprocess : (net.lp rank).process with
  | clp now queue =>
      rw [hprocess] at hqueued
      rintro t ⟨m, hm, rfl⟩
      exact hqueued _ (List.mem_map_of_mem hm)
  | alp a =>
      rw [hprocess] at hqueued
      refine Alp.times_subset (fun id agent ha => ?_) fun m hm => hqueued _ (List.mem_map_of_mem hm)
      cases hlvt : a.getLvt with
      | none => exact hmax.trans (Nat.le_trans (by decide) (Alp.getLvt_eq_none hlvt ha))
      | some lvt =>
          exact (h.lvt rank a lvt hr hprocess hlvt).trans ((Alp.getLvt_eq_some hlvt).1 id agent ha)

theorem Idle.not_queued (h : net.Idle setup R) (m : GvtControlMessage) :
    .control m ∉ (net.lp rank).sendControlMessageQueue := by
  intro hm
  have hmem : m ∈ net.controls (.queue rank) := List.mem_filterMap.mpr ⟨_, hm, rfl⟩
  exact h.token.not_mem hmem

theorem Idle.not_linked (h : net.Idle setup R) {source target : Nat} (m : GvtControlMessage) :
    .control (.control m) ∉ net.link source target := by
  intro hm
  have hmem : m ∈ net.controls (.link source target) := List.mem_filterMap.mpr ⟨_, hm, rfl⟩
  exact h.token.not_mem hmem

/-- Between two rounds nothing but the times counts. -/
theorem notBefore_of_idle (h : net.Idle setup R) (hbounds : net.Bounds setup gvt)
    (hmax : gvt ≤ LONG_MAX) : net.NotBefore setup gvt R where
  lps rank hr :=
    { times := hbounds.times hmax hr
      red := fun hlt => absurd hlt (by rw [h.epoch rank hr]; exact Nat.lt_irrefl R)
      epoch := Nat.le_of_eq (h.epoch rank hr).symm
      queued := fun m hm => absurd hm (h.not_queued m)
      awaiting := fun m hm => absurd (mem_controls_awaiting hm) h.token.not_mem }
  links source target packet hpacket :=
    match packet with
    | .simulation t => hbounds.inFlight source target t hpacket
    | .control (.control m) => absurd hpacket (h.not_linked m)
    | .control (.value _) => trivial
  bounded := hmax

theorem StaysFrom.mono {e : SystemEvent} {floor : Nat} (h : net.StaysFrom gvt e)
    (hle : floor ≤ gvt) : net.StaysFrom floor e := by
  cases e with
  | post rank m => exact hle.trans h
  | network e =>
      cases e with
      | agent | send | complete | request => trivial
      | receive rank source answers =>
          intro m hm alp halp r hr a ha htag hlvt a' ha'
          exact hle.trans (h m hm alp halp r hr a ha htag hlvt a' ha')

theorem NotBefore.bounds (h : net.NotBefore setup gvt R) {value : Nat} (hle : value ≤ gvt) :
    net.Bounds setup value :=
  bounds_of_times (fun rank hr => (h.lps rank hr).times.trans (Set.Ici_subset_Ici.mpr hle))
    fun i j _ ht => hle.trans (h.links i j _ ht)

end Step

section Runs

variable {net₀ : Network} {es : List SystemEvent} {os : List (Option Nat)} {floor : Nat}

/-- Nothing escapes the rounds, and nothing goes behind the GVT of the starter. -/
def Proceeds (setup : Setup) (net : Network) (e : SystemEvent) : Prop :=
  net.NothingMissed setup e ∧ net.StaysFrom (net.lp 0).process.gvt e

instance (setup : Setup) (net : Network) (e : SystemEvent) : Decidable (Proceeds setup net e) :=
  inferInstanceAs (Decidable (_ ∧ _))

/-- What holds where `floor` is the value computed last, or 0 before the first. -/
structure Ahead (setup : Setup) (floor : Nat) (net : Network) : Prop where
  computing : net.Computing setup
  authentic : Authentic setup net
  notBefore : ∃ R, net.NotBefore setup floor R
  le_gvt : floor ≤ (net.lp 0).process.gvt

theorem Initial.ahead (h : Initial setup net) : Ahead setup 0 net where
  computing := computing_of_initial h
  authentic := h.authentic
  notBefore := by
    refine ⟨0, notBefore_of_idle (idle_of_initial h) ⟨?_, ?_, ?_⟩ (Nat.zero_le _)⟩
    · exact fun _ _ _ _ _ _ => Nat.zero_le _
    · exact fun _ _ _ _ => Nat.zero_le _
    · exact fun _ _ _ _ => Nat.zero_le _
  le_gvt := Nat.zero_le _

/-- A value that is computed is not before the last one. -/
theorem Ahead.step {e : SystemEvent} (h : Ahead setup floor net) (hproceeds : Proceeds setup net e)
    (hstep : net.systemStep setup e = some (net', o)) :
    Ahead setup (o.getD floor) net' ∧ floor ≤ o.getD floor := by
  obtain ⟨R, hnotBefore⟩ := h.notBefore
  obtain ⟨hkept, hcomputed⟩ :=
    hnotBefore.step h.computing (hproceeds.2.mono h.le_gvt) hstep
  have hpublishes := publishes_of_step h.authentic hstep
  have hheld := hpublishes.held 0
  rw [hpublishes.starter] at hheld
  have hcomputing := computing_step h.computing hstep
  cases o with
  | none =>
      have hgvt : (net'.lp 0).process.gvt = (net.lp 0).process.gvt := hheld
      exact ⟨⟨hcomputing, hpublishes.authentic, ⟨R, hkept⟩, hgvt ▸ h.le_gvt⟩, Nat.le_refl _⟩
  | some value =>
      have hgvt : (net'.lp 0).process.gvt = value := hheld
      obtain ⟨hle, hmax⟩ := hcomputed value rfl
      obtain ⟨S, hidle⟩ := idle_of_computed h.computing hstep
      have hbounds := bounds_of_step h.computing hstep hproceeds.1
      exact ⟨⟨hcomputing, hpublishes.authentic, ⟨S, notBefore_of_idle hidle hbounds hmax⟩,
        Nat.le_of_eq hgvt.symm⟩, hle⟩

theorem Ahead.run (h : Ahead setup floor net)
    (hmeets : (systemMachine setup).Meets (Proceeds setup) net es)
    (hrun : (systemMachine setup).run net es = some (net', os)) :
    ∃ last, Ahead setup last net' ∧ floor ≤ last ∧ (os.filterMap id).Pairwise (· ≤ ·) ∧
      ∀ value ∈ os.filterMap id, floor ≤ value ∧ value ≤ last := by
  induction es generalizing net os floor with
  | nil =>
      obtain ⟨rfl, rfl⟩ : net = net' ∧ [] = os := by simpa using hrun
      exact ⟨floor, h, Nat.le_refl _, .nil, fun _ hv => by cases hv⟩
  | cons e es ih =>
      obtain ⟨net₁, o, os', hstep, hrest, rfl⟩ := (systemMachine setup).run_cons_iff.mp hrun
      obtain ⟨hproceeds, hmeets'⟩ := ((systemMachine setup).meets_cons _ hstep).mp hmeets
      obtain ⟨h₁, hle⟩ := h.step hproceeds hstep
      obtain ⟨last, hlast, hle', hsorted, hbetween⟩ := ih h₁ hmeets' hrest
      refine ⟨last, hlast, hle.trans hle', ?_⟩
      cases o with
      | none => exact ⟨hsorted, hbetween⟩
      | some gvt =>
          simp only [List.filterMap_cons_some (f := id) rfl]
          refine ⟨List.pairwise_cons.mpr ⟨fun value hv => (hbetween value hv).1, hsorted⟩, ?_⟩
          intro value hv
          rcases List.mem_cons.mp hv with rfl | hv
          · exact ⟨hle, hle'⟩
          · exact ⟨hle.trans (hbetween value hv).1, (hbetween value hv).2⟩

/-- As long as nothing escapes a round and nothing goes behind GVT, the values of GVT never go
back, and each of them stays a lower bound for good. -/
theorem gvt_never_goes_back (hinitial : Initial setup net₀)
    (hmeets : (systemMachine setup).Meets (Proceeds setup) net₀ es)
    (hrun : (systemMachine setup).run net₀ es = some (net, os)) :
    (os.filterMap id).Pairwise (· ≤ ·) ∧ ∀ gvt ∈ os.filterMap id, net.Bounds setup gvt := by
  obtain ⟨last, hahead, _, hsorted, hbetween⟩ := hinitial.ahead.run hmeets hrun
  refine ⟨hsorted, fun gvt hgvt => ?_⟩
  obtain ⟨R, hnotBefore⟩ := hahead.notBefore
  exact hnotBefore.bounds (hbetween gvt hgvt).2

/-- The agents of `duo` move on from 5 and 7 to 9, and GVT is computed before and after. -/
def roundsOfFiveAndSeven : List SystemEvent :=
  roundOfFive ++ [.network (.agent 1 (.timeWrap 1 9)), .network (.request 0),
    .network (.send 0), .network (.receive 1 0 []), .network (.send 1), .network (.receive 0 1 [])]

theorem gvt_never_goes_back_roundsOfFiveAndSeven : ∃ net os,
    (systemMachine duo).run (create duo duoProcess) roundsOfFiveAndSeven = some (net, os) ∧
    os.filterMap id = [5, 7] ∧ (os.filterMap id).Pairwise (· ≤ ·) ∧
    ∀ gvt ∈ os.filterMap id, net.Bounds duo gvt := by
  obtain ⟨net, os, hrun, hvalues⟩ : ∃ net os,
      (systemMachine duo).run (create duo duoProcess) roundsOfFiveAndSeven = some (net, os) ∧
        os.filterMap id = [5, 7] := ⟨_, _, rfl, rfl⟩
  have hmeets : (systemMachine duo).Meets (Proceeds duo) (create duo duoProcess)
      roundsOfFiveAndSeven := by
    decide
  exact ⟨net, os, hrun, hvalues, gvt_never_goes_back initial_duo hmeets hrun⟩

/-- `TerminationCondition` -/
def TerminationCondition (endTime : Nat) (p : Process) : Prop := p.gvt ≥ endTime

/-- A process that has not begun with a GVT at the end time leaves its main loop only when
every agent has come to the end time, and nothing from before it is queued or on the way. -/
theorem no_process_stops_early (hinitial : Initial setup net₀)
    (hmeets : (systemMachine setup).Meets (Proceeds setup) net₀ es)
    (hrun : (systemMachine setup).run net₀ es = some (net, os)) {rank endTime : Nat}
    (hrank : rank < setup.size) (hstart : ¬ TerminationCondition endTime (net₀.lp rank).process)
    (hstops : TerminationCondition endTime (net.lp rank).process) :
    (∀ i alp, i < setup.size → (net.lp i).process = .alp alp →
        ∀ (id : Nat) (a : AgentState), alp.agents[id]? = some a → endTime ≤ a.lvt) ∧
      net.Bounds setup endTime := by
  obtain ⟨last, hahead, _, _, hbetween⟩ := hinitial.ahead.run hmeets hrun
  obtain ⟨R, hnotBefore⟩ := hahead.notBefore
  have hle : endTime ≤ last := by
    have hvalues := values_of_run hinitial hrun hrank
    rw [TerminationCondition, gvt_of_run hinitial hrun rank] at hstops
    cases hset : ((systemMachine setup).trail (valuesSet rank) net₀ es).getLast? with
    | none =>
        rw [hset] at hstops
        exact absurd hstops hstart
    | some value =>
        rw [hset] at hstops
        refine hstops.le.trans (hbetween value ?_).2
        rw [← hvalues]
        exact List.mem_append_left _ (List.mem_of_getLast? hset)
  refine ⟨fun i alp hi halp id a ha => ?_, hnotBefore.bounds hle⟩
  have htimes := (hnotBefore.lps i hi).times
  rw [halp] at htimes
  exact hle.trans (htimes (Alp.lvt_mem_times ha))

theorem no_process_stops_early_roundOfFive : ∃ net os,
    (systemMachine duo).run (create duo duoProcess) roundOfFive = some (net, os) ∧
    (∀ i alp, i < duo.size → (net.lp i).process = .alp alp →
        ∀ (id : Nat) (a : AgentState), alp.agents[id]? = some a → 5 ≤ a.lvt) ∧
      net.Bounds duo 5 :=
  ⟨_, _, rfl, no_process_stops_early initial_duo
    (show (systemMachine duo).Meets (Proceeds duo) (create duo duoProcess) roundOfFive by decide)
    rfl (show 1 < duo.size by decide) (show ¬ 0 ≥ 5 by decide) (show 5 ≤ 5 from Nat.le_refl 5)⟩

end Runs

end Network
end Gvt
end PdesMas
