import PdesMas.Library.Ledger
import PdesMas.Lp.GvtSafety

/-!
The processes agree on the values of GVT. The starter sends each value it
computes to every other process, and a process sets the values in the order in
which they were computed, leaving out none.
-/

namespace PdesMas

namespace GvtCalculator

/-- An outcome with a value has it announced to every other process, and it is that of the
starter. -/
structure Outcome.Reports (g : GvtCalculator) (o : Outcome) : Prop where
  rank : o.calculator.rank = g.rank
  size : o.calculator.size = g.size
  values : o.gvt = none ∧ (∀ m, .value m ∉ o.queued) ∨
    g.isGVTStarter = true ∧ ∃ gvt, o.gvt = some gvt ∧
      o.queued = ((List.range g.size).filter fun lp => lp ≠ g.rank).map fun lp => .value ⟨lp, gvt⟩

variable {g : GvtCalculator}

theorem reports_passOn (g : GvtCalculator) (m : GvtControlMessage) :
    (g.passOn m).Reports g := ⟨rfl, rfl, .inl ⟨rfl, by simp [passOn]⟩⟩

theorem reports_sendAndSetGvt (h : g.isGVTStarter = true) (m : GvtControlMessage) :
    (g.sendAndSetGvt m).Reports g := ⟨rfl, rfl, .inr ⟨h, _, rfl, rfl⟩⟩

theorem gvt_processRequest (g : GvtCalculator) : g.processRequest.gvt = none := by
  simp only [processRequest]
  split <;> rfl

theorem reports_processRequest (g : GvtCalculator) : g.processRequest.Reports g := by
  simp only [processRequest]
  split
  · exact ⟨rfl, rfl, .inl ⟨rfl, by simp⟩⟩
  · exact ⟨rfl, rfl, .inl ⟨rfl, by simp⟩⟩

theorem Outcome.Reports.congr {g' : GvtCalculator} {o : Outcome} (h : o.Reports g')
    (hrank : g'.rank = g.rank) (hsize : g'.size = g.size) : o.Reports g := by
  obtain ⟨hr, hs, hvalues⟩ := h
  refine ⟨hr.trans hrank, hs.trans hsize, ?_⟩
  rwa [isGVTStarter, hrank, hsize] at hvalues

theorem reports_processFirstCut (g : GvtCalculator) (lvt : Nat) (m : GvtControlMessage) :
    (g.processFirstCut lvt m).Reports g := by
  simp only [processFirstCut]
  split
  · rename_i hstarter
    split
    · exact (reports_passOn _ _).congr rfl rfl
    · exact (reports_sendAndSetGvt
        (g := { g with colour := .WHITE, redTime := LONG_MAX }) hstarter _).congr rfl rfl
  · exact (reports_passOn _ _).congr rfl rfl

theorem reports_processSecondCut (g : GvtCalculator) (lvt : Nat) (m : GvtControlMessage) :
    (g.processSecondCut lvt m).Reports g := by
  simp only [processSecondCut]
  split
  · rename_i hstarter
    exact (reports_sendAndSetGvt hstarter _).congr rfl rfl
  · exact (reports_passOn _ _).congr rfl rfl

end GvtCalculator

/-- Only `SetGvt` changes the GVT of an ALP. -/
theorem Alp.gvt_of_transition {alp alp' : Alp} {e : Alp.Event} {r : Alp.Result}
    (h : Alp.Transition alp e alp' r) (hother : ∀ gvt, e ≠ .setGvt gvt) : alp'.gvt = alp.gvt := by
  cases h with
  | setGvt gvt => exact absurd rfl (hother gvt)
  | issue | timeWrap | sendAnti | sendRequest | responseIgnored | responseStored | consume
  | rollbackDuplicate | rollbackTooLate | rollbackExecuted => rfl

/-- The value of a message to `rank`. -/
def ControlMessage.valueFor (rank : Nat) : ControlMessage → Option Nat
  | .value m => if m.destination = rank then some m.gvt else none
  | .control _ => none

theorem filterMap_single {l : List Nat} {rank : Nat} (hl : l.Nodup) (hmem : rank ∈ l)
    (gvt : Nat) : (l.filterMap fun lp => if lp = rank then some gvt else none) = [gvt] := by
  induction l with
  | nil => cases hmem
  | cons lp l ih =>
      obtain ⟨hlp, hl⟩ := List.nodup_cons.mp hl
      by_cases heq : lp = rank
      · subst heq
        have hnone : (l.filterMap fun lp' => if lp' = lp then some gvt else none) = [] := by
          refine List.filterMap_eq_nil_iff.mpr fun lp' h => if_neg ?_
          rintro rfl
          exact hlp h
        simp [hnone]
      · have hrest := ih hl ((List.mem_cons.mp hmem).resolve_left (Ne.symm heq))
        simpa [List.filterMap_cons, heq] using hrest

theorem valuesFor_announced {size rank self : Nat} (hrank : rank < size) (hne : rank ≠ self)
    (gvt : Nat) :
    ((((List.range size).filter fun lp => lp ≠ self).map fun lp =>
      ControlMessage.value ⟨lp, gvt⟩).filterMap (·.valueFor rank)) = [gvt] := by
  rw [List.filterMap_map]
  exact filterMap_single (List.nodup_range.filter _) (by simp [hrank, hne]) gvt

theorem valuesFor_eq_nil {l : List ControlMessage} (h : ∀ m, .value m ∉ l) (rank : Nat) :
    l.filterMap (·.valueFor rank) = [] := by
  refine List.filterMap_eq_nil_iff.mpr fun m hm => ?_
  cases m with
  | control => rfl
  | value m => exact absurd hm (h m)

namespace Gvt

def Packet.value? : Packet → Option Nat
  | .control (.value m) => some m.gvt
  | .simulation _ | .control (.control _) => none

namespace Process

def gvt : Process → Nat
  | .clp gvt _ => gvt
  | .alp a => a.gvt

theorem gvt_setGvt (p : Process) (gvt : Nat) : (p.setGvt gvt).gvt = gvt := by
  cases p <;> rfl

theorem gvt_agentStep {p p' : Process} {e : Alp.Event} (h : p.agentStep e = some p') :
    p'.gvt = p.gvt := by
  cases p with
  | clp => cases h
  | alp a =>
      simp only [agentStep] at h
      split at h
      · obtain ⟨r, hstep, rfl⟩ := Option.map_eq_some_iff.mp h
        exact Alp.gvt_of_transition (Alp.transition_of_step hstep) (by simp)
      · obtain ⟨r, hstep, rfl⟩ := Option.map_eq_some_iff.mp h
        exact Alp.gvt_of_transition (Alp.transition_of_step hstep) (by simp)
      · obtain ⟨r, hstep, rfl⟩ := Option.map_eq_some_iff.mp h
        exact Alp.gvt_of_transition (Alp.transition_of_step hstep) (by simp)
      · cases h

theorem gvt_dequeue {p p' : Process} {parentClp : Nat} {m : SimulationMessage}
    (h : p.dequeue parentClp = some (p', m)) : p'.gvt = p.gvt := by
  cases p with
  | clp gvt queue =>
      simp only [dequeue] at h
      split at h
      · cases h
      · cases h
        rfl
  | alp a =>
      obtain ⟨r, hsend, heq⟩ := Option.map_eq_some_iff.mp h
      cases heq
      have hstep : a.step .send = some (r.1, .sent r.2) := by simp [Alp.step, hsend]
      exact Alp.gvt_of_transition (Alp.transition_of_step hstep) (by simp)

theorem gvt_post {p p' : Process} {m : SimulationMessage} (h : p.post m = some p') :
    p'.gvt = p.gvt := by
  cases p with
  | clp gvt queue =>
      cases h
      rfl
  | alp a => cases h

theorem gvt_receive {p p' : Process} {m : SimulationMessage} {answers : List (Nat × Payload)}
    {restored : Bool} (h : p.receive m answers = some (p', restored)) : p'.gvt = p.gvt := by
  cases p with
  | clp gvt queue =>
      simp only [receive] at h
      split at h
      · cases h
        rfl
      · cases h
  | alp a =>
      simp only [receive] at h
      split at h
      · cases h
      · rename_i r _
        obtain ⟨a', hresponse, heq⟩ := Option.map_eq_some_iff.mp h
        cases heq
        have hstep : a.step (.receiveResponse r) = some (a', .done) := by
          simp [Alp.step, hresponse]
        exact Alp.gvt_of_transition (Alp.transition_of_step hstep) (by simp)
      · rename_i r _
        obtain ⟨q, hrollback, heq⟩ := Option.map_eq_some_iff.mp h
        cases heq
        have hstep : a.step (.receiveRollback r) = some (q.1, .processed q.2) := by
          simp [Alp.step, hrollback]
        exact Alp.gvt_of_transition (Alp.transition_of_step hstep) (by simp)

end Process

theorem Lp.gvt_apply (lp : Lp) (o : GvtCalculator.Outcome) :
    (lp.apply o).process.gvt = o.gvt.getD lp.process.gvt := by
  simp only [Lp.apply]
  cases o.gvt with
  | none => rfl
  | some gvt => exact Process.gvt_setGvt _ _

namespace Network

/-- The values on their way from the starter to a process. -/
def conveyed (net : Network) (rank : Nat) : List Nat :=
  (net.link 0 rank).filterMap Packet.value? ++
    (net.lp 0).sendControlMessageQueue.filterMap (·.valueFor rank)

/-- The value a process sets in a step. -/
def valuesSet (rank : Nat) (net : Network) (e : SystemEvent) (r : Network × Option Nat) :
    List Nat :=
  match e with
  | .network (.receive lp source _) =>
      if lp = rank then
        match net.link source lp with
        | .control (.value m) :: _ =>
            if (net.lp lp).calculator.isGVTStarter then [] else [m.gvt]
        | _ => r.2.toList
      else []
  | .network (.complete lp) => if lp = rank then r.2.toList else []
  | .network (.agent ..) | .network (.send _) | .network (.request _) | .post .. => []

/-- Values come from the starter, and go to other processes. -/
structure Authentic (setup : Setup) (net : Network) : Prop where
  placed : net.Placed setup
  queued : ∀ rank m, .value m ∈ (net.lp rank).sendControlMessageQueue →
    rank = 0 ∧ m.destination ≠ 0
  linked : ∀ source target m, .control (.value m) ∈ net.link source target →
    source = 0 ∧ target ≠ 0

variable {setup : Setup} {net net' : Network} {e : SystemEvent} {o : Option Nat}

/-- What a step does to the values. -/
structure Publishes (setup : Setup) (net net' : Network) (e : SystemEvent) (o : Option Nat) :
    Prop where
  authentic : Authentic setup net'
  conveyed : ∀ rank, rank < setup.size → rank ≠ 0 →
    net.valuesSet rank e (net', o) ++ net'.conveyed rank = net.conveyed rank ++ o.toList
  starter : net.valuesSet 0 e (net', o) = o.toList
  held : ∀ rank, (net'.lp rank).process.gvt =
    (net.valuesSet rank e (net', o)).getLast?.getD (net.lp rank).process.gvt

/-- What the packets on the links, but for the one that is read, and what a process computes
do to the values. -/
theorem publishes_work (h : Authentic setup net) {rank : Nat} {lp : Lp}
    {link : Pipes Nat Packet} {queued : List ControlMessage}
    (hrank : lp.calculator.rank = (net.lp rank).calculator.rank)
    (hsize : lp.calculator.size = (net.lp rank).calculator.size)
    (hqueue : lp.sendControlMessageQueue = (net.lp rank).sendControlMessageQueue ++ queued)
    (hgvt : lp.process.gvt = o.getD (net.lp rank).process.gvt)
    (hvalues : o = none ∧ (∀ m, .value m ∉ queued) ∨
      (net.lp rank).calculator.isGVTStarter = true ∧ ∃ gvt, o = some gvt ∧
        queued = ((List.range (net.lp rank).calculator.size).filter fun lp =>
          lp ≠ (net.lp rank).calculator.rank).map fun lp => .value ⟨lp, gvt⟩)
    (hlink : ∀ source target, (link source target).filterMap Packet.value? =
      (net.link source target).filterMap Packet.value?)
    (hset : ∀ k, net.valuesSet k e ({ net.setLp rank lp with link := link }, o) =
      if rank = k then o.toList else []) :
    Publishes setup net { net.setLp rank lp with link := link } e o := by
  have hsilent : rank ≠ 0 → o = none ∧ ∀ m, .value m ∉ queued := fun hne =>
    hvalues.resolve_right fun ⟨hstarter, _⟩ => hne (h.placed.isGVTStarter.mp hstarter)
  refine ⟨⟨fun i => ?_, fun i m hm => ?_, fun source target m hm => ?_⟩, fun k hk hk0 => ?_, ?_,
    fun k => ?_⟩
  · by_cases hi : i = rank
    · subst hi
      simp only [setLp_lp_self, hrank, hsize]
      exact h.placed i
    · simp only [setLp_lp_of_ne net lp hi]
      exact h.placed i
  · by_cases hi : i = rank
    · subst hi
      simp only [setLp_lp_self, hqueue] at hm
      rcases List.mem_append.mp hm with hm | hm
      · exact h.queued i m hm
      · rcases hvalues with ⟨_, hnone⟩ | ⟨hstarter, gvt, _, heq⟩
        · exact absurd hm (hnone m)
        · have hi0 := h.placed.isGVTStarter.mp hstarter
          rw [heq] at hm
          obtain ⟨lp', hlp', heq⟩ := List.mem_map.mp hm
          cases heq
          have hne := (List.mem_filter.mp hlp').2
          rw [(h.placed i).1, hi0] at hne
          exact ⟨hi0, by simpa using hne⟩
    · simp only [setLp_lp_of_ne net lp hi] at hm
      exact h.queued i m hm
  · have hvalue : m.gvt ∈ (net.link source target).filterMap Packet.value? := by
      rw [← hlink]
      exact List.mem_filterMap.mpr ⟨_, hm, rfl⟩
    obtain ⟨packet, hpacket, hsome⟩ := List.mem_filterMap.mp hvalue
    match packet with
    | .control (.value m') => exact h.linked source target m' hpacket
  · have hqueued : (((net.setLp rank lp).lp 0).sendControlMessageQueue.filterMap
        (·.valueFor k)) =
          (net.lp 0).sendControlMessageQueue.filterMap (·.valueFor k) ++ o.toList := by
      by_cases hr : rank = 0
      · subst hr
        rw [setLp_lp_self, hqueue, List.filterMap_append]
        congr 1
        rcases hvalues with ⟨rfl, hnone⟩ | ⟨_, gvt, rfl, heq⟩
        · exact valuesFor_eq_nil hnone k
        · rw [heq, (h.placed 0).1, (h.placed 0).2]
          exact valuesFor_announced hk hk0 gvt
      · rw [setLp_lp_of_ne net lp (Ne.symm hr), (hsilent hr).1]
        exact (List.append_nil _).symm
    have hnone : (if rank = k then o.toList else []) = [] := by
      split
      · rename_i heq
        rw [(hsilent (heq ▸ hk0)).1]
        rfl
      · rfl
    rw [hset, hnone, List.nil_append, conveyed, hlink, hqueued, ← List.append_assoc]
    rfl
  · rw [hset]
    split
    · rfl
    · rename_i hr
      rw [(hsilent hr).1]
      rfl
  · rw [hset]
    by_cases hk : k = rank
    · subst hk
      simp only [setLp_lp_self, hgvt, ite_true]
      cases o <;> rfl
    · simp only [setLp_lp_of_ne net lp hk, if_neg (Ne.symm hk)]
      rfl

/-- A step in which a process sends, computes or receives nothing of the values. -/
theorem publishes_quiet (h : Authentic setup net) {rank : Nat} {lp : Lp}
    {link : Pipes Nat Packet}
    (hcalculator : (net.lp rank).calculator.Keeps lp.calculator)
    (hqueue : lp.sendControlMessageQueue = (net.lp rank).sendControlMessageQueue)
    (hgvt : lp.process.gvt = (net.lp rank).process.gvt)
    (hlink : ∀ source target, (link source target).filterMap Packet.value? =
      (net.link source target).filterMap Packet.value?)
    (hset : ∀ k, net.valuesSet k e ({ net.setLp rank lp with link := link }, none) = []) :
    Publishes setup net { net.setLp rank lp with link := link } e none := by
  refine publishes_work h hcalculator.rank hcalculator.size (hqueue.trans (List.append_nil _).symm)
    hgvt (.inl ⟨rfl, nofun⟩) hlink fun k => ?_
  rw [hset]
  split <;> rfl

/-- A value goes from the queue to the link. -/
theorem publishes_sendControl (h : Authentic setup net) {rank : Nat} {m : ControlMessage}
    {rest : List ControlMessage} (hqueue : (net.lp rank).sendControlMessageQueue = m :: rest) :
    Publishes setup net
      { net.setLp rank { net.lp rank with sendControlMessageQueue := rest } with
        link := net.link.push rank m.destination (.control m) } (.network (.send rank)) none := by
  have hfrom : ∀ v, m = .value v → rank = 0 ∧ v.destination ≠ 0 := by
    rintro v rfl
    exact h.queued rank v (by simp [hqueue])
  refine ⟨⟨fun i => ?_, fun i v hv => ?_, fun source target v hv => ?_⟩, fun k _ _ => ?_, rfl,
    fun k => ?_⟩
  · by_cases hi : i = rank
    · subst hi
      simp only [setLp_lp_self]
      exact h.placed i
    · simp only [setLp_lp_of_ne net _ hi]
      exact h.placed i
  · by_cases hi : i = rank
    · subst hi
      simp only [setLp_lp_self] at hv
      exact h.queued i v (hqueue ▸ List.mem_cons_of_mem m hv)
    · simp only [setLp_lp_of_ne net _ hi] at hv
      exact h.queued i v hv
  · rcases Pipes.mem_push hv with hv | ⟨rfl, rfl, heq⟩
    · exact h.linked source target v hv
    · cases heq
      exact hfrom v rfl
  · simp only [conveyed, valuesSet, List.nil_append, Option.toList_none, List.append_nil]
    cases m with
    | control m =>
        rw [Pipes.filterMap_push _ rfl]
        congr 1
        by_cases hr : rank = 0
        · subst hr
          rw [setLp_lp_self, hqueue]
          rfl
        · rw [setLp_lp_of_ne net _ (Ne.symm hr)]
    | value v =>
        obtain ⟨rfl, _⟩ := hfrom v rfl
        rw [setLp_lp_self, hqueue]
        by_cases hk : k = v.destination
        · subst hk
          simp [ControlMessage.destination, ControlMessage.valueFor, Packet.value?]
        · have hother : ¬ (0 = 0 ∧ k = (ControlMessage.value v).destination) := fun heq =>
            hk heq.2
          rw [Pipes.push_of_ne _ _ hother]
          simp [ControlMessage.valueFor, Ne.symm hk]
  · by_cases hk : k = rank
    · subst hk
      simp only [setLp_lp_self]
      rfl
    · simp only [setLp_lp_of_ne net _ hk]
      rfl

theorem publishes_receiveValue (h : Authentic setup net) {rank source : Nat}
    {m : GvtValueMessage} {rest : List Packet} {answers : List (Nat × Payload)}
    (hlink : net.link source rank = .control (.value m) :: rest) :
    Publishes setup net
      { net.setLp rank ((net.lp rank).receiveValue m) with
        link := net.link.put source rank rest } (.network (.receive rank source answers)) none := by
  obtain ⟨rfl, hrank⟩ := h.linked source rank m (by simp [hlink])
  have hstarter : (net.lp rank).calculator.isGVTStarter = false :=
    Bool.eq_false_iff.mpr fun heq => hrank (h.placed.isGVTStarter.mp heq)
  have hkeeps := (net.lp rank).calculator.keeps_processValue
  have hset : ∀ k r, net.valuesSet k (.network (.receive rank 0 answers)) r =
      if rank = k then [m.gvt] else [] := by
    intro k r
    simp [valuesSet, hlink, hstarter]
  refine ⟨⟨fun i => ?_, fun i v hv => ?_, fun source target v hv => ?_⟩, fun k _ _ => ?_, ?_,
    fun k => ?_⟩
  · by_cases hi : i = rank
    · subst hi
      simp only [setLp_lp_self, Lp.receiveValue, hkeeps.rank, hkeeps.size]
      exact h.placed i
    · simp only [setLp_lp_of_ne net _ hi]
      exact h.placed i
  · by_cases hi : i = rank
    · subst hi
      simp only [setLp_lp_self] at hv
      exact h.queued i v hv
    · simp only [setLp_lp_of_ne net _ hi] at hv
      exact h.queued i v hv
  · exact h.linked source target v (Pipes.mem_put_tail hlink hv)
  · simp only [hset, Option.toList_none, List.append_nil, conveyed,
      setLp_lp_of_ne net _ (Ne.symm hrank)]
    by_cases hk : rank = k
    · subst hk
      simp [hlink, Packet.value?]
    · rw [if_neg hk, List.nil_append, Pipes.put_of_ne _ _ fun heq => hk heq.2.symm]
  · rw [hset, if_neg hrank]
    rfl
  · rw [hset]
    by_cases hk : rank = k
    · subst hk
      simp only [setLp_lp_self, Lp.receiveValue, hstarter, ite_true, Bool.false_eq_true, ite_false]
      exact Process.gvt_setGvt _ _
    · simp only [setLp_lp_of_ne net _ (Ne.symm hk), if_neg hk]
      rfl

theorem publishes_transition {e : Event} (h : Authentic setup net)
    (htransition : Transition setup net e net' o) : Publishes setup net net' (.network e) o := by
  cases htransition with
  | agent hr hagent =>
      exact publishes_quiet h (.refl _) rfl (Process.gvt_agentStep hagent) (fun _ _ => rfl)
        fun _ => rfl
  | sendControl hr hd hqueue => exact publishes_sendControl h hqueue
  | sendMessage hr hd hdequeue hkeeps =>
      exact publishes_quiet h hkeeps rfl (Process.gvt_dequeue hdequeue)
        (Pipes.filterMap_push _ rfl) fun _ => rfl
  | receiveMessage hr hlink hreceive =>
      refine publishes_quiet h (GvtCalculator.keeps_preProcessReceiveMessage _ _) rfl
        (Process.gvt_receive hreceive) (Pipes.filterMap_put hlink rfl) fun k => ?_
      simp [valuesSet, hlink]
  | receiveValue hr hlink => exact publishes_receiveValue h hlink
  | @firstCut rank source m rest answers lvt hr hlink hcut hawaiting hlvt =>
      obtain ⟨hrank, hsize, hvalues⟩ :=
        (net.lp rank).calculator.reports_processFirstCut lvt m
      refine publishes_work h hrank hsize rfl ?_ hvalues (Pipes.filterMap_put hlink rfl) fun k => ?_
      · exact Lp.gvt_apply _ _
      · simp [valuesSet, hlink]
  | await hr hlink hcut hawaiting =>
      refine publishes_quiet h (.refl _) rfl rfl (Pipes.filterMap_put hlink rfl) fun k => ?_
      simp [valuesSet, hlink]
  | @complete rank m lvt hr hawaiting hlvt =>
      obtain ⟨hrank, hsize, hvalues⟩ :=
        (net.lp rank).calculator.reports_processSecondCut lvt m
      exact publishes_work h hrank hsize rfl (Lp.gvt_apply _ _) hvalues (fun _ _ => rfl)
        fun k => rfl
  | @request rank hr =>
      obtain ⟨hrank, hsize, hvalues⟩ := (net.lp rank).calculator.reports_processRequest
      obtain ⟨hnone, hqueued⟩ : (net.lp rank).calculator.processRequest.gvt = none ∧
          ∀ m, .value m ∉ (net.lp rank).calculator.processRequest.queued := by
        refine hvalues.resolve_right fun ⟨_, gvt, hgvt, _⟩ => ?_
        rw [GvtCalculator.gvt_processRequest] at hgvt
        cases hgvt
      refine publishes_work h hrank hsize rfl ?_ (.inl ⟨rfl, hqueued⟩) (fun _ _ => rfl) fun k => ?_
      · rw [Lp.gvt_apply, hnone]
      · simp [valuesSet]

theorem publishes_of_step (h : Authentic setup net)
    (hstep : net.systemStep setup e = some (net', o)) : Publishes setup net net' e o := by
  cases e with
  | network e => exact publishes_transition h (transition_of_step hstep)
  | post rank m =>
      obtain ⟨_, hstep⟩ := Option.ite_none_right_eq_some.mp hstep
      obtain ⟨lp, hpost, heq⟩ := Option.map_eq_some_iff.mp hstep
      cases heq
      obtain ⟨process, hprocess, rfl⟩ := Option.map_eq_some_iff.mp hpost
      exact publishes_quiet h (.refl _) rfl (Process.gvt_post hprocess) (fun _ _ => rfl)
        fun _ => rfl

section Runs

variable {net₀ : Network} {es : List SystemEvent} {os : List (Option Nat)}

theorem Initial.authentic (h : Initial setup net) : Authentic setup net := by
  refine ⟨fun rank => ?_, fun rank m hm => ?_, fun source target m hm => ?_⟩
  · rw [h.calculator]
    exact ⟨rfl, rfl⟩
  · rw [h.control] at hm
    cases hm
  · rw [h.link] at hm
    cases hm

theorem values_of_run (hinitial : Initial setup net₀)
    (hrun : (systemMachine setup).run net₀ es = some (net, os)) {rank : Nat}
    (hrank : rank < setup.size) :
    (systemMachine setup).trail (valuesSet rank) net₀ es ++
        (if rank = 0 then [] else net.conveyed rank) = os.filterMap id := by
  have hcomputed :
      (systemMachine setup).trail (fun _ _ r => r.2.toList) net₀ es = os.filterMap id := by
    rw [(systemMachine setup).trail_outputs Option.toList hrun, List.filterMap_eq_flatMap_toList]
    rfl
  have hconveyed := (systemMachine setup).conveyed (Authentic setup)
    (fun net => if rank = 0 then [] else net.conveyed rank) (fun _ _ r => r.2.toList)
    (valuesSet rank) (fun _ _ _ _ h hs => (publishes_of_step h hs).authentic)
    (fun net e net' o h hs => ?_) hinitial.authentic hrun
  · have hempty : net₀.conveyed rank = [] := by
      simp [Network.conveyed, hinitial.link, hinitial.control]
    rw [hconveyed, hempty, hcomputed]
    split <;> rfl
  · have hpublishes := publishes_of_step h hs
    by_cases hzero : rank = 0
    · subst hzero
      simpa using hpublishes.starter
    · simpa [hzero] using hpublishes.conveyed rank hrank hzero

theorem gvt_of_run (hinitial : Initial setup net₀)
    (hrun : (systemMachine setup).run net₀ es = some (net, os)) (rank : Nat) :
    (net.lp rank).process.gvt =
      ((systemMachine setup).trail (valuesSet rank) net₀ es).getLast?.getD
        (net₀.lp rank).process.gvt :=
  (systemMachine setup).holds_last (Authentic setup) (fun net => (net.lp rank).process.gvt)
    (valuesSet rank) (fun _ _ _ _ h hs => (publishes_of_step h hs).authentic)
    (fun _ _ _ _ h hs => (publishes_of_step h hs).held rank) hinitial.authentic hrun

/-- The values of GVT that a process has set are, in order, the first ones the starter has
computed; the others are on their way to it, in order; and its GVT is the last that it set. -/
theorem processes_agree (hinitial : Initial setup net₀)
    (hrun : (systemMachine setup).run net₀ es = some (net, os)) {rank : Nat}
    (hrank : rank < setup.size) :
    (systemMachine setup).trail (valuesSet rank) net₀ es ++
        (if rank = 0 then [] else net.conveyed rank) = os.filterMap id ∧
      (net.lp rank).process.gvt =
        ((systemMachine setup).trail (valuesSet rank) net₀ es).getLast?.getD
          (net₀.lp rank).process.gvt :=
  ⟨values_of_run hinitial hrun hrank, gvt_of_run hinitial hrun rank⟩

/-- A round of `duo` in which the CLP queues a rollback to 8 of its own, and the value on its
way to the ALP. -/
def roundOfFive : List SystemEvent :=
  [.network (.agent 1 (.timeWrap 1 5)), .network (.agent 1 (.timeWrap 2 7)),
    .network (.request 0), .network (.send 0), .network (.receive 1 0 []),
    .post 0 ⟨1, .WHITE, .rollback ⟨8, ⟨1, 1⟩, ⟨7, 8, 1, 0⟩⟩⟩, .network (.send 1),
    .network (.receive 0 1 []), .network (.send 0), .network (.receive 1 0 [])]

theorem processes_agree_roundOfFive : ∃ net os,
    (systemMachine duo).run (create duo duoProcess) roundOfFive = some (net, os) ∧
    (systemMachine duo).trail (valuesSet 1) (create duo duoProcess) roundOfFive ++
      net.conveyed 1 = [5] ∧
    (net.lp 1).process.gvt = 5 := by
  obtain ⟨net, os, hrun, hos, htrail⟩ : ∃ net os,
      (systemMachine duo).run (create duo duoProcess) roundOfFive = some (net, os) ∧
        os.filterMap id = [5] ∧
        (systemMachine duo).trail (valuesSet 1) (create duo duoProcess) roundOfFive = [5] :=
    ⟨_, _, rfl, rfl, rfl⟩
  obtain ⟨hvalues, hgvt⟩ := processes_agree initial_duo hrun (show 1 < duo.size by decide)
  exact ⟨net, os, hrun, hvalues.trans hos, hgvt.trans (by rw [htrail]; rfl)⟩

end Runs

end Network
end Gvt
end PdesMas
