import PdesMas.Lp.RangeSeen

/-!
Each arrival of a message of the query is a step of its gathering, and shows what
the step calls for. A message of the query that is on its way can always arrive.
-/

namespace PdesMas

namespace RangeNetwork

open RangeClp

namespace Inquiry

variable {numberOfClps : Nat} {alpToClpMap : Std.TreeMap Nat Nat}
  {I : Inquiry numberOfClps alpToClpMap} {net net' : RangeNetwork}
  {prog prog' : Plan.Progress Nat} {e : Event} {o : Output}

/-- The first service of a CLP: what it hands on goes along the plan, and it reads once,
and only variables it hosts. -/
structure Opens (I : Inquiry numberOfClps alpToClpMap) (net : RangeNetwork) (c : Nat)
    (s : Service) : Prop where
  clp : s.clp = c
  identifier : s.message.identifier = I.identifier
  first : I.first c = some s
  fresh : s.fresh = true
  forwarded : ∀ d, d ∈ s.forwarded.map RangeQueryMessage.destination ↔ d ∈ I.forward c
  reads_length : s.reads.length ≤ 1
  hosted : ∀ read ∈ s.reads, ∀ (x : SsvId) (point : Point), read[x]? = some point →
    (net.clp c).sharedState.containsVariable x = true

/-- The service of the reply of `d`. -/
structure Notes (I : Inquiry numberOfClps alpToClpMap) (c d : Nat) (s : Service) : Prop where
  clp : s.clp = c
  identifier : s.message.identifier = I.identifier
  origin : s.message.origin = d
  fresh : s.fresh = false
  forwarded : s.forwarded = []
  reads : s.reads = []

/-- What a step of the network is for the gathering. -/
inductive Advance (I : Inquiry numberOfClps alpToClpMap) (net : RangeNetwork)
    (prog : Plan.Progress Nat) : Plan.Progress Nat → Output → Prop
  | question {c s} (hphase : prog c = .asked) (hopens : Opens I net c s) :
      Advance I net prog (I.plan.receiveQuestion prog c) (.served s)
  | answer {c d s pending noted answer} (hd : d ∈ I.forward c)
      (hstep : I.plan.Step prog (I.plan.receiveAnswer prog d pending noted answer))
      (hwaits : prog c = .waiting pending noted) (hanswer : prog d = .answered answer)
      (hnotes : Notes I c d s) :
      Advance I net prog (I.plan.receiveAnswer prog d pending noted answer) (.served s)
  | result {m answer} (hphase : prog I.root = .answered answer)
      (hidentifier : m.identifier = I.identifier)
      (hmap : ∀ x : SsvId, m.ssvValueList[x]? = I.collected answer x) :
      Advance I net prog (Function.update prog I.root (.done answer))
        (.received I.originalAgent.rank m)
  | other {output} (ho : isArrival I.identifier output = false) : Advance I net prog prog output

theorem InStep.congr (h : I.InStep prog net) (hview : SameView I.identifier net net') :
    I.InStep prog net' := by
  refine ⟨h.sound, fun c hc => ?_, fun a b => ?_⟩
  · rw [hview.routes, hview.tracker]
    exact h.tracks c hc
  · rw [hview.pipe]
    exact h.links a b

/-- The query and the network when it has been sent. -/
theorem inStep_sent
    (htracker : ∀ c, c < numberOfClps → (net.clp c).rangeTracker[I.identifier]? = none)
    (hpipe : ∀ a b, queriesOf I.identifier (net.pipe a b) = []) :
    I.InStep I.plan.start (net.send I.originalAgent.rank
      [.query ⟨I.originalAgent.rank, I.root, I.timestamp, 0, I.identifier, I.originalAgent,
        I.range, 0, ∅⟩]) := by
  have hroot : I.plan.start I.root = .asked := Function.update_self ..
  have hother : ∀ c, c ≠ I.root → I.plan.start c = .idle := fun c hc => Function.update_of_ne hc ..
  have hphase : ∀ c noted, I.plan.start c ≠ .answered noted := by
    intro c noted
    by_cases hc : c = I.root
    · simp [hc, hroot]
    · simp [hother c hc]
  refine ⟨Plan.sound_start I.plan, fun c hc => ?_, fun a b => ?_⟩
  · rw [clp_send, htracker c hc]
    refine .nothing fun pending noted heq => ?_
    by_cases hcr : c = I.root
    · simp [hcr, hroot] at heq
    · simp [hother c hcr] at heq
  · rw [pipe_send]
    by_cases ha : a = I.originalAgent.rank
    · rw [if_pos ha, queriesOf_append, hpipe, List.nil_append]
      by_cases hb : b = I.root
      · subst ha hb
        have hone : ∀ q : RangeQueryMessage, q.destination = I.root →
            q.identifier = I.identifier →
            queriesOf I.identifier ([RangeMessage.query q].filter
              fun m => m.destination = I.root) = [q] := by
          intro q hq hid
          have hquery : (RangeMessage.query q).destination = I.root := hq
          rw [List.filter_cons_of_pos (by simp [hquery]), List.filter_nil, queriesOf_cons_query,
            if_pos hid, queriesOf_nil]
        rw [hone _ rfl rfl]
        refine .question hroot ?_ ⟨rfl, rfl, rfl, rfl⟩ rfl
        exact if_pos rfl
      · have hnone : ∀ q : RangeQueryMessage, q.destination = I.root →
            [RangeMessage.query q].filter (fun m => m.destination = b) = [] := by
          intro q hq
          have hquery : (RangeMessage.query q).destination = I.root := hq
          simp [hquery, Ne.symm hb]
        rw [hnone _ rfl, queriesOf_nil]
        refine .nothing (fun _ heq => ?_) fun _ noted => hphase a noted
        rw [hother b hb] at heq
        cases heq
    · rw [if_neg ha, hpipe]
      refine .nothing (fun hasker heq => ?_) fun _ noted => hphase a noted
      by_cases hb : b = I.root
      · rw [asker, if_pos hb] at hasker
        exact ha hasker.symm
      · rw [hother b hb] at heq
        cases heq

/-- The ALP gets the answer of the root. -/
theorem inStep_result {answer : List Nat} (h : I.InStep prog net)
    (hphase : prog I.root = .answered answer) {pipe : Pipes Nat RangeMessage}
    (hpipe : ∀ a b, queriesOf I.identifier (pipe a b) =
      if a = I.root ∧ b = I.originalAgent.rank then []
      else queriesOf I.identifier (net.pipe a b)) :
    I.InStep (Function.update prog I.root (.done answer)) { net with pipe := pipe } := by
  have hroot : Function.update prog I.root (.done answer) I.root = .done answer :=
    Function.update_self ..
  have hother : ∀ c, c ≠ I.root → Function.update prog I.root (.done answer) c = prog c :=
    fun c hc => Function.update_of_ne hc ..
  have hasked : ∀ c, Function.update prog I.root (.done answer) c = .asked ↔ prog c = .asked := by
    intro c
    by_cases hc : c = I.root
    · simp [hc, hphase]
    · rw [hother c hc]
  refine ⟨Plan.sound_result h.sound hphase, fun c hc => ?_, fun a b => ?_⟩
  · refine (h.tracks c hc).congr fun pending noted => ?_
    by_cases hcr : c = I.root
    · simp [hcr, hphase]
    · rw [hother c hcr]
  · change I.OnLink _ a b (queriesOf I.identifier (pipe a b))
    rw [hpipe]
    split
    · rename_i htaken
      refine .nothing (fun _ heq => ?_) fun _ noted heq => ?_
      · have hb := h.lt_of_phase (c := b) (by simp [(hasked b).mp heq])
        have := I.agent_ge
        omega
      · rw [htaken.1, hroot] at heq
        cases heq
    · rename_i htaken
      refine (h.links a b).congr (fun _ => hasked b) fun hasker noted => ?_
      by_cases har : a = I.root
      · rw [asker, if_pos har] at hasker
        exact absurd ⟨har, hasker.symm⟩ htaken
      · rw [hother a har]

/-- Only the root answers to an ALP. -/
theorem eq_root_of_asker_ge {c : Nat} (hc : c < numberOfClps) (h : numberOfClps ≤ I.asker c) :
    c = I.root ∧ I.asker c = I.originalAgent.rank := by
  by_cases hroot : c = I.root
  · exact ⟨hroot, if_pos hroot⟩
  · rw [asker, if_neg hroot] at h
    have := HeapTree.nextHop_le_max c I.root
    have := I.root_lt
    omega

section Arrival

variable {source target : Nat} {front back : List RangeMessage} {m : RangeQueryMessage}

/-- A message of the query that is on its way is a question or an answer. -/
theorem InStep.onLink (h : I.InStep prog net)
    (hpipe : net.pipe source target = front ++ .query m :: back)
    (hm : m.identifier = I.identifier) : I.OnLink prog source target [m] := by
  have hlink := h.links source target
  rw [hpipe] at hlink
  rw [(alone hlink hm).1] at hlink
  exact hlink

theorem hosted_of_fresh {c : RangeClp} {q : RangeQueryMessage} {incomingPort : Direction}
    {r : Served} (h : Fresh c q incomingPort r) :
    ∀ read ∈ r.reads, ∀ (x : SsvId) (point : Point), read[x]? = some point →
      c.sharedState.containsVariable x = true := by
  intro read hread x point hpoint
  rw [h.reads read hread, reading] at hpoint
  obtain ⟨sv, hsv, _⟩ := Option.bind_eq_some_iff.mp hpoint
  rw [SharedState.containsVariable, Std.TreeMap.contains_eq_isSome_getElem?, hsv]
  rfl

/-- A message of the query comes to a CLP. -/
theorem advance_served (h : I.InStep prog net) (hw : Wired numberOfClps alpToClpMap net)
    (hcovers : Covers numberOfClps net I.timestamp) (htarget : target < numberOfClps)
    (hpipe : net.pipe source target = front ++ .query m :: back)
    (hm : m.identifier = I.identifier) {r : Served}
    (hr : (net.clp target).processRangeQuery m.incrementNumberOfHops = some r)
    (hfirst : prog target = .asked → I.first target =
      some ⟨target, !(net.clp target).rangeTracker.hasEntry m.identifier,
        m.incrementNumberOfHops, r.forwarded, r.reads⟩) :
    ∃ prog', I.Advance net prog prog' (.served ⟨target,
        !(net.clp target).rangeTracker.hasEntry m.identifier, m.incrementNumberOfHops,
        r.forwarded, r.reads⟩) ∧
      I.InStep prog' ((({ net with pipe := net.pipe.put source target (front ++ back) } :
        RangeNetwork).setClp target r.clp).send target
          ((r.forwarded ++ r.responses).map .query)) := by
  have hlink := h.onLink hpipe hm
  have hframe : Steady (fun _ => False) (net.clp target) r.clp ∧ _ := serve_frame hr
  obtain ⟨_, hhandled⟩ := handled_of_serve h hm hpipe
    fun q hq => (hframe.2.2 q hq).trans hm
  have habout := hlink.about
  have habout' : I.About m.incrementNumberOfHops.incrementNumberOfTraverseHops :=
    ⟨habout.identifier, habout.timestamp, habout.originalAgent, habout.range⟩
  cases hlink with
  | question hphase hasker _ hempty =>
      subst hasker
      have hfirst := hfirst hphase
      obtain ⟨back', _, htakes, hfresh⟩ := h.takes hw hphase habout' hr hfirst rfl
      refine ⟨_, .question hphase ⟨rfl, hm, hfirst, ?_, fun d => ?_, hfresh.reads_length,
        hosted_of_fresh hfresh⟩, inStep_question h hw hcovers hphase habout' hempty hr hfirst
          rfl rfl hhandled⟩
      · have habsent := h.absent hphase
        rw [← hm] at habsent
        rw [RangeTracker.hasEntry_eq_false.mpr habsent]
        rfl
      · rw [htakes.mem_forward_iff, chosen, hfirst]
  | answer hphase hasker _ horigin hmap =>
      obtain ⟨hd, _, _, _, _, _, hentry, _⟩ := h.waits hphase hasker htarget
      obtain ⟨_, _, _, _, _, _, _, _, _, hforwarded, hreads, _⟩ :=
        h.replied hw hphase hasker htarget habout' horigin hmap hr
      obtain ⟨pending, noted, hwaits, hstep, hinstep⟩ :=
        inStep_reply h hw hphase hasker htarget habout' horigin hmap hr hhandled
      refine ⟨_, .answer hd hstep hwaits hphase ⟨rfl, hm, horigin, ?_, hforwarded, hreads⟩,
        hinstep⟩
      rw [← hm] at hentry
      rw [RangeTracker.hasEntry_eq_true.mpr ⟨_, hentry⟩]
      rfl

/-- A message of the query comes to an ALP. -/
theorem advance_received (h : I.InStep prog net) (htarget : numberOfClps ≤ target)
    (hpipe : net.pipe source target = front ++ .query m :: back)
    (hm : m.identifier = I.identifier) :
    ∃ prog', I.Advance net prog prog' (.received target m) ∧
      I.InStep prog' { net with pipe := net.pipe.put source target (front ++ back) } := by
  have hlink := h.links source target
  rw [hpipe] at hlink
  have hnone := (alone hlink hm).2
  cases h.onLink hpipe hm with
  | question hphase _ _ _ =>
      have := h.lt_of_phase (c := target) (by simp [hphase])
      omega
  | @answer _ answer hphase hasker _ _ hmap =>
      have hsource := h.lt_of_phase (c := source) (by simp [hphase])
      obtain ⟨hroot, hagent⟩ := eq_root_of_asker_ge hsource (hasker ▸ htarget)
      have hrank : target = I.originalAgent.rank := hasker.symm.trans hagent
      subst hroot hrank
      refine ⟨_, .result hphase hm hmap, inStep_result h hphase fun a b => ?_⟩
      simp only [Pipes.put]
      split
      · exact hnone
      · rfl

/-- A message of the query that is on its way can be the next to arrive. -/
theorem exists_deliver (h : I.InStep prog net) (hw : Wired numberOfClps alpToClpMap net)
    {k : Nat} (hk : (net.pipe source target)[k]? = some (.query m))
    (hm : m.identifier = I.identifier) :
    ((machine numberOfClps alpToClpMap).step net (.deliver source target k)).isSome = true := by
  change (net.step numberOfClps alpToClpMap (.deliver source target k)).isSome = true
  simp only [step, hk, Option.bind_eq_bind, Option.bind_some]
  split
  · rename_i htarget
    obtain ⟨front, back, hpipe, _, _⟩ := Pipes.exists_take hk
    have hlink := h.onLink hpipe hm
    have hserve : ∃ r, (net.clp target).serve
        m.incrementNumberOfHops.incrementNumberOfTraverseHops = some r := by
      obtain ⟨back', hdirection, hback⟩ := exists_back I hw htarget
      have habout := hlink.about
      cases hlink with
      | question hphase hasker _ hempty =>
          have habsent := h.absent hphase
          rw [← hm] at habsent
          rw [← habout.originalAgent] at hdirection
          exact exists_serve_fresh habsent hdirection (fun port => leads_of_asks hw htarget port)
            ⟨_, hback⟩
      | answer hphase hasker _ horigin hmap =>
          obtain ⟨hd, _, _, entry, _, _, hentry, hentryback, _⟩ :=
            h.waits hphase hasker htarget
          have hport := hw.direction_of_adj htarget (I.mem_forward.mp hd).2.1
            (adj_of_mem_forward hd)
          rw [← horigin] at hport
          rw [← hm] at hentry
          have heq : back' = entry.originPort :=
            Option.some.inj (hdirection.symm.trans hentryback)
          exact exists_serve_reply hentry hport (heq ▸ hback)
    obtain ⟨r, hr⟩ := hserve
    change ((net.clp target).processRangeQuery m.incrementNumberOfHops).bind _ |>.isSome
    rw [processRangeQuery, hr]
    rfl
  · rfl

end Arrival

/-- Any step but the sending of the query. -/
theorem exists_advance (h : I.InStep prog net) (hw : Wired numberOfClps alpToClpMap net)
    (hcovers : Covers numberOfClps net I.timestamp)
    (hstep : Concerns numberOfClps alpToClpMap I.identifier net e net' o)
    (he : ∀ timestamp originalAgent range,
      e ≠ .query I.identifier timestamp originalAgent range)
    (hfirst : ∀ s, o = .served s → s.message.identifier = I.identifier →
      prog s.clp = .asked → I.first s.clp = some s) :
    ∃ prog', I.Advance net prog prog' o ∧ I.InStep prog' net' := by
  cases hstep with
  | sent => exact absurd rfl (he _ _ _)
  | served htarget hpipe hm hr =>
      exact advance_served h hw hcovers htarget hpipe hm hr (hfirst _ rfl hm)
  | received htarget hpipe hm => exact advance_received h htarget hpipe hm
  | other hview ho => exact ⟨prog, .other ho, h.congr hview⟩

end Inquiry

end RangeNetwork
end PdesMas
