import PdesMas.Lp.RangeInquiry

/-!
The network keeps in step with the gathering of a query. A question makes a CLP
ask the neighbours behind its unblocked ports, an answer settles the port of the
neighbour it comes from, and a CLP that waits for nobody answers its asker. No
other message is about the query.
-/

namespace PdesMas

namespace RangeNetwork

open RangeClp

namespace Inquiry

variable {numberOfClps : Nat} {alpToClpMap : Std.TreeMap Nat Nat}
  {I : Inquiry numberOfClps alpToClpMap} {net net' : RangeNetwork}
  {prog : Plan.Progress Nat} {c : Nat} {m : RangeQueryMessage} {back : Direction}

/-- The direction of the agent leads to the asker. -/
theorem exists_back (I : Inquiry numberOfClps alpToClpMap)
    (hw : Wired numberOfClps alpToClpMap net) (hc : c < numberOfClps) :
    ∃ back, (net.clp c).routeTable.getDirectionFromRank I.originalAgent.rank = some back ∧
      (net.clp c).routeTable.getRankFromDirection back = some (I.asker c) := by
  by_cases hroot : c = I.root
  · obtain ⟨back, hback, hrank⟩ := (hw.directs c hc).ownAlp I.originalAgent.rank I.agent_ge
      I.agent_lt (hroot ▸ I.home)
    rw [asker, if_pos hroot]
    exact ⟨back, hback, hrank⟩
  · have hdirection := (hw.directs c hc).alp I.originalAgent.rank I.root I.agent_ge I.agent_lt
      I.home I.root_lt (Ne.symm hroot)
    rw [RouteTable.directionTo_of_ne (Ne.symm hroot)] at hdirection
    refine ⟨_, hdirection, ?_⟩
    rw [asker, if_neg hroot]
    have hlt : HeapTree.nextHop c I.root < numberOfClps := by
      have := HeapTree.nextHop_le_max c I.root
      have := I.root_lt
      omega
    exact (hw.rankFromDirection hc hlt _).mpr ⟨HeapTree.adj_nextHop hroot, rfl⟩

theorem portOf_eq_back_iff (hw : Wired numberOfClps alpToClpMap net) (hc : c < numberOfClps)
    (hback : (net.clp c).routeTable.getRankFromDirection back = some (I.asker c)) {x : Nat}
    (hx : x < numberOfClps) (hadj : HeapTree.Adj c x) :
    RouteTable.portOf c x = back ↔ x = I.asker c := by
  constructor
  · intro hport
    have hrank := (hw.rankFromDirection hc hx back).mpr ⟨hadj, hport.symm⟩
    exact Option.some.inj (hrank.symm.trans hback)
  · intro heq
    rw [← heq] at hback
    exact ((hw.rankFromDirection hc hx back).mp hback).2.symm

/-- A port that a query goes on through leads to a CLP. -/
theorem exists_of_asks (hw : Wired numberOfClps alpToClpMap net) (hc : c < numberOfClps)
    {port : Direction} (hasks : (net.clp c).asks back m port = true) :
    ∃ x, x < numberOfClps ∧ HeapTree.Adj c x ∧ RouteTable.portOf c x = port := by
  simp only [asks, overlaps, Bool.and_eq_true, bne_iff_ne, ne_eq] at hasks
  obtain ⟨_, hoverlap, hhere⟩ := hasks
  have hranges : Ranges numberOfClps c port := by
    by_contra hnot
    rw [(hw.noRange c port hc hnot).getRangeCopy] at hoverlap
    cases hoverlap
  exact hranges.resolve_left hhere

theorem leads_of_asks (hw : Wired numberOfClps alpToClpMap net) (hc : c < numberOfClps)
    (port : Direction) (hasks : (net.clp c).asks back m port = true) :
    ∃ rank, (net.clp c).routeTable.getRankFromDirection port = some rank := by
  obtain ⟨x, hx, hadj, hport⟩ := exists_of_asks hw hc hasks
  exact ⟨x, (hw.rankFromDirection hc hx port).mpr ⟨hadj, hport.symm⟩⟩

/-- A CLP takes up the query as the inquiry says it does first. -/
structure Takes (I : Inquiry numberOfClps alpToClpMap) (net : RangeNetwork) (c : Nat)
    (m : RangeQueryMessage) (back : Direction) (s : Service) : Prop where
  first : I.first c = some s
  wired : Wired numberOfClps alpToClpMap net
  lt : c < numberOfClps
  leadsBack : (net.clp c).routeTable.getRankFromDirection back = some (I.asker c)
  forwarded : List.Forall₂ (Asked (net.clp c) m)
    ((otherPorts back).filter ((net.clp c).asks back m)) s.forwarded

theorem filter_eq_singleton {α β : Type} [DecidableEq β] {f : α → β} {l : List α}
    (h : (l.map f).Nodup) {a : α} (ha : a ∈ l) : l.filter (fun x => f x = f a) = [a] := by
  induction l with
  | nil => cases ha
  | cons x l ih =>
      rw [List.map_cons, List.nodup_cons] at h
      cases List.mem_cons.mp ha with
      | inl heq =>
          subst heq
          have hnone : l.filter (fun x => f x = f a) = [] := by
            rw [List.filter_eq_nil_iff]
            intro y hy heq
            simp only [decide_eq_true_eq] at heq
            exact h.1 (heq ▸ List.mem_map_of_mem hy)
          simp [hnone]
      | inr ha =>
          have hne : f x ≠ f a := fun heq => h.1 (heq ▸ List.mem_map_of_mem ha)
          simp [hne, ih h.2 ha]

section Takes

variable {s : Service}

theorem portOf_mem_otherPorts (x : Nat) :
    RouteTable.portOf c x ∈ otherPorts back ↔ RouteTable.portOf c x ≠ back := by
  have hports : RouteTable.portOf c x ∈ Direction.ports := by
    simp only [RouteTable.portOf]
    split
    · decide
    · split <;> decide
  simp [mem_otherPorts, hports]

/-- The messages that are handed on go to the CLPs behind the ports asked. -/
theorem Takes.mem_chosen (h : Takes I net c m back s) {x : Nat} :
    x ∈ I.chosen c ↔ x < numberOfClps ∧ HeapTree.Adj c x ∧ RouteTable.portOf c x ≠ back ∧
      (net.clp c).asks back m (RouteTable.portOf c x) = true := by
  simp only [chosen, h.first, List.mem_map]
  constructor
  · intro hx
    obtain ⟨q, hq, hdestination⟩ := hx
    obtain ⟨p, hp, hasked⟩ := exists_left_of_mem h.forwarded hq
    obtain ⟨hother, hasks⟩ := List.mem_filter.mp hp
    obtain ⟨y, hy, hadj, hport⟩ := exists_of_asks h.wired h.lt hasks
    have hrank := (h.wired.rankFromDirection h.lt hy p).mpr ⟨hadj, hport.symm⟩
    have hyx : y = x := by
      rw [← hdestination]
      exact Option.some.inj (hrank.symm.trans hasked.destination)
    subst hyx
    rw [hport]
    exact ⟨hy, hadj, (mem_otherPorts.mp hother).2, hasks⟩
  · intro hx
    obtain ⟨hlt, hadj, hback, hasks⟩ := hx
    have hmem : RouteTable.portOf c x ∈ (otherPorts back).filter ((net.clp c).asks back m) :=
      List.mem_filter.mpr ⟨(portOf_mem_otherPorts x).mpr hback, hasks⟩
    obtain ⟨q, hq, hasked⟩ := exists_right_of_mem h.forwarded hmem
    have hrank := (h.wired.rankFromDirection h.lt hlt _).mpr ⟨hadj, rfl⟩
    exact ⟨q, hq, Option.some.inj (hasked.destination.symm.trans hrank)⟩

theorem Takes.mem_forward_iff (h : Takes I net c m back s) {x : Nat} :
    x ∈ I.forward c ↔ x ∈ I.chosen c := by
  rw [mem_forward]
  constructor
  · exact fun hx => hx.2.2.2.2
  · intro hx
    obtain ⟨hlt, hadj, hback, _⟩ := h.mem_chosen.mp hx
    have haway := (I.away_iff hlt).mp
      ⟨hadj, fun heq => hback ((portOf_eq_back_iff h.wired h.lt h.leadsBack hlt hadj).mpr heq)⟩
    exact ⟨h.lt, hlt, haway.1, haway.2, hx⟩

/-- The ports that are asked through are those of the CLPs that the plan says. -/
theorem Takes.asks_iff (h : Takes I net c m back s) (port : Direction) :
    port ∈ otherPorts back ∧ (net.clp c).asks back m port = true ↔
      ∃ x ∈ I.forward c, RouteTable.portOf c x = port := by
  constructor
  · intro hport
    obtain ⟨x, hx, hadj, heq⟩ := exists_of_asks h.wired h.lt hport.2
    refine ⟨x, h.mem_forward_iff.mpr (h.mem_chosen.mpr ⟨hx, hadj, ?_, ?_⟩), heq⟩
    · rw [heq]
      exact (mem_otherPorts.mp hport.1).2
    · rw [heq]
      exact hport.2
  · intro hx
    obtain ⟨x, hx, rfl⟩ := hx
    obtain ⟨_, _, hback, hasks⟩ := h.mem_chosen.mp (h.mem_forward_iff.mp hx)
    exact ⟨(portOf_mem_otherPorts x).mpr hback, hasks⟩

/-- One message goes to each of them, and none to anybody else. -/
theorem Takes.forwarded_to (h : Takes I net c m back s) (hm : I.About m) (y : Nat) :
    (y ∈ I.forward c → ∃ q, s.forwarded.filter (fun q => q.destination = y) = [q] ∧ I.About q ∧
      q.ssvValueList = ∅) ∧
    (y ∉ I.forward c → s.forwarded.filter (fun q => q.destination = y) = []) := by
  have hasked : ∀ q ∈ s.forwarded, ∃ p, Asked (net.clp c) m p q := by
    intro q hq
    obtain ⟨p, _, hp⟩ := exists_left_of_mem h.forwarded hq
    exact ⟨p, hp⟩
  have hmem : ∀ q ∈ s.forwarded, q.destination ∈ I.chosen c := by
    intro q hq
    simp only [chosen, h.first]
    exact List.mem_map_of_mem hq
  have hnodup : (s.forwarded.map RangeQueryMessage.destination).Nodup := by
    have hports : (s.forwarded.map fun q => RouteTable.portOf c q.destination) =
        (otherPorts back).filter ((net.clp c).asks back m) := by
      have hport : ∀ p q, (p ∈ (otherPorts back).filter ((net.clp c).asks back m) ∧
          Asked (net.clp c) m p q) → p = RouteTable.portOf c q.destination := by
        intro p q hpq
        obtain ⟨x, hx, hadj, heq⟩ := exists_of_asks h.wired h.lt (List.mem_filter.mp hpq.1).2
        have hrank := (h.wired.rankFromDirection h.lt hx p).mpr ⟨hadj, heq.symm⟩
        rw [hpq.2.destination] at hrank
        rw [Option.some.inj hrank, heq]
      have hall := (List.forall₂_and_left ..).mpr ⟨fun p hp => hp, h.forwarded⟩
      rw [← List.forall₂_eq_eq_eq, List.forall₂_map_left_iff]
      exact (hall.imp fun p q hpq => (hport p q hpq).symm).flip
    have hdistinct : ((s.forwarded.map RangeQueryMessage.destination).map
        (RouteTable.portOf c)).Nodup := by
      rw [List.map_map]
      change (s.forwarded.map fun q => RouteTable.portOf c q.destination).Nodup
      rw [hports]
      exact (otherPorts_nodup back).filter _
    exact hdistinct.of_map _
  constructor
  · intro hy
    have hchosen := h.mem_forward_iff.mp hy
    simp only [chosen, h.first] at hchosen
    obtain ⟨q, hq, hdestination⟩ := List.mem_map.mp hchosen
    obtain ⟨p, hp⟩ := hasked q hq
    refine ⟨q, ?_, ⟨hp.identifier.trans hm.identifier, hp.timestamp.trans hm.timestamp,
      hp.originalAgent.trans hm.originalAgent, hp.range.trans hm.range⟩, hp.ssvValueList⟩
    rw [← hdestination]
    exact filter_eq_singleton hnodup hq
  · intro hy
    rw [List.filter_eq_nil_iff]
    intro q hq hdestination
    simp only [decide_eq_true_eq] at hdestination
    exact hy (h.mem_forward_iff.mpr (hdestination ▸ hmem q hq))

end Takes

section Settle

variable {prog' : Plan.Progress Nat} {waits : Direction → Prop} {points : SsvId → Option Point}
  {t : RangeTracker} {responses : List RangeQueryMessage} {pending noted : List Nat}

/-- The entry that is left is the one the settled phase calls for. -/
theorem tracks_settle (h : RangeClp.Outcome (net.clp c) m back waits points t responses)
    (hm : I.About m)
    (hwaits : ∀ p, waits p ↔ ∃ d ∈ pending, RouteTable.portOf c d = p)
    (hpoints : ∀ x, points x = I.collected noted x)
    (hphase : prog' c = .settle pending noted) :
    I.Tracks prog' c (some back) t[I.identifier]? := by
  cases h with
  | waiting hsome hentry horigin hstatus hmap =>
      obtain ⟨p, hp⟩ := hsome
      obtain ⟨d, hd, _⟩ := (hwaits p).mp hp
      rw [hm.identifier] at hentry
      rw [hentry]
      refine @Tracks.waiting _ _ I prog' c _ pending noted _ ?_ (by rw [horigin])
        (fun p => (hstatus p).trans (hwaits p)) fun x => (hmap x).trans (hpoints x)
      rw [hphase]
      cases pending with
      | nil => cases hd
      | cons d rest => rfl
  | answered hnone hentry hanswer =>
      rw [hm.identifier] at hentry
      rw [hentry]
      refine .nothing fun pending' noted' heq => ?_
      rw [hphase] at heq
      cases pending with
      | nil => cases heq
      | cons d rest => exact hnone _ ((hwaits _).mpr ⟨d, List.mem_cons_self, rfl⟩)

/-- The answer that is given is the one the settled phase calls for. -/
theorem responses_settle (h : RangeClp.Outcome (net.clp c) m back waits points t responses)
    (hwaits : ∀ p, waits p ↔ ∃ d ∈ pending, RouteTable.portOf c d = p)
    (hphase : prog' c = .settle pending noted) :
    (∃ q, prog' c = .answered noted ∧ responses = [q] ∧ Answer (net.clp c) m back points q) ∨
      ((∀ noted', prog' c ≠ .answered noted') ∧ responses = []) := by
  cases h with
  | waiting hsome _ _ _ _ =>
      obtain ⟨p, hp⟩ := hsome
      obtain ⟨d, hd, _⟩ := (hwaits p).mp hp
      refine .inr ⟨fun noted' heq => ?_, rfl⟩
      rw [hphase] at heq
      cases pending with
      | nil => cases hd
      | cons d rest => cases heq
  | @answered q hnone _ hanswer =>
      refine .inl ⟨q, ?_, rfl, hanswer⟩
      rw [hphase]
      cases pending with
      | nil => rfl
      | cons d rest => exact absurd ((hwaits _).mpr ⟨d, List.mem_cons_self, rfl⟩) (hnone _)

/-- The answer goes to the asker, and to nobody else. -/
theorem onLink_settle (h : RangeClp.Outcome (net.clp c) m back waits points t responses)
    (hm : I.About m) (hrank : (net.clp c).rank = c)
    (hback : (net.clp c).routeTable.getRankFromDirection back = some (I.asker c))
    (hwaits : ∀ p, waits p ↔ ∃ d ∈ pending, RouteTable.portOf c d = p)
    (hpoints : ∀ x, points x = I.collected noted x)
    (hphase : prog' c = .settle pending noted) {y : Nat}
    (hy : I.asker y = c → prog' y ≠ .asked) :
    I.OnLink prog' c y (responses.filter fun q => q.destination = y) := by
  cases responses_settle h hwaits hphase with
  | inl hanswered =>
      obtain ⟨q, hanswer, rfl, hq⟩ := hanswered
      have hdestination : q.destination = I.asker c :=
        Option.some.inj (hq.destination.symm.trans hback)
      by_cases hasker : I.asker c = y
      · have hone : [q].filter (fun q => q.destination = y) = [q] := by
          simp [hdestination, hasker]
        rw [hone]
        refine .answer hanswer hasker ⟨hq.identifier.trans hm.identifier,
          hq.timestamp.trans hm.timestamp, hq.originalAgent.trans hm.originalAgent,
          hq.range.trans hm.range⟩ (hq.origin.trans hrank) fun x => ?_
        exact (hq.ssvValueList x).trans (hpoints x)
      · have hnone : [q].filter (fun q => q.destination = y) = [] := by
          simp [hdestination, hasker]
        rw [hnone]
        exact .nothing hy fun heq => absurd heq hasker
  | inr hwaiting =>
      rw [hwaiting.2]
      exact .nothing hy fun _ noted' => hwaiting.1 noted'

end Settle

/-- A message of the query has come to `c`, and what `c` does with it is done. -/
structure Handled (I : Inquiry numberOfClps alpToClpMap) (net net' : RangeNetwork)
    (source c : Nat) (r : Served) : Prop where
  clp : ∀ x, net'.clp x = if x = c then r.clp else net.clp x
  taken : ∃ m, queriesOf I.identifier (net.pipe source c) = [m]
  links : ∀ x y, queriesOf I.identifier (net'.pipe x y) =
    (if x = source ∧ y = c then [] else queriesOf I.identifier (net.pipe x y)) ++
      if x = c then (r.forwarded ++ r.responses).filter (fun q => q.destination = y) else []

/-- Taken with another message of the query, a link holds none. -/
theorem alone {a b : Nat} {front rest : List RangeMessage}
    (h : I.OnLink prog a b (queriesOf I.identifier (front ++ .query m :: rest)))
    (hm : m.identifier = I.identifier) :
    queriesOf I.identifier (front ++ .query m :: rest) = [m] ∧
      queriesOf I.identifier (front ++ rest) = [] := by
  rw [queriesOf_append, queriesOf_cons_query, if_pos hm] at *
  have hlength : ∀ l, I.OnLink prog a b l → l.length ≤ 1 := by
    intro l hl
    cases hl with
    | question | answer => exact Nat.le_refl 1
    | nothing => exact Nat.zero_le 1
  have hle := hlength _ h
  rw [List.length_append, List.length_cons] at hle
  have hfront : queriesOf I.identifier front = [] := List.eq_nil_of_length_eq_zero (by omega)
  have hrest : queriesOf I.identifier rest = [] := List.eq_nil_of_length_eq_zero (by omega)
  rw [queriesOf_append, hfront, hrest]
  exact ⟨rfl, rfl⟩

theorem handled_of_serve {source : Nat} {front rest : List RangeMessage} {r : Served}
    (h : I.InStep prog net) (hm : m.identifier = I.identifier)
    (hpipe : net.pipe source c = front ++ .query m :: rest)
    (hr : ∀ q ∈ r.forwarded ++ r.responses, q.identifier = I.identifier) :
    queriesOf I.identifier (net.pipe source c) = [m] ∧
    Handled I net
      ((({ net with pipe := net.pipe.put source c (front ++ rest) } : RangeNetwork).setClp
        c r.clp).send c ((r.forwarded ++ r.responses).map .query)) source c r := by
  have hlink := h.links source c
  rw [hpipe] at hlink
  obtain ⟨hone, hnone⟩ := alone hlink hm
  rw [← hpipe] at hone
  refine ⟨hone, fun x => by simp, ⟨m, hone⟩, fun x y => ?_⟩
  have hsent : queriesOf I.identifier
      (((r.forwarded ++ r.responses).map RangeMessage.query).filter
        fun m => m.destination = y) =
      (r.forwarded ++ r.responses).filter fun q => q.destination = y := by
    generalize r.forwarded ++ r.responses = l at hr
    induction l with
    | nil => rfl
    | cons q l ih =>
        have hl := ih fun q' hq' => hr q' (List.mem_cons_of_mem _ hq')
        have hq := hr q List.mem_cons_self
        have hquery : (RangeMessage.query q).destination = q.destination := rfl
        by_cases hy : q.destination = y
        · simp only [List.map_cons, List.filter_cons, hquery, hy, decide_true, if_true,
            queriesOf_cons_query, hq, hl]
        · simp only [List.map_cons, List.filter_cons, hquery, hy, decide_false, Bool.false_eq_true,
            if_false, hl]
  have htaken : queriesOf I.identifier (net.pipe.put source c (front ++ rest) x y) =
      if x = source ∧ y = c then [] else queriesOf I.identifier (net.pipe x y) := by
    simp only [Pipes.put]
    split
    · exact hnone
    · rfl
  rw [pipe_send, pipe_setClp]
  split
  · rw [queriesOf_append, hsent]
    exact congrArg (· ++ _) htaken
  · rw [List.append_nil]
    exact htaken

theorem settles_iff (hcovers : Covers numberOfClps net I.timestamp) {s : Service}
    (h : Takes I net c m back s)
    (hm : I.About m) (p : Direction) :
    p ∈ otherPorts back ∧ (net.clp c).settles back m p = false ↔
      ∃ d ∈ I.forward c, RouteTable.portOf c d = p := by
  have hperiod : (net.clp c).hasRangePeriod m p = true := by
    rw [hasRangePeriod, hm.timestamp]
    exact hcovers c p h.lt
  rw [settles_of_hasRangePeriod hperiod, Bool.not_eq_false']
  exact h.asks_iff p

section Question

variable {r : Served} {s : Service}

theorem InStep.absent (h : I.InStep prog net) (hphase : prog c = .asked) :
    (net.clp c).rangeTracker[I.identifier]? = none := by
  have hc : c < numberOfClps := h.lt_of_phase (by simp [hphase])
  have htracks := h.tracks c hc
  generalize (net.clp c).rangeTracker[I.identifier]? = e at htracks
  cases htracks with
  | waiting hwaiting => simp [hphase] at hwaiting
  | nothing => rfl

/-- What the CLP makes of a question. -/
theorem InStep.takes (h : I.InStep prog net) (hw : Wired numberOfClps alpToClpMap net)
    (hphase : prog c = .asked) (hm : I.About m) (hr : (net.clp c).serve m = some r)
    (hfirst : I.first c = some s) (hforwarded : s.forwarded = r.forwarded) :
    ∃ back, (net.clp c).routeTable.getDirectionFromRank I.originalAgent.rank = some back ∧
      Takes I net c m back s ∧ Fresh (net.clp c) m back r := by
  have hc : c < numberOfClps := h.lt_of_phase (by simp [hphase])
  have habsent := h.absent hphase
  rw [← hm.identifier] at habsent
  obtain ⟨back, hdirection, hfresh⟩ := serve_fresh habsent hr
  rw [hm.originalAgent] at hdirection
  obtain ⟨back', hdirection', hback⟩ := exists_back I hw hc
  have heq : back' = back := Option.some.inj (hdirection'.symm.trans hdirection)
  subst heq
  exact ⟨back', hdirection, ⟨hfirst, hw, hc, hback, hforwarded ▸ hfresh.forwarded⟩, hfresh⟩

theorem inStep_question (h : I.InStep prog net) (hw : Wired numberOfClps alpToClpMap net)
    (hcovers : Covers numberOfClps net I.timestamp) (hphase : prog c = .asked)
    (hm : I.About m) (hempty : m.ssvValueList = ∅) (hr : (net.clp c).serve m = some r)
    (hfirst : I.first c = some s) (hforwarded : s.forwarded = r.forwarded)
    (hreads : s.reads = r.reads) (hhandled : Handled I net net' (I.asker c) c r) :
    I.InStep (I.plan.receiveQuestion prog c) net' := by
  have hc : c < numberOfClps := h.lt_of_phase (by simp [hphase])
  obtain ⟨back, hdirection, htakes, hfresh⟩ := h.takes hw hphase hm hr hfirst hforwarded
  have hself : I.plan.receiveQuestion prog c c = .settle (I.forward c) [c] :=
    Plan.receiveQuestion_self prog c
  have hchild : ∀ d ∈ I.forward c, I.plan.receiveQuestion prog c d = .asked :=
    fun d hd => Plan.receiveQuestion_child hd
  have hother : ∀ x, x ≠ c → x ∉ I.forward c → I.plan.receiveQuestion prog c x = prog x :=
    fun x hx hx' => Plan.receiveQuestion_other hx hx'
  have hidle : ∀ d ∈ I.forward c, prog d = .idle := fun d hd => h.sound.idle hphase hd
  have hpoints : ∀ x : SsvId, (m.ssvValueList[x]?).or (r.reads.findSome? (·[x]?)) =
      I.collected [c] x := by
    intro x
    have hfound : I.found c x = r.reads.findSome? (·[x]?) := by
      rw [found, hfirst, Option.bind_some, hreads]
    rw [hempty, Std.TreeMap.getElem?_emptyc, Option.none_or, ← hfound, collected]
    cases hcx : I.found c x <;> simp [hcx]
  have hwaits := settles_iff hcovers htakes hm
  have hnotasked : ∀ y, I.asker y = c → prog y = .idle := by
    intro y hasker
    by_contra hne
    have hmem := I.mem_forward_of_below (h.sound.below y hne) hasker hc
    exact hne (hidle y hmem)
  refine ⟨Plan.sound_step (.question c hphase) h.sound, fun x hx => ?_, fun x y => ?_⟩
  · rw [hhandled.clp]
    by_cases hxc : x = c
    · subst hxc
      rw [if_pos rfl, hfresh.tables.kept.routeTable, hdirection]
      exact tracks_settle hfresh.outcome hm hwaits hpoints hself
    · rw [if_neg hxc]
      refine (h.tracks x hx).congr fun pending noted => ?_
      by_cases hx' : x ∈ I.forward c
      · simp [hchild x hx', hidle x hx']
      · rw [hother x hxc hx']
  · rw [hhandled.links]
    by_cases htaken : x = I.asker c ∧ y = c
    · -- the link the question came by
      obtain ⟨hx, rfl⟩ := htaken
      have hxy : x ≠ y := by
        intro heq
        have hidley := hnotasked y (hx.symm.trans heq)
        simp [hphase] at hidley
      rw [if_pos ⟨hx, rfl⟩, if_neg hxy, List.append_nil]
      refine .nothing (fun _ heq => ?_) fun hasker noted heq => ?_
      · rw [hself] at heq
        cases hl : I.forward y <;> simp [hl, Plan.Phase.settle] at heq
      · by_cases hx' : x ∈ I.forward y
        · rw [hchild x hx'] at heq
          cases heq
        · rw [hother x hxy hx', hnotasked x hasker] at heq
          cases heq
    · rw [if_neg htaken]
      by_cases hxc : x = c
      · subst hxc
        have hbefore : queriesOf I.identifier (net.pipe x y) = [] := by
          have hlink := h.links x y
          generalize queriesOf I.identifier (net.pipe x y) = l at hlink
          cases hlink with
          | question hasked hasker => simp [hnotasked y hasker] at hasked
          | answer hanswered => simp [hphase] at hanswered
          | nothing => rfl
        rw [if_pos rfl, hbefore, List.nil_append, List.filter_append, ← hforwarded]
        by_cases hy : y ∈ I.forward x
        · obtain ⟨q, hone, habout, hq⟩ := (htakes.forwarded_to hm y).1 hy
          have hasker : I.asker y = x := I.asker_of_mem hy
          have haway : I.asker x ≠ y := by
            obtain ⟨_, hlt, hne, hnext, _⟩ := I.mem_forward.mp hy
            exact fun heq => ((I.away_iff hlt).mpr ⟨hne, hnext⟩).2 heq.symm
          have hnone : r.responses.filter (fun q => q.destination = y) = [] := by
            cases responses_settle hfresh.outcome hwaits hself with
            | inl hanswered =>
                obtain ⟨a, _, heq, ha⟩ := hanswered
                have hdestination : a.destination = I.asker x :=
                  Option.some.inj (ha.destination.symm.trans htakes.leadsBack)
                rw [heq]
                simp [hdestination, haway]
            | inr hwaiting =>
                rw [hwaiting.2]
                rfl
          rw [hone, hnone, List.append_nil]
          exact .question (hchild y hy) hasker habout hq
        · rw [(htakes.forwarded_to hm y).2 hy, List.nil_append]
          refine onLink_settle hfresh.outcome hm (hw.rank x hc) htakes.leadsBack hwaits hpoints
            hself fun hasker heq => ?_
          by_cases hyx : y = x
          · rw [hyx, hself] at heq
            cases hl : I.forward x <;> simp [hl, Plan.Phase.settle] at heq
          · rw [hother y hyx hy, hnotasked y hasker] at heq
            cases heq
      · rw [if_neg hxc, List.append_nil]
        refine (h.links x y).congr (fun hasker => ?_) fun hasker noted => ?_
        · have hyc : y ≠ c := fun heq => htaken ⟨heq ▸ hasker.symm, heq⟩
          have hy : y ∉ I.forward c := fun hin => hxc (hasker.symm.trans (I.asker_of_mem hin))
          rw [hother y hyc hy]
        · by_cases hx' : x ∈ I.forward c
          · simp [hchild x hx', hidle x hx']
          · rw [hother x hxc hx']

end Question

section Reply

variable {r : Served} {d : Nat} {answer : List Nat}

/-- An answer on its way finds its asker with an entry that waits for it. -/
theorem InStep.waits (h : I.InStep prog net) (hanswer : prog d = .answered answer)
    (hasker : I.asker d = c) (hc : c < numberOfClps) :
    d ∈ I.forward c ∧ ∃ pending noted e, prog c = .waiting pending noted ∧ d ∈ pending ∧
      (net.clp c).rangeTracker[I.identifier]? = some e ∧
      (net.clp c).routeTable.getDirectionFromRank I.originalAgent.rank = some e.originPort ∧
      (∀ p, e.getScanStatus p = .NOT_SCANNED ↔
        ∃ x ∈ pending, RouteTable.portOf c x = p) ∧
      ∀ x : SsvId, e.ssvValueMap[x]? = I.collected noted x := by
  have hd : d ∈ I.forward c :=
    I.mem_forward_of_below (h.sound.below d (by simp [hanswer])) hasker hc
  have hactive : (prog d).Active := by
    rw [hanswer]
    trivial
  obtain ⟨pending, noted, hwaiting, hpending⟩ := h.sound.waiting_of_active hd hactive
  refine ⟨hd, pending, noted, ?_⟩
  have htracks := h.tracks c hc
  generalize htracker : (net.clp c).rangeTracker[I.identifier]? = entry at htracks
  cases htracks with
  | @waiting pending' noted' e hphase horigin hstatus hmap =>
      rw [hwaiting] at hphase
      cases hphase
      exact ⟨e, hwaiting, hpending, rfl, horigin, hstatus, hmap⟩
  | nothing hphase => exact absurd hwaiting (hphase _ _)

theorem adj_of_mem_forward (hd : d ∈ I.forward c) : HeapTree.Adj c d := by
  obtain ⟨_, hlt, hne, hnext, _⟩ := I.mem_forward.mp hd
  exact ((I.away_iff hlt).mpr ⟨hne, hnext⟩).1

theorem asker_ne_of_mem_forward (hd : d ∈ I.forward c) : I.asker c ≠ d := by
  obtain ⟨_, hlt, hne, hnext, _⟩ := I.mem_forward.mp hd
  exact fun heq => ((I.away_iff hlt).mpr ⟨hne, hnext⟩).2 heq.symm

/-- What the CLP makes of an answer. -/
theorem InStep.replied (h : I.InStep prog net) (hw : Wired numberOfClps alpToClpMap net)
    (hanswer : prog d = .answered answer) (hasker : I.asker d = c) (hc : c < numberOfClps)
    (hm : I.About m) (horigin : m.origin = d)
    (hmap : ∀ x : SsvId, m.ssvValueList[x]? = I.collected answer x)
    (hr : (net.clp c).serve m = some r) :
    ∃ pending noted back waits points, prog c = .waiting pending noted ∧
      (net.clp c).routeTable.getDirectionFromRank I.originalAgent.rank = some back ∧
      (net.clp c).routeTable.getRankFromDirection back = some (I.asker c) ∧
      (∃ t, r.clp = { net.clp c with rangeTracker := t }) ∧ r.forwarded = [] ∧ r.reads = [] ∧
      RangeClp.Outcome (net.clp c) m back waits points r.clp.rangeTracker r.responses ∧
      (∀ p, waits p ↔ ∃ x ∈ pending.erase d, RouteTable.portOf c x = p) ∧
      ∀ x, points x = I.collected (noted ++ answer) x := by
  obtain ⟨hd, pending, noted, e, hwaiting, hpending, hentry, hback, hstatus, hcollected⟩ :=
    h.waits hanswer hasker hc
  obtain ⟨back, hdirection, hrank⟩ := exists_back I hw hc
  have heq : back = e.originPort := Option.some.inj (hdirection.symm.trans hback)
  have hphase := h.sound.phase c
  rw [hwaiting] at hphase
  obtain ⟨_, honce, hsub, _⟩ := hphase
  have hadj := adj_of_mem_forward hd
  have hports : ∀ p, e.getScanStatus p = .NOT_SCANNED → p ∈ Direction.ports := by
    intro p hp
    obtain ⟨x, _, rfl⟩ := (hstatus p).mp hp
    simp only [RouteTable.portOf]
    split
    · decide
    · split <;> decide
  have hport : (net.clp c).routeTable.getDirectionFromRank m.origin =
      some (RouteTable.portOf c d) := by
    rw [horigin]
    exact hw.direction_of_adj hc (I.mem_forward.mp hd).2.1 hadj
  rw [← hm.identifier] at hentry
  obtain ⟨hclp, _, hforwarded, hreads, houtcome⟩ := serve_reply hentry hports hport hr
  rw [← heq] at houtcome
  refine ⟨pending, noted, back, _, _, hwaiting, hdirection, hrank, hclp, hforwarded, hreads,
    houtcome, fun p => ?_, fun x => ?_⟩
  · rw [hstatus]
    constructor
    · intro hp
      obtain ⟨⟨x, hx, hxp⟩, hne⟩ := hp
      have hxd : x ≠ d := fun heq => hne (by rw [← hxp, heq])
      exact ⟨x, (List.mem_erase_of_ne hxd).mpr hx, hxp⟩
    · intro hx
      obtain ⟨x, hx, hxp⟩ := hx
      have hmem := List.mem_of_mem_erase hx
      refine ⟨⟨x, hmem, hxp⟩, fun heq => ?_⟩
      have hsame := RouteTable.portOf_injective (adj_of_mem_forward (hsub x hmem)) hadj
        (hxp.trans heq)
      exact honce.not_mem_erase (hsame ▸ hx)
  · rw [hcollected, hmap, collected_append]

theorem inStep_reply (h : I.InStep prog net) (hw : Wired numberOfClps alpToClpMap net)
    (hanswer : prog d = .answered answer) (hasker : I.asker d = c) (hc : c < numberOfClps)
    (hm : I.About m) (horigin : m.origin = d)
    (hmap : ∀ x : SsvId, m.ssvValueList[x]? = I.collected answer x)
    (hr : (net.clp c).serve m = some r) (hhandled : Handled I net net' d c r) :
    ∃ pending noted, prog c = .waiting pending noted ∧
      I.plan.Step prog (I.plan.receiveAnswer prog d pending noted answer) ∧
      I.InStep (I.plan.receiveAnswer prog d pending noted answer) net' := by
  obtain ⟨hd, _⟩ := h.waits hanswer hasker hc
  obtain ⟨pending, noted, back, waits, points, hwaiting, hdirection, hback, ⟨t, ht⟩,
    hforwarded, _, houtcome, hwaits, hpoints⟩ :=
    h.replied hw hanswer hasker hc hm horigin hmap hr
  have hparent : I.plan.parent d = c := I.plan.parent_of_mem hd
  have hdc : d ≠ c := fun heq => Nat.lt_irrefl _ (heq ▸ I.weight_lt hd)
  have hstep : I.plan.Step prog (I.plan.receiveAnswer prog d pending noted answer) :=
    .answer d pending noted answer (hparent ▸ hd) hanswer (hparent ▸ hwaiting)
  have hself : I.plan.receiveAnswer prog d pending noted answer c =
      .settle (pending.erase d) (noted ++ answer) :=
    Plan.receiveAnswer_asker hd
  have hdone : I.plan.receiveAnswer prog d pending noted answer d = .done answer :=
    Plan.receiveAnswer_self prog d pending noted answer
  have hother : ∀ x, x ≠ d → x ≠ c →
      I.plan.receiveAnswer prog d pending noted answer x = prog x :=
    fun x hxd hxc => Plan.receiveAnswer_other hd hxd hxc
  have hasked : ∀ y, I.plan.receiveAnswer prog d pending noted answer y = .asked ↔
      prog y = .asked :=
    Plan.receiveAnswer_asked hd hanswer hwaiting
  refine ⟨pending, noted, hwaiting, hstep, Plan.sound_step hstep h.sound, fun x hx => ?_,
    fun x y => ?_⟩
  · rw [hhandled.clp]
    by_cases hxc : x = c
    · subst hxc
      rw [if_pos rfl]
      have hroutes : r.clp.routeTable = (net.clp x).routeTable := by rw [ht]
      rw [hroutes, hdirection]
      exact tracks_settle houtcome hm hwaits hpoints hself
    · rw [if_neg hxc]
      refine (h.tracks x hx).congr fun pending' noted' => ?_
      by_cases hxd : x = d
      · simp [hxd, hanswer]
      · rw [hother x hxd hxc]
  · rw [hhandled.links]
    by_cases htaken : x = d ∧ y = c
    · obtain ⟨rfl, rfl⟩ := htaken
      rw [if_pos ⟨rfl, rfl⟩, if_neg hdc, List.append_nil]
      have hsettled : I.plan.receiveAnswer prog x pending noted answer y ≠ .asked := by
        simp [hasked, hwaiting]
      refine .nothing (fun _ => hsettled) fun _ noted' heq => ?_
      rw [hdone] at heq
      cases heq
    · rw [if_neg htaken]
      by_cases hxc : x = c
      · subst hxc
        rw [if_pos rfl, hforwarded, List.nil_append]
        by_cases hy : y ∈ I.forward x
        · -- another question of the same CLP may still be on its way
          have hnone : r.responses.filter (fun q => q.destination = y) = [] := by
            cases responses_settle houtcome hwaits hself with
            | inl hanswered =>
                obtain ⟨a, _, heq, ha⟩ := hanswered
                have hdestination : a.destination = I.asker x :=
                  Option.some.inj (ha.destination.symm.trans hback)
                rw [heq]
                simp [hdestination, asker_ne_of_mem_forward hy]
            | inr hstill =>
                rw [hstill.2]
                rfl
          rw [hnone, List.append_nil]
          exact (h.links x y).congr (fun _ => hasked y)
            fun heq => absurd heq (asker_ne_of_mem_forward hy)
        · have hnotasked : I.asker y = x → prog y ≠ .asked := by
            intro hasker' heq
            exact hy (I.mem_forward_of_below (h.sound.below y (by simp [heq])) hasker' hc)
          have hbefore : queriesOf I.identifier (net.pipe x y) = [] := by
            have hlink := h.links x y
            generalize queriesOf I.identifier (net.pipe x y) = l at hlink
            cases hlink with
            | question hphase hasker' => exact absurd hphase (hnotasked hasker')
            | answer hphase => simp [hwaiting] at hphase
            | nothing => rfl
          rw [hbefore, List.nil_append]
          exact onLink_settle houtcome hm (hw.rank x hc) hback hwaits hpoints hself
            fun hasker' heq => hnotasked hasker' ((hasked y).mp heq)
      · rw [if_neg hxc, List.append_nil]
        refine (h.links x y).congr (fun _ => hasked y) fun hasker' noted' => ?_
        have hxd : x ≠ d := fun heq => htaken ⟨heq, hasker'.symm.trans (heq ▸ hasker)⟩
        rw [hother x hxd hxc]

end Reply

end Inquiry

end RangeNetwork
end PdesMas
