import PdesMas.Lp.Simulation

/-!
No agent is forgotten. The network answers each request once, so that the answer
an agent finds is one to the request it waits for, and where all is quiet every
agent that waits has its answer.
-/

namespace PdesMas
namespace Simulation

open RouteTable (Attached)
open Dialogue (tickets departed)

def ofRank (rank : Nat) (m : Multiset Ticket) : Multiset Ticket :=
  m.filter fun t => t.originalAgent.rank = rank

/-- The requests of the agents of an ALP, and the responses to them, that are on their way. -/
def onTheWay (setup : Setup) (s : Simulation) (rank : Nat) : Multiset Ticket :=
  ofRank rank (s.network.count Content.owed setup) +
    ((s.receiveMessageQueue rank).map Content.owed).sum

/-- How an ALP with its record stands to what the network has of its agents' requests. -/
structure Linked (owed : Multiset Ticket) (rank : Nat) (queue : List Content) (d : Dialogue)
    (ignored : Multiset Ticket) : Prop where
  home : d.alp.rank = rank
  invariant : d.Invariant
  attended : d.EveryAttended
  own : ∀ q ∈ Alp.requestsOf d.alp.sendMessageQueue,
    q.originalAgent.rank = rank ∧ (AlpMessage.request q).ssvId?.isSome = true
  arrived : ∀ content ∈ queue, ∃ agent, content.agent? = some agent ∧ agent.rank = rank
  balance : ofRank rank owed + (queue.map Content.owed).sum + ignored = tickets d.unanswered

/-- What holds along every run; under `strict` no request has been ignored. -/
structure InTouch (setup : Setup) (strict : Prop) (s : Simulation) : Prop where
  sound : Network.Sound setup s.network
  owed : Network.OwedToAlps setup s.network
  alps : ∀ rank ∈ setup.initialisor.alpToClpMap, ∃ d ignored, d.alp = s.alp rank ∧
    (strict → ignored = 0) ∧
    Linked (s.network.count Content.owed setup) rank (s.receiveMessageQueue rank) d ignored

variable {setup : Setup} {s s' : Simulation}

@[simp] theorem ofRank_add (rank : Nat) (a b : Multiset Ticket) :
    ofRank rank (a + b) = ofRank rank a + ofRank rank b := Multiset.filter_add ..

@[simp] theorem ofRank_zero (rank : Nat) : ofRank rank 0 = 0 := Multiset.filter_zero _

theorem ofRank_eq_self {rank : Nat} {m : Multiset Ticket}
    (h : ∀ t ∈ m, t.originalAgent.rank = rank) : ofRank rank m = m :=
  Multiset.filter_eq_self.mpr h

theorem ofRank_eq_zero {rank : Nat} {m : Multiset Ticket}
    (h : ∀ t ∈ m, t.originalAgent.rank ≠ rank) : ofRank rank m = 0 :=
  Multiset.filter_eq_nil.mpr h

/-- The rank of an answer is that of its ticket. -/
theorem rank_of_owed {content : Content} {agent : LpId} (hagent : content.agent? = some agent) :
    ∀ t ∈ content.owed, t.originalAgent = agent := by
  intro t ht
  cases content with
  | agent => cases hagent
  | response r =>
      obtain rfl := Multiset.mem_singleton.mp ht
      exact Option.some.inj hagent
  | rollback r => cases ht

section Enter

variable {rank : Nat} {r : Alp.Result}

theorem enter_network (hattached : Attached setup.numberOfClps setup.initialisor.alpToClpMap)
    (hhosts : ∀ e ∈ setup.initialisor.placements, e.1 < setup.numberOfClps)
    (hsound : Network.Sound setup s.network) (howed : Network.OwedToAlps setup s.network)
    (hrank : rank ∈ setup.initialisor.alpToClpMap)
    (hown : ∀ q, r = .sent (.request q) →
      q.originalAgent.rank = rank ∧ (AlpMessage.request q).ssvId?.isSome = true) :
    Network.Sound setup (enter setup s.network rank r) ∧
      Network.OwedToAlps setup (enter setup s.network rank r) ∧
      (enter setup s.network rank r).count Content.owed setup =
        s.network.count Content.owed setup + departed r := by
  cases r with
  | done | consumed | processed => exact ⟨hsound, howed, (add_zero _).symm⟩
  | sent m =>
      have hstep : s.network.step setup (.alpSend rank m) =
          .ok ((s.network.alpSend setup rank m).1, (s.network.alpSend setup rank m).2) := rfl
      have hleads : Network.LeadsToNeighbours setup s.network (.alpSend rank m) := trivial
      obtain ⟨hsound', hcarries⟩ := hsound.step hattached hhosts hleads hstep
      have hof : Network.OfOwnAgent (.alpSend rank m) := by
        cases m with
        | request q => exact (hown q rfl).1
        | anti => trivial
      have hasked : (s.network.alpSend setup rank m).2.asked = departed (.sent m) := by
        cases m with
        | request q =>
            obtain ⟨clp, hclp⟩ := Option.isSome_iff_exists.mp
              (Std.TreeMap.mem_iff_isSome_getElem?.mp hrank)
            have hle := ((hattached.ranks rank).mp hrank).1
            simp only [Network.alpSend, hclp, if_pos (And.intro hle (hown q rfl).2)]
            rfl
        | anti m =>
            simp only [Network.alpSend]
            split
            · split <;> rfl
            · rfl
      have hbalance := hcarries.owed hsound hattached howed
      have hquiet : s.network.answered setup (.alpSend rank m) +
          s.network.ignored (.alpSend rank m) (s.network.alpSend setup rank m).2 = 0 := rfl
      rw [hasked, hquiet, add_zero] at hbalance
      exact ⟨hsound', howed.step hsound hattached hof hcarries, hbalance⟩

end Enter

section Arrive

variable {e : Network.Event} {net' : Network} {o : Network.Output}

theorem asked_of_inner (hinner : ∀ rank m, e ≠ .alpSend rank m)
    (hcarries : Network.Carries setup s.network net' e o) : o.asked = 0 := by
  cases hcarries with
  | kept _ _ quiet => exact quiet.asked
  | entered => exact absurd rfl (hinner _ _)
  | rolledBack _ _ cause =>
      rcases cause with ⟨_, _, _, rfl⟩ | ⟨_, _, rfl⟩
      · rfl
      · rfl
  | delivered | arrived | handled | posted => rfl

theorem arrived_of_carries (hsound : Network.Sound setup s.network)
    (hcarries : Network.Carries setup s.network net' e o) :
    ∀ a ∈ s.network.arrivals setup e,
      ∃ agent, a.2.agent? = some agent ∧ agent.rank = a.1 := by
  intro a ha
  cases hcarries with
  | kept _ _ quiet =>
      rw [quiet.arrivals] at ha
      cases ha
  | delivered hb =>
      rw [Network.arrivals_delivered hb] at ha
      cases ha
  | @arrived i b m _ hb hlink before =>
      rw [Network.answered_arrived hb hlink] at ha
      obtain rfl := List.mem_singleton.mp ha
      exact hsound.arrived (a := i) (by simp [before]) hb
  | rolledBack _ _ cause =>
      rcases cause with ⟨_, _, rfl, _⟩ | ⟨_, rfl, _⟩
      · cases ha
      · cases ha
  | entered | handled | posted => cases ha

theorem mem_arrivalsAt {rank : Nat} {content : Content} :
    content ∈ arrivalsAt setup s.network e rank ↔
      (rank, content) ∈ s.network.arrivals setup e := by
  simp [arrivalsAt]

/-- What arrives for the agents of a rank arrives at that rank. -/
theorem owed_arrivalsAt {l : List (Nat × Content)} {rank : Nat}
    (hl : ∀ a ∈ l, ∃ agent, a.2.agent? = some agent ∧ agent.rank = a.1) :
    ((((l.filter fun a => a.1 == rank).map Prod.snd).map Content.owed).sum : Multiset Ticket) =
      ofRank rank (l.map fun a => a.2.owed).sum := by
  induction l with
  | nil => rfl
  | cons a l ih =>
      have ih := ih fun b hb => hl b (List.mem_cons_of_mem _ hb)
      obtain ⟨agent, hagent, hrank⟩ := hl a List.mem_cons_self
      have howed := rank_of_owed hagent
      rw [List.map_cons, List.sum_cons, ofRank_add, ← ih]
      by_cases ha : a.1 = rank
      · have hself : ofRank rank a.2.owed = a.2.owed :=
          ofRank_eq_self fun t ht => by rw [howed t ht, hrank, ha]
        simp [ha, hself]
      · have hnone : ofRank rank a.2.owed = 0 :=
          ofRank_eq_zero fun t ht => by rw [howed t ht, hrank]; exact ha
        simp [ha, hnone]

theorem ignored_of_inTime (hcarries : Network.Carries setup s.network net' e o)
    (hintime : InTime s (.network e)) : s.network.ignored e o = 0 := by
  cases hcarries with
  | kept _ _ quiet => exact quiet.ignored
  | rolledBack _ _ cause =>
      rcases cause with ⟨_, _, rfl, rfl⟩ | ⟨_, rfl, rfl⟩
      · rfl
      · rfl
  | entered | delivered | arrived | posted => rfl
  | @handled x clock m rest l r others hx hqueue treats =>
      generalize hcontent : m.content = content at treats
      cases treats with
      | @processed serial _ i =>
          cases i with
          | anti => rfl
          | request q =>
              have hdue : q.due (s.network.clp x).gvt = true := by
                simpa [InTime, hqueue, hcontent, Content.inTime] using hintime
              simp [Network.ignored, hdue]
      | forwarded | passed | dropped => rfl

end Arrive

section Step

variable {owed ignored : Multiset Ticket} {rank : Nat} {queue : List Content} {d : Dialogue}

/-- A response an ALP receives is one to a request of its agents. -/
theorem Linked.expected {e : Alp.Event}
    (h : Linked owed rank ((received e).toList ++ queue) d ignored) :
    Dialogue.Expected d.unanswered e := by
  cases e with
  | receiveResponse m =>
      refine Dialogue.mem_tickets.mp ?_
      rw [← h.balance]
      simp [received, Content.owed]
  | issue | timeWrap | send | consume | receiveRollback | setGvt => trivial

theorem Linked.permitted {e : Alp.Event}
    (h : Linked owed rank ((received e).toList ++ queue) d ignored)
    (hfresh : Alp.FreshIds d.alp e) : Dialogue.Permitted d e := by
  refine ⟨hfresh, ?_⟩
  cases e with
  | receiveRollback m =>
      obtain ⟨agent, hagent, heq⟩ := h.arrived (.rollback m) (by simp [received])
      obtain rfl := Option.some.inj hagent
      exact heq.trans h.home.symm
  | issue | timeWrap | send | receiveResponse | consume | setGvt => trivial

theorem sum_owed_received (e : Alp.Event) :
    (((received e).toList.map Content.owed).sum : Multiset Ticket) = Dialogue.received e := by
  cases e with
  | receiveResponse | receiveRollback => simp [received, Content.owed, Dialogue.received]
  | issue | timeWrap | send | consume | setGvt => rfl

/-- The request that leaves an ALP is one of its agents'. -/
theorem Linked.departed_rank (h : Linked owed rank queue d ignored) {e : Alp.Event} {alp' : Alp}
    {r : Alp.Result} (htransition : Alp.Transition d.alp e alp' r) :
    ∀ t ∈ departed r, t.originalAgent.rank = rank := by
  intro t ht
  cases r with
  | sent m =>
      cases m with
      | request q =>
          obtain rfl := Multiset.mem_singleton.mp ht
          exact (h.own q (Dialogue.sent_of_transition htransition q rfl)).1
      | anti => cases ht
  | done | consumed | processed => cases ht

/-- A step of the ALP. -/
theorem Linked.alp {e : Alp.Event}
    (h : Linked owed rank ((received e).toList ++ queue) d ignored) {alp' : Alp} {r : Alp.Result}
    (htransition : Alp.Transition d.alp e alp' r) (hreads : ReadsOrWrites e)
    (hfresh : Alp.FreshIds d.alp e) (hspares : SparesNoUnsent d.alp e) :
    ∃ d', d'.alp = alp' ∧ Linked (owed + departed r) rank queue d' ignored := by
  have hexpected := h.expected
  obtain ⟨last', unanswered', hrecord, htickets⟩ :=
    Dialogue.exists_record htransition h.invariant hexpected
  have hspares' : Dialogue.SparesNoUnsent d e := by
    cases e with
    | receiveRollback => exact hspares
    | issue | timeWrap | send | receiveResponse | consume | setGvt => trivial
  refine ⟨⟨alp', last', unanswered'⟩, rfl, ?_, ?_, ?_, fun q hq => ?_,
    fun content hcontent => ?_, ?_⟩
  · exact (Dialogue.rank_of_transition htransition).trans h.home
  · exact Dialogue.invariant_step htransition hrecord h.invariant (h.permitted hfresh) hspares'
  · exact Dialogue.everyAttended_step htransition hrecord h.invariant hexpected h.attended
  · rcases Dialogue.requests_of_transition htransition q hq with
      hq | ⟨id, kind, timestamp, rfl, hagent, hkind⟩
    · exact h.own q hq
    · refine ⟨by rw [hagent]; exact h.home, ?_⟩
      cases kind with
      | singleRead | write => simp [AlpMessage.ssvId?, hkind]
      | rangeQuery => exact hreads.elim
  · exact h.arrived content (List.mem_append_right _ hcontent)
  · have hbalance := h.balance
    have hdeparted := ofRank_eq_self (h.departed_rank htransition)
    rw [List.map_append, List.sum_append, sum_owed_received] at hbalance
    have hboth : ofRank rank (owed + departed r) + (queue.map Content.owed).sum + ignored +
        Dialogue.received e = tickets unanswered' + Dialogue.received e := by
      rw [htickets, ← hbalance, ofRank_add, hdeparted]
      ac_rfl
    exact add_right_cancel hboth

/-- The requests of other ALPs do not matter. -/
theorem Linked.other (h : Linked owed rank queue d ignored) {m : Multiset Ticket}
    (hm : ∀ t ∈ m, t.originalAgent.rank ≠ rank) : Linked (owed + m) rank queue d ignored :=
  { h with balance := by rw [ofRank_add, ofRank_eq_zero hm, add_zero, h.balance] }

/-- A step of the network. -/
theorem Linked.network (h : Linked owed rank queue d ignored) {owed' lost : Multiset Ticket}
    {arrived : List Content}
    (harrived : ∀ content ∈ arrived, ∃ agent, content.agent? = some agent ∧ agent.rank = rank)
    (hbalance : ofRank rank owed' + (arrived.map Content.owed).sum + lost = ofRank rank owed) :
    Linked owed' rank (queue ++ arrived) d (ignored + lost) := by
  refine { h with arrived := fun content hcontent => ?_, balance := ?_ }
  · rcases List.mem_append.mp hcontent with hcontent | hcontent
    · exact h.arrived content hcontent
    · exact harrived content hcontent
  · rw [← h.balance, ← hbalance, List.map_append, List.sum_append]
    ac_rfl

variable {strict : Prop}

theorem InTouch.step (h : InTouch setup strict s)
    (hattached : Attached setup.numberOfClps setup.initialisor.alpToClpMap)
    (hhosts : ∀ e ∈ setup.initialisor.placements, e.1 < setup.numberOfClps) {e : Event}
    (hacts : Acts setup s e s') (hpermitted : Permitted setup s e)
    (hintime : strict → InTime s e) : InTouch setup strict s' := by
  cases hacts with
  | @alp rank e queue alp' r hrank hqueue hstep =>
      have htransition := Alp.transition_of_step hstep
      obtain ⟨d, ignored, hd, hnone, hlinked⟩ := h.alps rank hrank
      obtain ⟨hreads, hfresh, hspares⟩ := hpermitted
      rw [← hd] at htransition hfresh hspares
      rw [hqueue] at hlinked
      have hown : ∀ q, r = .sent (.request q) →
          q.originalAgent.rank = rank ∧ (AlpMessage.request q).ssvId?.isSome = true := by
        rintro q rfl
        exact hlinked.own q (Dialogue.sent_of_transition htransition q rfl)
      obtain ⟨hsound, howed, hcount⟩ :=
        enter_network hattached hhosts h.sound h.owed hrank hown
      refine ⟨hsound, howed, fun k hk => ?_⟩
      rw [hcount]
      by_cases hne : k = rank
      · subst hne
        obtain ⟨d', hd', hlinked'⟩ :=
          hlinked.alp htransition hreads hfresh hspares
        simp only [Function.update_self]
        exact ⟨d', ignored, hd', hnone, hlinked'⟩
      · simp only [Function.update_of_ne hne]
        obtain ⟨d', ignored', hd', hnone', hlinked'⟩ := h.alps k hk
        refine ⟨d', ignored', hd', hnone', hlinked'.other fun t ht => ?_⟩
        rw [hlinked.departed_rank htransition t ht]
        exact Ne.symm hne
  | @network e network o hinner hstep =>
      obtain ⟨hsound, hcarries⟩ := h.sound.step hattached hhosts hpermitted hstep
      have hof : Network.OfOwnAgent e := by
        cases e with
        | alpSend rank m => exact absurd rfl (hinner rank m)
        | deliver | receive | send | setGvt | migrate => trivial
      have harrived := arrived_of_carries h.sound hcarries
      refine ⟨hsound, h.owed.step h.sound hattached hof hcarries, fun k hk => ?_⟩
      obtain ⟨d, ignored, hd, hnone, hlinked⟩ := h.alps k hk
      have hbalance := hcarries.owed h.sound hattached h.owed
      rw [asked_of_inner hinner hcarries, add_zero] at hbalance
      refine ⟨d, ignored + ofRank k (s.network.ignored e o), hd, fun hstrict => ?_,
        hlinked.network (fun content hcontent => ?_) ?_⟩
      · rw [hnone hstrict, ignored_of_inTime hcarries (hintime hstrict)]
        rfl
      · obtain ⟨agent, hagent, hrank⟩ := harrived _ (mem_arrivalsAt.mp hcontent)
        exact ⟨agent, hagent, hrank⟩
      · rw [arrivalsAt, owed_arrivalsAt harrived, ← hbalance, ofRank_add, ofRank_add]
        exact add_assoc _ _ _

end Step

section Runs

variable {strict : Prop}

theorem Initial.inTouch (h : Initial setup s)
    (hattached : Attached setup.numberOfClps setup.initialisor.alpToClpMap) :
    InTouch setup strict s := by
  refine ⟨h.network.sound, fun t ht => ?_, fun rank hrank => ?_⟩
  · rw [h.network.count_eq_zero] at ht
    cases ht
  · obtain ⟨agentIds, halp⟩ := h.alps rank hrank
    obtain ⟨hle, hlt⟩ := (hattached.ranks rank).mp hrank
    have hinitial : Dialogue.Initial ⟨s.alp rank, fun _ => none, []⟩ :=
      ⟨⟨_, _, _, _, agentIds, by omega, halp⟩, fun _ => rfl, rfl⟩
    refine ⟨_, 0, rfl, fun _ => rfl, ?_, Dialogue.invariant_initial hinitial,
      fun id a ha => .idle ?_, fun q hq => ?_, fun content hcontent => ?_, ?_⟩
    · rw [halp]
      rfl
    · rw [halp] at ha
      rw [Alp.eq_initial_of_create ha]
      rfl
    · rw [halp] at hq
      cases hq
    · rw [h.queues] at hcontent
      cases hcontent
    · rw [h.network.count_eq_zero, h.queues]
      rfl

theorem inTouch_of_reachable
    (hattached : Attached setup.numberOfClps setup.initialisor.alpToClpMap)
    {allowed : Simulation → Event → Prop} (hpermitted : ∀ s e, allowed s e → Permitted setup s e)
    (hintime : strict → ∀ s e, allowed s e → InTime s e)
    (hreach : (machine setup).Reachable (Initial setup) allowed s) : InTouch setup strict s := by
  have hplaces : setup.initialisor.PlacesOnce setup.numberOfClps :=
    hreach.invariant (fun _ => _) (fun _ h => h.network.places) fun _ _ _ _ h _ _ => h
  refine hreach.invariant _ (fun _ h => h.inTouch hattached) fun s e s' o h hallowed hstep => ?_
  exact h.step hattached hplaces.2 (acts_of_step hstep) (hpermitted s e hallowed)
    fun hstrict => hintime hstrict s e hallowed

/-- In every state the simulation reaches, an agent whose answer has come waits for a request,
and the answer is one to that request and of the type it expects. -/
theorem answer_fits
    (hattached : Attached setup.numberOfClps setup.initialisor.alpToClpMap)
    (hreach : (machine setup).Reachable (Initial setup) (Permitted setup) s) {rank id : Nat}
    {a : AgentState} (hrank : rank ∈ setup.initialisor.alpToClpMap)
    (ha : (s.alp rank).agents[id]? = some a) (hready : a.messageReady = true) :
    ∃ request response, a.waiting = some request ∧ a.response = some response ∧
      response.identifier = request.identifier ∧
      response.originalAgent = request.originalAgent ∧
      request.kind.expects response.kind = true := by
  have h : InTouch setup False s :=
    inTouch_of_reachable hattached (fun _ _ h => h) nofun hreach
  obtain ⟨d, _, hd, _, hlinked⟩ := h.alps rank hrank
  rw [← hd] at ha
  obtain ⟨hwaits, response, _, hresponse, _⟩ := (hlinked.invariant.engaged id a ha).ready hready
  obtain ⟨request, hrequest⟩ := Option.ne_none_iff_exists'.mp hwaits
  have hticket := (hlinked.attended id a ha).fitting request response hrequest hready hresponse
  exact ⟨request, response, hrequest, hresponse, congrArg Ticket.identifier hticket,
    congrArg Ticket.originalAgent hticket, expects_iff.mpr (congrArg Ticket.responseType hticket)⟩

/-- Nothing is on its way, and the ALPs have nothing to send. -/
structure AtRest (setup : Setup) (s : Simulation) : Prop where
  letters : s.network.letters setup = 0
  received : ∀ rank, s.receiveMessageQueue rank = []
  queued : ∀ rank, (s.alp rank).sendMessageQueue = []

/-- As long as no read comes to a CLP from below its GVT, the request of an agent that waits
without an answer is in the queue of its ALP or on its way, or its response is, once; and at
rest every agent that waits can go on. -/
theorem no_agent_forgotten
    (hattached : Attached setup.numberOfClps setup.initialisor.alpToClpMap)
    (hreach : (machine setup).Reachable (Initial setup)
      (fun s e => Permitted setup s e ∧ InTime s e) s) {rank id : Nat} {a : AgentState}
    {request : SharedStateMessage} (hrank : rank ∈ setup.initialisor.alpToClpMap)
    (ha : (s.alp rank).agents[id]? = some a) (hwaiting : a.waiting = some request) :
    (onTheWay setup s rank).Nodup ∧
      (a.messageReady = false → .request request ∈ (s.alp rank).sendMessageQueue ∨
        request.ticket ∈ onTheWay setup s rank) ∧
      (AtRest setup s → (s.step setup (.alp rank (.consume id))).isSome) := by
  have h : InTouch setup True s :=
    inTouch_of_reachable hattached (fun _ _ h => h.1) (fun _ _ _ h => h.2) hreach
  obtain ⟨d, ignored, hd, hnone, hlinked⟩ := h.alps rank hrank
  have hbalance : onTheWay setup s rank = tickets d.unanswered := by
    have hsum := hlinked.balance
    rwa [hnone trivial, add_zero] at hsum
  rw [← hd] at ha
  have hawaited : a.messageReady = false →
      .request request ∈ (s.alp rank).sendMessageQueue ∨
        request.ticket ∈ onTheWay setup s rank := by
    intro hready
    rw [hbalance, ← hd]
    rcases (hlinked.attended id a ha).awaited request hwaiting hready with hmem | ⟨hmem, _⟩
    · exact .inl (Dialogue.mem_requestsOf.mp hmem)
    · exact .inr (Dialogue.mem_tickets.mpr ⟨request, hmem, rfl⟩)
  refine ⟨?_, hawaited, fun hrest => ?_⟩
  · have hdistinct := (List.pairwise_append.mp hlinked.invariant.numbered.distinct).2.1
    rw [hbalance]
    refine Multiset.coe_nodup.mpr (List.pairwise_map.mpr (hdistinct.imp fun hne heq => ?_))
    exact hne (congrArg Ticket.identifier heq)
  · have hready : a.messageReady = true := by
      by_contra hready
      rcases hawaited (by simpa using hready) with hmem | hmem
      · rw [hrest.queued] at hmem
        cases hmem
      · simp [onTheWay, Network.count, hrest.letters, hrest.received] at hmem
    obtain ⟨_, response, _, hresponse, _⟩ := (hlinked.invariant.engaged id a ha).ready hready
    have hticket := (hlinked.attended id a ha).fitting request response hwaiting hready hresponse
    have hexpects := expects_iff.mpr (congrArg Ticket.responseType hticket)
    rw [hd] at ha
    simp [step, stepAlp, hrank, received, dequeueMessage, Alp.step, Alp.consume, ha, hwaiting,
      hresponse, hready, hexpects]

/-- The simulation of `pair` with one agent. -/
def pairWithAgent : Simulation where
  network := Network.create Network.pair
  alp rank := .create rank 0 2 1 [1]
  receiveMessageQueue _ := []

theorem initial_pairWithAgent : Initial Network.pair pairWithAgent := by
  refine ⟨Network.initial_pair, fun rank _ => ⟨[1], ?_⟩, fun _ => rfl⟩
  have hsize : Network.pair.initialisor.alpToClpMap.size = 1 := by decide
  rw [hsize]
  rfl

/-- The agent writes, and its ALP sends the request. -/
def writing : List Event :=
  [.alp 2 (.issue 1 (.write 7 (.valueINT 9)) 5), .alp 2 .send]

/-- The write is processed and its response received. -/
def answering : List Event :=
  writing ++ [.network (.deliver 2 1), .network (.receive 1 fun _ => 0), .network (.send 1),
    .network (.deliver 1 0), .network (.receive 0 fun _ => 0), .network (.send 0),
    .network (.deliver 0 1), .network (.receive 1 fun _ => 0), .network (.send 1),
    .network (.deliver 1 2),
    .alp 2 (.receiveResponse ⟨1, 5, ⟨1, 2⟩, .writeResponse .writeSUCCESS⟩)]

theorem answer_fits_written : ∃ s outputs a,
    (machine Network.pair).run pairWithAgent answering = some (s, outputs) ∧
    (s.alp 2).agents[1]? = some a ∧
    ∃ request response, a.waiting = some request ∧ a.response = some response ∧
      response.identifier = request.identifier ∧
      response.originalAgent = request.originalAgent ∧
      request.kind.expects response.kind = true :=
  ⟨_, _, _, rfl, rfl, answer_fits Network.attached_pair (.run (.start initial_pairWithAgent)
    (show (machine Network.pair).Meets (Permitted Network.pair) pairWithAgent answering
      by decide) rfl) (show 2 ∈ Network.pair.initialisor.alpToClpMap by decide)
    (show (Simulation.alp _ 2).agents[1]? = some _ from rfl) rfl⟩

theorem no_agent_forgotten_writing : ∃ s outputs a request,
    (machine Network.pair).run pairWithAgent writing = some (s, outputs) ∧
    (s.alp 2).agents[1]? = some a ∧ a.waiting = some request ∧
    ((onTheWay Network.pair s 2).Nodup ∧
      (a.messageReady = false → .request request ∈ (s.alp 2).sendMessageQueue ∨
        request.ticket ∈ onTheWay Network.pair s 2) ∧
      (AtRest Network.pair s → (s.step Network.pair (.alp 2 (.consume 1))).isSome)) :=
  ⟨_, _, _, _, rfl, rfl, rfl, no_agent_forgotten Network.attached_pair
    (.run (.start initial_pairWithAgent)
      (show (machine Network.pair).Meets (fun s e => Permitted Network.pair s e ∧ InTime s e)
        pairWithAgent writing by decide) rfl)
    (show 2 ∈ Network.pair.initialisor.alpToClpMap by decide)
    (show (Simulation.alp _ 2).agents[1]? = some _ from rfl) rfl⟩

end Runs

end Simulation
end PdesMas
