import PdesMas.Lp.ClpAnswers
import PdesMas.Lp.ResponseMatching

/-!
What an agent that waits can count on: its request is still in the queue of the
ALP or has not been answered, and the answer it finds is one to that request.
-/

namespace PdesMas
namespace Dialogue

open Alp

/-- The answer an agent waits for is still to come, or is the one it has. -/
structure Attended (a : AgentState) (queue unanswered : List SharedStateMessage) : Prop where
  awaited : ∀ q, a.waiting = some q → a.messageReady = false →
    q ∈ queue ∨ q ∈ unanswered ∧ a.responseMessageId = q.identifier
  fitting : ∀ q r, a.waiting = some q → a.messageReady = true → a.response = some r →
    r.ticket = q.ticket

def EveryAttended (s : Dialogue) : Prop :=
  ∀ (id : Nat) (a : AgentState), s.alp.agents[id]? = some a →
    Attended a (requestsOf s.alp.sendMessageQueue) s.unanswered

/-- The response is one to a request that has not been answered. -/
def Expected (unanswered : List SharedStateMessage) : Event → Prop
  | .receiveResponse m => ∃ u ∈ unanswered, u.ticket = m.ticket
  | .issue .. | .timeWrap .. | .send | .consume _ | .receiveRollback _ | .setGvt _ => True

theorem answeredBy_of_ticket {u : SharedStateMessage} {m : ResponseMessage}
    (h : u.ticket = m.ticket) : u.answeredBy m = true :=
  answeredBy_iff.mpr ⟨congrArg Ticket.identifier h, congrArg Ticket.originalAgent h⟩

namespace Attended

variable {a a' : AgentState} {queue queue' unanswered unanswered' : List SharedStateMessage}

/-- The request the agent waits for stays where it is, or goes from the queue to its CLP. -/
theorem mono (h : Attended a queue unanswered)
    (hqueue : ∀ q, a.waiting = some q → q ∈ queue → q ∈ queue')
    (hunanswered : ∀ q, a.waiting = some q → a.responseMessageId = q.identifier →
      q ∈ unanswered → q ∈ unanswered') :
    Attended a queue' unanswered' := by
  refine ⟨fun q hq hready => ?_, h.fitting⟩
  rcases h.awaited q hq hready with hmem | ⟨hmem, hid⟩
  · exact .inl (hqueue q hq hmem)
  · exact .inr ⟨hunanswered q hq hid hmem, hid⟩

theorem congr (h : Attended a queue unanswered) (hwaiting : a'.waiting = a.waiting)
    (hresponse : a'.response = a.response) (hid : a'.responseMessageId = a.responseMessageId)
    (hready : a'.messageReady = a.messageReady) : Attended a' queue unanswered := by
  obtain ⟨hawaited, hfitting⟩ := h
  refine ⟨?_, ?_⟩
  · rwa [hwaiting, hready, hid]
  · rwa [hwaiting, hready, hresponse]

theorem idle (h : a.waiting = none) : Attended a queue unanswered := by
  refine ⟨fun q hq => ?_, fun q r hq => ?_⟩
  · rw [h] at hq
    cases hq
  · rw [h] at hq
    cases hq

end Attended

section Step

variable {s : Dialogue} {alp' : Alp} {last' : Nat → Option SharedStateMessage}
variable {unanswered' : List SharedStateMessage}

/-- One agent changes, and the requests the others wait for stay where they are. -/
private theorem attended_insert {id : Nat} {a' : AgentState} {queue' : List SharedStateMessage}
    (hinv : Invariant s) (h : EveryAttended s)
    (hagents : alp'.agents = s.alp.agents.insert id a')
    (hqueue' : requestsOf alp'.sendMessageQueue = queue')
    (hself : Attended a' queue' unanswered')
    (hqueue : ∀ q ∈ requestsOf s.alp.sendMessageQueue, q.originalAgent.identifier ≠ id →
      q ∈ queue')
    (hunanswered : ∀ q ∈ s.unanswered, q.originalAgent.identifier ≠ id → q ∈ unanswered') :
    ∀ (k : Nat) (b : AgentState), alp'.agents[k]? = some b →
      Attended b (requestsOf alp'.sendMessageQueue) unanswered' := by
  subst hqueue'
  intro k b hb
  rw [hagents, getElem?_insert_agent] at hb
  split at hb
  · cases hb
    exact hself
  · rename_i hk
    have hother : ∀ q, b.waiting = some q → q.originalAgent.identifier ≠ id := by
      intro q hq
      rw [((hinv.consistent k b hb).waiting q hq).2]
      exact fun heq => hk heq.symm
    exact (h k b hb).mono (fun q hq hmem => hqueue q hmem (hother q hq))
      fun q hq _ hmem => hunanswered q hmem (hother q hq)

theorem everyAttended_step {e : Event} {r : Result} (h : Transition s.alp e alp' r)
    (hrecord : s.record e r = some (last', unanswered')) (hinv : Invariant s)
    (hexpected : Expected s.unanswered e) (hattended : EveryAttended s) :
    EveryAttended ⟨alp', last', unanswered'⟩ := by
  cases h with
  | @issue a id kind timestamp ha hidle hts =>
      cases hrecord
      have hready : a.messageReady = false := by
        by_contra hready
        exact ((hinv.engaged id a ha).ready (by simpa using hready)).1 hidle
      refine attended_insert hinv hattended rfl (requestsOf_append _ _) ⟨?_, ?_⟩
        (fun q hq _ => List.mem_append_left _ hq) fun _ hq _ => hq
      · rintro q ⟨⟩ _
        exact .inl (List.mem_append_right _ (by simp))
      · intro q r _ hr
        exact absurd hr (by simp [hready])
  | @timeWrap a id t ha hidle =>
      cases hrecord
      refine attended_insert hinv hattended rfl rfl (.idle ?_) (fun _ hq _ => hq) fun _ hq _ => hq
      simp only [AgentState.setLvt]
      split <;> exact hidle
  | @sendAnti m rest hqueue =>
      cases hrecord
      intro k b hb
      have hb' := hattended k b hb
      rwa [hqueue, requestsOf_anti] at hb'
  | @sendRequest m rest a hqueue ha =>
      cases hrecord
      have hmem : m ∈ requestsOf s.alp.sendMessageQueue := by simp [hqueue]
      obtain ⟨hwaiting, hready⟩ := (hinv.engaged _ a ha).queued m hmem rfl
      refine attended_insert hinv hattended rfl rfl ⟨?_, ?_⟩ (fun q hq hne => ?_)
        fun q hq _ => List.mem_append_left _ hq
      · intro q hq _
        obtain rfl := Option.some.inj (hwaiting.symm.trans hq)
        exact .inr ⟨by simp, rfl⟩
      · intro q r _ hr
        exact absurd hr (by simp [hready])
      · rw [hqueue, requestsOf_request] at hq
        rcases List.mem_cons.mp hq with rfl | hq
        · exact absurd rfl hne
        · exact hq
  | @responseIgnored a m ha hid =>
      simp only [record] at hrecord
      split at hrecord
      · cases hrecord
        intro k b hb
        refine (hattended k b hb).mono (fun _ _ hq => hq) fun q hq hself hmem => ?_
        refine (List.mem_eraseP_of_neg fun hanswered => ?_).mpr hmem
        obtain ⟨hsame, hagent⟩ := answeredBy_iff.mp hanswered
        have hk : q.originalAgent.identifier = k := by
          rw [((hinv.consistent k b hb).waiting q hq).2]
        rw [← hagent, hk] at ha
        obtain rfl := Option.some.inj (ha.symm.trans hb)
        exact hid (hself.trans hsame)
      · cases hrecord
  | @responseStored a m ha hid =>
      simp only [record] at hrecord
      split at hrecord
      · rename_i hany
        cases hrecord
        refine attended_insert hinv hattended rfl rfl ⟨by simp, ?_⟩ (fun _ hq _ => hq) ?_
        · rintro q _ hq _ ⟨⟩
          obtain ⟨u, hu, hticket⟩ := hexpected
          obtain ⟨hsame, hagent⟩ := answeredBy_iff.mp (answeredBy_of_ticket hticket)
          have hlast := (hinv.engaged _ a ha).expected u hu (by rw [hagent])
            (by rw [hsame, hid])
          have hwaits := (hinv.engaged _ a ha).waiting q hq
          obtain rfl := Option.some.inj (hlast.symm.trans hwaits)
          exact hticket.symm
        · intro q hq hne
          refine (List.mem_eraseP_of_neg fun hanswered => ?_).mpr hq
          exact hne (by rw [(answeredBy_iff.mp hanswered).2])
      · cases hrecord
  | @consume a request response id ha hwaiting hresponse hready =>
      cases hrecord
      refine attended_insert hinv hattended rfl rfl (.idle ?_) (fun _ hq _ => hq) fun _ hq _ => hq
      simp only [AgentState.setLvt]
      split <;> rfl
  | rollbackDuplicate | rollbackTooLate | setGvt =>
      cases hrecord
      exact hattended
  | @rollbackExecuted a a' m ha htag hlvt ha' =>
      cases hrecord
      have hqueue : requestsOf (removeMessages m.originalAgent m.timestamp
          s.alp.sendMessageQueue ++ antiMessages s.alp.gvt m.rollbackTag
            (rollbackSendList m.timestamp m.originalAgent s.alp.sendList).1) =
          requestsOf (removeMessages m.originalAgent m.timestamp s.alp.sendMessageQueue) := by
        simp
      refine attended_insert hinv hattended rfl hqueue
        (.idle (AgentState.rollbackTo_eq_some ha').2.2.1) (fun q hq hne => ?_) fun _ hq _ => hq
      rw [requestsOf_removeMessages]
      refine List.mem_filter.mpr ⟨hq, ?_⟩
      have hother : q.originalAgent ≠ m.originalAgent := fun heq => hne (by rw [heq])
      simp [SharedStateMessage.rolledBack, hother]

/-- The response that an event brings. -/
def received : Event → Multiset Ticket
  | .receiveResponse m => {m.ticket}
  | .issue .. | .timeWrap .. | .send | .consume _ | .receiveRollback _ | .setGvt _ => 0

/-- The request that leaves with a result. -/
def departed : Result → Multiset Ticket
  | .sent (.request m) => {m.ticket}
  | .sent (.anti _) | .done | .consumed .. | .processed _ => 0

def tickets (requests : List SharedStateMessage) : Multiset Ticket := requests.map (·.ticket)

@[simp] theorem mem_tickets {requests : List SharedStateMessage} {t : Ticket} :
    t ∈ tickets requests ↔ ∃ q ∈ requests, q.ticket = t := by
  simp [tickets]

/-- The request that is crossed off is the one the response answers. -/
theorem tickets_eraseP {handler : IdentifierHandler} {requests : List SharedStateMessage}
    {m : ResponseMessage} (h : Numbered handler requests)
    (hm : ∃ u ∈ requests, u.ticket = m.ticket) :
    tickets requests = tickets (requests.eraseP (·.answeredBy m)) + {m.ticket} := by
  obtain ⟨u, hu, hticket⟩ := hm
  have hanswered := answeredBy_of_ticket hticket
  obtain ⟨v, before, after, hbefore, hv, hsplit, herase⟩ :=
    List.exists_of_eraseP (p := (·.answeredBy m)) hu hanswered
  have hsame : u.identifier = v.identifier :=
    (answeredBy_iff.mp hanswered).1.trans (answeredBy_iff.mp hv).1.symm
  have hmem : u ∈ before ++ v :: after := hsplit ▸ hu
  have huv : u = v := by
    by_contra hne
    have hdistinct := hsplit ▸ h.distinct
    rcases List.mem_append.mp hmem with hmem | hmem
    · exact hbefore u hmem hanswered
    · rcases List.mem_cons.mp hmem with rfl | hmem
      · exact hne rfl
      · have hafter := (List.pairwise_cons.mp (List.pairwise_append.mp hdistinct).2.1).1
        exact hafter u hmem hsame.symm
  rw [herase, hsplit, ← huv, tickets, tickets, ← hticket]
  simp only [List.map_append, List.map_cons, ← Multiset.coe_add]
  rw [← Multiset.cons_coe, ← Multiset.singleton_add, Multiset.add_assoc,
    Multiset.add_comm {u.ticket}]

/-- The requests not answered yet change with what leaves and what comes back. -/
theorem exists_record {e : Event} {r : Result} (h : Transition s.alp e alp' r)
    (hinv : Invariant s) (hexpected : Expected s.unanswered e) :
    ∃ last' unanswered', s.record e r = some (last', unanswered') ∧
      tickets unanswered' + received e = tickets s.unanswered + departed r := by
  cases h with
  | issue | timeWrap | sendAnti | consume | rollbackDuplicate | rollbackTooLate
  | rollbackExecuted | setGvt => exact ⟨_, _, rfl, rfl⟩
  | sendRequest =>
      refine ⟨_, _, rfl, ?_⟩
      simp [tickets, received, departed, ← Multiset.coe_add]
  | responseIgnored m | responseStored m =>
      obtain ⟨u, hu, hticket⟩ := hexpected
      have hany : s.unanswered.any (·.answeredBy m) = true :=
        List.any_eq_true.mpr ⟨u, hu, answeredBy_of_ticket hticket⟩
      have hnumbered := hinv.numbered.sublist (List.sublist_append_right _ _)
      refine ⟨s.lastIssued, _, if_pos hany, ?_⟩
      exact (tickets_eraseP hnumbered ⟨u, hu, hticket⟩).symm.trans (Multiset.add_zero _).symm

end Step

theorem rank_of_transition {alp alp' : Alp} {e : Event} {r : Result}
    (h : Transition alp e alp' r) : alp'.rank = alp.rank := by
  cases h <;> rfl

theorem mem_requestsOf {q : SharedStateMessage} {queue : List AlpMessage} :
    q ∈ requestsOf queue ↔ .request q ∈ queue := by
  induction queue with
  | nil => simp
  | cons m queue ih => cases m <;> simp [ih]

/-- The requests in the queue come from the agents of the ALP. -/
theorem requests_of_transition {alp alp' : Alp} {e : Event} {r : Result}
    (h : Transition alp e alp' r) : ∀ q ∈ requestsOf alp'.sendMessageQueue,
      q ∈ requestsOf alp.sendMessageQueue ∨
        ∃ id kind timestamp, e = .issue id kind timestamp ∧
          q.originalAgent = alp.agentId id ∧ q.kind = kind := by
  intro q hq
  cases h with
  | issue id kind timestamp =>
      rw [requestsOf_append] at hq
      rcases List.mem_append.mp hq with hq | hq
      · exact .inl hq
      · obtain rfl := List.mem_singleton.mp hq
        exact .inr ⟨id, kind, timestamp, rfl, rfl, rfl⟩
  | sendAnti hqueue =>
      rw [hqueue]
      exact .inl hq
  | sendRequest hqueue =>
      rw [hqueue]
      exact .inl (List.mem_cons_of_mem _ hq)
  | rollbackExecuted m =>
      simp only [requestsOf_append, requestsOf_antiMessages, List.append_nil,
        requestsOf_removeMessages] at hq
      exact .inl (List.mem_of_mem_filter hq)
  | timeWrap | responseIgnored | responseStored | consume | rollbackDuplicate
  | rollbackTooLate | setGvt => exact .inl hq

/-- What an ALP sends was at the head of its queue. -/
theorem sent_of_transition {alp alp' : Alp} {e : Event} {m : AlpMessage}
    (h : Transition alp e alp' (.sent m)) : ∀ q, m = .request q →
      q ∈ requestsOf alp.sendMessageQueue := by
  rintro q rfl
  cases h with
  | sendRequest hqueue => simp [hqueue]

end Dialogue
end PdesMas
