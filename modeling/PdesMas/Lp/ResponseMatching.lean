import Mathlib.Logic.Function.Basic
import PdesMas.Lp.RollbackGuard

/-!
Which answers reach a restarted agent. Beside an ALP we record the request each
agent issued last since its restart and the requests whose response has not come
back. The identifier an agent accepts is set when its request leaves the queue;
a write that a rollback spares in the queue leaves it after the restart.
-/

namespace PdesMas

/-- What is recorded beside an ALP. -/
structure Dialogue where
  alp : Alp
  lastIssued : Nat → Option SharedStateMessage
  unanswered : List SharedStateMessage

def SharedStateMessage.answeredBy (m : ResponseMessage) (request : SharedStateMessage) : Bool :=
  request.identifier == m.identifier && request.originalAgent == m.originalAgent

theorem answeredBy_iff {m : ResponseMessage} {request : SharedStateMessage} :
    request.answeredBy m = true ↔
      request.identifier = m.identifier ∧ request.originalAgent = m.originalAgent := by
  simp [SharedStateMessage.answeredBy]

namespace Dialogue

open Alp

/-- How a step of the ALP changes the record. A response answers a request. -/
def record (s : Dialogue) : Event → Result →
    Option ((Nat → Option SharedStateMessage) × List SharedStateMessage)
  | .issue id kind timestamp, _ =>
      some (Function.update s.lastIssued id
        (some ⟨s.alp.messageIdHandler.getNextID.lastID, timestamp, s.alp.agentId id, kind⟩),
        s.unanswered)
  | .send, .sent (.request m) => some (s.lastIssued, s.unanswered ++ [m])
  | .receiveResponse m, _ =>
      if s.unanswered.any (·.answeredBy m) then
        some (s.lastIssued, s.unanswered.eraseP (·.answeredBy m))
      else none
  | .receiveRollback m, .processed true =>
      some (Function.update s.lastIssued m.originalAgent.identifier none, s.unanswered)
  | _, _ => some (s.lastIssued, s.unanswered)

def step (s : Dialogue) (e : Event) : Option (Dialogue × Result) :=
  match s.alp.step e with
  | none => none
  | some (alp', r) => (s.record e r).map fun p => (⟨alp', p.1, p.2⟩, r)

def machine : Machine Dialogue Event Result := ⟨step⟩

def Initial (s : Dialogue) : Prop :=
  s.alp.Initial ∧ (∀ id, s.lastIssued id = none) ∧ s.unanswered = []

/-- Identifiers are fresh, and rollbacks come to the ALP of their agent. -/
def Permitted (s : Dialogue) (e : Event) : Prop :=
  FreshIds s.alp e ∧
    match e with
    | .receiveRollback m => m.originalAgent.rank = s.alp.rank
    | _ => True

/-- No write of the agent stamped with the time of the rollback is still queued. -/
def NoUnsentWriteAt (alp : Alp) (m : RollbackMessage) : Prop :=
  ∀ q ∈ requestsOf alp.sendMessageQueue, q.originalAgent = m.originalAgent →
    q.timestamp = m.timestamp → q.kind.isQuery = true

/-- No executed rollback leaves a request of its agent in the queue. -/
def SparesNoUnsent (s : Dialogue) : Event → Prop
  | .receiveRollback m => Executes s.alp m → NoUnsentWriteAt s.alp m
  | _ => True

/-- A response an agent can take answers the request it issued last. -/
def Matched (s : Dialogue) : Prop :=
  ∀ (id : Nat) (a : AgentState), s.alp.agents[id]? = some a → a.messageReady = true →
    ∃ response request, a.response = some response ∧ s.lastIssued id = some request ∧
      response.identifier = request.identifier

/-- How an agent stands to its requests: those in the queue and those not answered. -/
structure Engaged (id : Nat) (a : AgentState) (last : Option SharedStateMessage)
    (queue unanswered : List SharedStateMessage) : Prop where
  waiting : ∀ q, a.waiting = some q → last = some q
  queued : ∀ q ∈ queue, q.originalAgent.identifier = id →
    a.waiting = some q ∧ a.messageReady = false
  settled : a.waiting = none ∨ a.messageReady = true →
    ∀ u ∈ unanswered, u.originalAgent.identifier = id → u.identifier ≠ a.responseMessageId
  expected : ∀ u ∈ unanswered, u.originalAgent.identifier = id →
    u.identifier = a.responseMessageId → last = some u
  ready : a.messageReady = true → a.waiting ≠ none ∧
    ∃ response request, a.response = some response ∧ last = some request ∧
      response.identifier = request.identifier

/-- The requests on their way carry different identifiers, all handed out already. -/
structure Numbered (handler : IdentifierHandler) (requests : List SharedStateMessage) :
    Prop where
  additional : 0 < handler.additional
  below : ∀ q ∈ requests, 0 < q.identifier ∧ q.identifier ≤ handler.lastID
  distinct : requests.Pairwise fun p q => p.identifier ≠ q.identifier

/-- The requests that have been issued and have not been answered. -/
def pending (s : Dialogue) : List SharedStateMessage :=
  requestsOf s.alp.sendMessageQueue ++ s.unanswered

structure Invariant (s : Dialogue) : Prop where
  consistent : AgentsConsistent s.alp.rank s.alp.agents
  numbered : Numbered s.alp.messageIdHandler s.pending
  engaged : ∀ (id : Nat) (a : AgentState), s.alp.agents[id]? = some a →
    Engaged id a (s.lastIssued id) (requestsOf s.alp.sendMessageQueue) s.unanswered

namespace Numbered

variable {handler : IdentifierHandler} {requests requests' : List SharedStateMessage}

theorem perm (h : Numbered handler requests) (hperm : requests'.Perm requests) :
    Numbered handler requests' := by
  refine ⟨h.additional, ?_, (hperm.pairwise_iff Ne.symm).mpr h.distinct⟩
  intro q hq
  exact h.below q (hperm.subset hq)

theorem sublist (h : Numbered handler requests) (hsub : requests'.Sublist requests) :
    Numbered handler requests' := by
  refine ⟨h.additional, ?_, h.distinct.sublist hsub⟩
  intro q hq
  exact h.below q (hsub.subset hq)

theorem issue (h : Numbered handler requests) (hfresh : ¬ handler.exhausted)
    {q : SharedStateMessage} (hq : q.identifier = handler.getNextID.lastID) :
    Numbered handler.getNextID (q :: requests) := by
  have hadd := h.additional
  rw [getNextID_of_fresh hfresh] at hq ⊢
  change q.identifier = handler.lastID + handler.additional at hq
  refine ⟨hadd, ?_, ?_⟩
  · intro p hp
    change 0 < p.identifier ∧ p.identifier ≤ handler.lastID + handler.additional
    cases List.mem_cons.mp hp with
    | inl hpq =>
        rw [hpq]
        omega
    | inr hp =>
        have hbelow := h.below p hp
        omega
  · apply List.pairwise_cons.mpr
    refine ⟨?_, h.distinct⟩
    intro p hp
    have hbelow := h.below p hp
    omega

/-- The answered request was the only one of its identifier. -/
theorem ne_of_mem_eraseP (h : Numbered handler requests) {m : ResponseMessage}
    (hany : requests.any (·.answeredBy m) = true) :
    ∀ u ∈ requests.eraseP (·.answeredBy m), u.identifier ≠ m.identifier := by
  have hdistinct := h.distinct
  clear h
  induction requests with
  | nil => simp at hany
  | cons q requests ih =>
      obtain ⟨hq, hrest⟩ := List.pairwise_cons.mp hdistinct
      intro u hu
      by_cases hanswer : q.answeredBy m = true
      · rw [List.eraseP_cons_of_pos hanswer] at hu
        rw [← (answeredBy_iff.mp hanswer).1]
        exact (hq u hu).symm
      · have hany' : requests.any (·.answeredBy m) = true := by
          simpa [hanswer] using hany
        rw [List.eraseP_cons_of_neg hanswer] at hu
        cases List.mem_cons.mp hu with
        | inr hu => exact ih hany' hrest u hu
        | inl hu =>
            obtain ⟨v, hv, hanswered⟩ := List.any_eq_true.mp hany'
            rw [hu, ← (answeredBy_iff.mp hanswered).1]
            exact hq v hv

end Numbered

namespace Engaged

variable {id : Nat} {a a' : AgentState} {last : Option SharedStateMessage}
variable {queue queue' unanswered unanswered' : List SharedStateMessage}

/-- Requests of other agents do not matter, and those of the agent may disappear. -/
theorem mono (h : Engaged id a last queue unanswered)
    (hqueue : ∀ q ∈ queue', q.originalAgent.identifier = id → q ∈ queue)
    (hunanswered : ∀ u ∈ unanswered', u.originalAgent.identifier = id → u ∈ unanswered) :
    Engaged id a last queue' unanswered' := by
  refine ⟨h.waiting, ?_, ?_, ?_, h.ready⟩
  · intro q hq hid
    exact h.queued q (hqueue q hq hid) hid
  · intro hidle u hu hid
    exact h.settled hidle u (hunanswered u hu hid) hid
  · intro u hu hid
    exact h.expected u (hunanswered u hu hid) hid

/-- Only what the agent waits for and expects matters. -/
theorem congr (h : Engaged id a last queue unanswered) (hwaiting : a'.waiting = a.waiting)
    (hresponse : a'.response = a.response)
    (hid : a'.responseMessageId = a.responseMessageId)
    (hready : a'.messageReady = a.messageReady) :
    Engaged id a' last queue unanswered := by
  obtain ⟨hw, hq, hs, he, hr⟩ := h
  refine ⟨?_, ?_, ?_, ?_, ?_⟩
  · rwa [hwaiting]
  · rwa [hwaiting, hready]
  · rwa [hwaiting, hready, hid]
  · rwa [hid]
  · rwa [hwaiting, hready, hresponse]

/-- An idle agent issues a request. -/
theorem issue (h : Engaged id a last queue unanswered) (hidle : a.waiting = none)
    (q : SharedStateMessage) :
    Engaged id { a with waiting := some q } (some q) (queue ++ [q]) unanswered := by
  have hready : a.messageReady = false := by
    by_contra hready
    exact (h.ready (by simpa using hready)).1 hidle
  have hsettled := h.settled (.inl hidle)
  refine ⟨?_, ?_, ?_, ?_, ?_⟩
  · exact fun p hp => hp
  · intro p hp hid
    cases List.mem_append.mp hp with
    | inl hp =>
        have hwaiting := (h.queued p hp hid).1
        rw [hidle] at hwaiting
        cases hwaiting
    | inr hp =>
        rw [List.mem_singleton.mp hp]
        exact ⟨rfl, hready⟩
  · intro _ u hu hid
    exact hsettled u hu hid
  · intro u hu hid hsame
    exact absurd hsame (hsettled u hu hid)
  · intro h
    change a.messageReady = true at h
    rw [hready] at h
    cases h

/-- The request the agent waits for leaves the queue. -/
theorem send {handler : IdentifierHandler} {m : SharedStateMessage}
    (h : Engaged m.originalAgent.identifier a last (m :: queue) unanswered)
    (hnumbered : Numbered handler (m :: queue ++ unanswered)) :
    Engaged m.originalAgent.identifier { a with responseMessageId := m.identifier } last queue
      (unanswered ++ [m]) := by
  obtain ⟨hwaiting, hready⟩ := h.queued m List.mem_cons_self rfl
  have hdistinct := (List.pairwise_append.mp hnumbered.distinct).2.2
  refine ⟨h.waiting, ?_, ?_, ?_, h.ready⟩
  · intro q hq hid
    exact h.queued q (List.mem_cons_of_mem m hq) hid
  · intro hidle
    change a.waiting = none ∨ a.messageReady = true at hidle
    simp [hwaiting, hready] at hidle
  · intro u hu hid hsame
    change u.identifier = m.identifier at hsame
    cases List.mem_append.mp hu with
    | inl hu => exact absurd hsame.symm (hdistinct m List.mem_cons_self u hu)
    | inr hu =>
        rw [List.mem_singleton.mp hu]
        exact h.waiting m hwaiting

/-- The agent stores the response it expects. -/
theorem store {handler : IdentifierHandler} {m : ResponseMessage}
    (h : Engaged m.originalAgent.identifier a last queue unanswered)
    (hnumbered : Numbered handler (queue ++ unanswered))
    (hid : a.responseMessageId = m.identifier)
    (hany : unanswered.any (·.answeredBy m) = true) :
    Engaged m.originalAgent.identifier { a with response := some m, messageReady := true } last
      queue (unanswered.eraseP (·.answeredBy m)) := by
  obtain ⟨u, hu, hanswered⟩ := List.any_eq_true.mp hany
  obtain ⟨hsame, hagent⟩ := answeredBy_iff.mp hanswered
  have hdistinct := (List.pairwise_append.mp hnumbered.distinct).2.2
  have hsame' : u.identifier = a.responseMessageId := by rw [hsame, hid]
  have hlast : last = some u := h.expected u hu (by rw [hagent]) hsame'
  have hnone : ∀ u' ∈ unanswered.eraseP (·.answeredBy m),
      u'.identifier ≠ a.responseMessageId := by
    rw [hid]
    exact (hnumbered.sublist (List.sublist_append_right _ _)).ne_of_mem_eraseP hany
  refine ⟨h.waiting, ?_, ?_, ?_, ?_⟩
  · intro q hq hidq
    have hwaiting := (h.queued q hq hidq).1
    have hlast' := h.waiting q hwaiting
    obtain rfl : u = q := Option.some.inj (hlast.symm.trans hlast')
    exact absurd rfl (hdistinct u hq u hu)
  · intro _ u' hu' _
    exact hnone u' hu'
  · intro u' hu' _ hsame
    exact absurd hsame (hnone u' hu')
  · intro _
    refine ⟨?_, m, u, rfl, hlast, hsame.symm⟩
    intro hidle
    exact h.settled (.inl hidle) u hu (by rw [hagent]) hsame'

/-- The agent takes its response. -/
theorem consume (h : Engaged id a last queue unanswered) (hready : a.messageReady = true) :
    Engaged id { a with messageReady := false, waiting := none } last queue unanswered := by
  have hsettled := h.settled (.inr hready)
  refine ⟨nofun, ?_, ?_, ?_, nofun⟩
  · intro q hq hid
    have hnot := (h.queued q hq hid).2
    rw [hready] at hnot
    cases hnot
  · exact fun _ => hsettled
  · intro u hu hid hsame
    exact absurd hsame (hsettled u hu hid)

/-- A restarted agent has nothing in the queue and expects nothing. -/
theorem restart (hwaiting : a.waiting = none) (hready : a.messageReady = false)
    (hid : a.responseMessageId = 0)
    (hqueue : ∀ q ∈ queue, q.originalAgent.identifier ≠ id)
    (hunanswered : ∀ u ∈ unanswered, 0 < u.identifier) :
    Engaged id a none queue unanswered := by
  have hnone : ∀ u ∈ unanswered, u.identifier ≠ a.responseMessageId := by
    intro u hu
    rw [hid]
    exact Nat.ne_of_gt (hunanswered u hu)
  refine ⟨?_, ?_, ?_, ?_, ?_⟩
  · intro q hq
    rw [hwaiting] at hq
    cases hq
  · intro q hq hid
    exact absurd hid (hqueue q hq)
  · intro _ u hu _
    exact hnone u hu
  · intro u hu _ hsame
    exact absurd hsame (hnone u hu)
  · intro h
    rw [hready] at h
    cases h

end Engaged

section Step

variable {s : Dialogue} {alp' : Alp} {last' : Nat → Option SharedStateMessage}
variable {unanswered' : List SharedStateMessage}

/-- One agent changes, and of the others' requests some may disappear. -/
private theorem engaged_insert {id : Nat} {a' : AgentState} {last : Option SharedStateMessage}
    {queue' : List SharedStateMessage} (hinv : Invariant s)
    (hagents : alp'.agents = s.alp.agents.insert id a')
    (hqueue' : requestsOf alp'.sendMessageQueue = queue') (hlast' : last' id = last)
    (hself : Engaged id a' last queue' unanswered')
    (hlast : ∀ k, k ≠ id → last' k = s.lastIssued k)
    (hqueue : ∀ k, k ≠ id → ∀ q ∈ queue', q.originalAgent.identifier = k →
      q ∈ requestsOf s.alp.sendMessageQueue)
    (hunanswered : ∀ k, k ≠ id → ∀ u ∈ unanswered',
      u.originalAgent.identifier = k → u ∈ s.unanswered) :
    ∀ (k : Nat) (b : AgentState), alp'.agents[k]? = some b →
      Engaged k b (last' k) (requestsOf alp'.sendMessageQueue) unanswered' := by
  subst hqueue' hlast'
  intro k b hb
  rw [hagents, getElem?_insert_agent] at hb
  split at hb
  · rename_i hk
    cases hb
    exact hk ▸ hself
  · rename_i hk
    have hne : k ≠ id := fun heq => hk heq.symm
    rw [hlast k hne]
    exact (hinv.engaged k b hb).mono (hqueue k hne) (hunanswered k hne)

/-- A request not behind the rollback goes, unless it is a write at its very time. -/
theorem rolledBack_of_le {agent : LpId} {time : Nat} {q : SharedStateMessage}
    (hagent : q.originalAgent = agent) (hle : time ≤ q.timestamp)
    (hat : q.timestamp = time → q.kind.isQuery = true) : q.rolledBack agent time = true := by
  obtain ⟨identifier, timestamp, original, kind⟩ := q
  change time ≤ timestamp at hle
  cases kind with
  | singleRead | rangeQuery => simpa [SharedStateMessage.rolledBack, hle] using hagent
  | write =>
      have hlt : time < timestamp := by
        apply Nat.lt_of_le_of_ne hle
        intro heq
        simpa [RequestKind.isQuery] using hat heq.symm
      simpa [SharedStateMessage.rolledBack, hlt] using hagent

/-- An executed rollback leaves no request of its agent in the queue. -/
private theorem not_mem_queue_of_rollback {a : AgentState} {m : RollbackMessage}
    (hinv : Invariant s) (ha : s.alp.agents[m.originalAgent.identifier]? = some a)
    (hlvt : m.timestamp ≤ a.lvt) (hrank : m.originalAgent.rank = s.alp.rank)
    (hspares : NoUnsentWriteAt s.alp m) :
    ∀ q ∈ requestsOf (removeMessages m.originalAgent m.timestamp s.alp.sendMessageQueue),
      q.originalAgent.identifier ≠ m.originalAgent.identifier := by
  intro q hq hid
  rw [requestsOf_removeMessages] at hq
  obtain ⟨hq, hkept⟩ := List.mem_filter.mp hq
  have hwaiting := ((hinv.engaged _ a ha).queued q hq hid).1
  obtain ⟨hfrom, hagent⟩ := (hinv.consistent _ a ha).waiting q hwaiting
  have hself : q.originalAgent = m.originalAgent := by
    rw [hagent, ← hrank]
  have hrolled := rolledBack_of_le hself (Nat.le_trans hlvt hfrom) (hspares q hq hself)
  simp [hrolled] at hkept

theorem invariant_step {e : Event} {r : Result} (h : Transition s.alp e alp' r)
    (hrecord : s.record e r = some (last', unanswered')) (hinv : Invariant s)
    (hpermitted : Permitted s e) (hspares : SparesNoUnsent s e) :
    Invariant ⟨alp', last', unanswered'⟩ := by
  have hconsistent := agentsConsistent_step h hinv.consistent
  have hnumbered := hinv.numbered
  simp only [pending] at hnumbered
  cases h with
  | @issue a id kind timestamp ha hidle hts =>
      cases hrecord
      have hqueue : requestsOf (s.alp.sendMessageQueue ++ [.request
          ⟨s.alp.messageIdHandler.getNextID.lastID, timestamp, s.alp.agentId id, kind⟩]) =
          requestsOf s.alp.sendMessageQueue ++
            [⟨s.alp.messageIdHandler.getNextID.lastID, timestamp, s.alp.agentId id, kind⟩] := by
        simp
      refine ⟨hconsistent, ?_, ?_⟩
      · have hnew := hnumbered.issue hpermitted.1 (q :=
          ⟨s.alp.messageIdHandler.getNextID.lastID, timestamp, s.alp.agentId id, kind⟩) rfl
        refine hnew.perm ?_
        simp [pending]
      · refine engaged_insert hinv rfl hqueue (Function.update_self _ _ _)
          ((hinv.engaged id a ha).issue hidle _) ?_ ?_ ?_
        · exact fun k hk => Function.update_of_ne hk _ _
        · intro k hk q hq hid
          cases List.mem_append.mp hq with
          | inl hq => exact hq
          | inr hq =>
              rw [List.mem_singleton.mp hq] at hid
              exact absurd hid.symm hk
        · exact fun _ _ u hu _ => hu
  | @timeWrap a id t ha hidle =>
      cases hrecord
      refine ⟨hconsistent, hnumbered, ?_⟩
      refine engaged_insert hinv rfl rfl rfl ?_ (fun _ _ => rfl) (fun _ _ _ hq _ => hq)
        (fun _ _ _ hu _ => hu)
      apply (hinv.engaged id a ha).congr <;> (simp only [AgentState.setLvt]; split <;> rfl)
  | @sendAnti m rest hqueue =>
      cases hrecord
      rw [hqueue, requestsOf_anti] at hnumbered
      refine ⟨hconsistent, hnumbered, ?_⟩
      intro k b hb
      have hengaged := hinv.engaged k b hb
      rwa [hqueue, requestsOf_anti] at hengaged
  | @sendRequest m rest a hqueue ha =>
      cases hrecord
      rw [hqueue, requestsOf_request] at hnumbered
      refine ⟨hconsistent, ?_, ?_⟩
      · refine hnumbered.perm ?_
        simp only [pending]
        rw [← List.append_assoc]
        exact List.perm_append_singleton m _
      · refine engaged_insert hinv rfl rfl rfl ?_ (fun _ _ => rfl) ?_ ?_
        · have hengaged := hinv.engaged _ a ha
          rw [hqueue, requestsOf_request] at hengaged
          exact hengaged.send hnumbered
        · intro k hk q hq hid
          rw [hqueue, requestsOf_request]
          exact List.mem_cons_of_mem m hq
        · intro k hk u hu hid
          cases List.mem_append.mp hu with
          | inl hu => exact hu
          | inr hu =>
              rw [List.mem_singleton.mp hu] at hid
              exact absurd hid.symm hk
  | @responseIgnored a m ha hid =>
      simp only [record] at hrecord
      split at hrecord
      · cases hrecord
        refine ⟨hconsistent, ?_, ?_⟩
        · exact hnumbered.sublist ((List.Sublist.refl _).append List.eraseP_sublist)
        · intro k b hb
          refine (hinv.engaged k b hb).mono (fun _ hq _ => hq) ?_
          exact fun u hu _ => List.eraseP_subset hu
      · cases hrecord
  | @responseStored a m ha hid =>
      simp only [record] at hrecord
      split at hrecord
      · rename_i hany
        cases hrecord
        refine ⟨hconsistent, ?_, ?_⟩
        · exact hnumbered.sublist ((List.Sublist.refl _).append List.eraseP_sublist)
        · refine engaged_insert hinv rfl rfl rfl ?_ (fun _ _ => rfl) (fun _ _ _ hq _ => hq) ?_
          · exact (hinv.engaged _ a ha).store hnumbered hid hany
          · exact fun _ _ u hu _ => List.eraseP_subset hu
      · cases hrecord
  | @consume a request response id ha hwaiting hresponse hready =>
      cases hrecord
      refine ⟨hconsistent, hnumbered, ?_⟩
      refine engaged_insert hinv rfl rfl rfl ?_ (fun _ _ => rfl) (fun _ _ _ hq _ => hq)
        (fun _ _ _ hu _ => hu)
      apply ((hinv.engaged id a ha).consume hready).congr <;>
        (simp only [AgentState.setLvt]; split <;> rfl)
  | rollbackDuplicate =>
      cases hrecord
      exact hinv
  | rollbackTooLate =>
      cases hrecord
      exact ⟨hconsistent, hnumbered, hinv.engaged⟩
  | @rollbackExecuted a a' m ha htag hlvt ha' =>
      cases hrecord
      have hgone := not_mem_queue_of_rollback hinv ha hlvt hpermitted.2
        (hspares ⟨htag, a, ha, hlvt⟩)
      have hqueue : requestsOf (removeMessages m.originalAgent m.timestamp
          s.alp.sendMessageQueue ++ antiMessages s.alp.gvt m.rollbackTag
            (rollbackSendList m.timestamp m.originalAgent s.alp.sendList).1) =
          requestsOf (removeMessages m.originalAgent m.timestamp s.alp.sendMessageQueue) := by
        simp
      have hsub : (requestsOf (removeMessages m.originalAgent m.timestamp
          s.alp.sendMessageQueue)).Sublist (requestsOf s.alp.sendMessageQueue) := by
        rw [requestsOf_removeMessages]
        exact List.filter_sublist
      refine ⟨hconsistent, ?_, ?_⟩
      · simp only [pending, hqueue]
        exact hnumbered.sublist (hsub.append (List.Sublist.refl _))
      · refine engaged_insert hinv rfl hqueue (Function.update_self _ _ _) ?_ ?_ ?_
          (fun _ _ _ hu _ => hu)
        · obtain ⟨_, _, hidle, _, hid⟩ := AgentState.rollbackTo_eq_some ha'
          refine .restart hidle (AgentState.messageReady_rollbackTo ha') hid hgone ?_
          exact fun u hu => (hnumbered.below u (List.mem_append_right _ hu)).1
        · exact fun k hk => Function.update_of_ne hk _ _
        · exact fun _ _ q hq _ => hsub.subset hq
  | setGvt =>
      cases hrecord
      exact ⟨hconsistent, hnumbered, hinv.engaged⟩

end Step

theorem transition_of_step {s s' : Dialogue} {e : Event} {r : Result}
    (h : s.step e = some (s', r)) :
    Transition s.alp e s'.alp r ∧ s.record e r = some (s'.lastIssued, s'.unanswered) := by
  simp only [step] at h
  split at h
  · cases h
  · rename_i alp' r' hs
    obtain ⟨p, hp, heq⟩ := Option.map_eq_some_iff.mp h
    cases heq
    exact ⟨Alp.transition_of_step hs, hp⟩

theorem invariant_initial {s : Dialogue} (h : s.Initial) : Invariant s := by
  obtain ⟨⟨rank, startTime, numberOfClps, numberOfAlps, agentIds, hpos, halp⟩, hlast, hnone⟩ := h
  obtain ⟨alp, lastIssued, unanswered⟩ := s
  change unanswered = [] at hnone
  change alp = _ at halp
  subst hnone halp
  refine ⟨agentsConsistent_create rank agentIds ∅ ?_, ⟨hpos, nofun, List.Pairwise.nil⟩, ?_⟩
  · intro id a ha
    simp at ha
  · intro id a ha
    rw [eq_initial_of_create ha, hlast id]
    exact .restart rfl rfl rfl nofun nofun

/-- In every run in which no executed rollback spares an unsent write of its agent, an
agent only finds the response to the request it issued last since its restart. -/
theorem matched_throughout {s : Dialogue} {es : List Event} (hinitial : s.Initial)
    (hpermitted : machine.Meets Permitted s es) (hspares : machine.Meets SparesNoUnsent s es) :
    machine.Throughout Matched s es := by
  refine machine.throughout_of_meets (fun s e => Permitted s e ∧ SparesNoUnsent s e)
    Invariant Matched ?_ ?_ es s (invariant_initial hinitial) (hpermitted.and hspares)
  · intro s hinv id a ha hready
    exact ((hinv.engaged id a ha).ready hready).2
  · intro s e s' r hinv hallowed hs
    obtain ⟨htransition, hrecord⟩ := transition_of_step hs
    exact invariant_step htransition hrecord hinv hallowed.1 hallowed.2

instance (s : Dialogue) : ∀ e, Decidable (Permitted s e)
  | .receiveRollback m => inferInstanceAs (Decidable (_ ∧ m.originalAgent.rank = s.alp.rank))
  | .issue .. | .timeWrap .. | .send | .receiveResponse _ | .consume _ | .setGvt _ =>
      inferInstanceAs (Decidable (_ ∧ True))

instance (alp : Alp) (m : RollbackMessage) : Decidable (NoUnsentWriteAt alp m) :=
  inferInstanceAs (Decidable (∀ q ∈ requestsOf alp.sendMessageQueue,
    q.originalAgent = m.originalAgent → q.timestamp = m.timestamp → q.kind.isQuery = true))

instance (s : Dialogue) : ∀ e, Decidable (SparesNoUnsent s e)
  | .receiveRollback m => inferInstanceAs (Decidable (Executes s.alp m → _))
  | .issue .. | .timeWrap .. | .send | .receiveResponse _ | .consume _ | .setGvt _ =>
      inferInstanceAs (Decidable True)

/-- The dialogue of an ALP of rank 3 with its only agent. -/
def lone : Dialogue := ⟨create 3 0 2 2 [1], fun _ => none, []⟩

theorem initial_lone : lone.Initial := ⟨⟨3, 0, 2, 2, [1], by decide, rfl⟩, fun _ => rfl, rfl⟩

theorem matched_throughout_lone :
    machine.Throughout Matched lone
      [.timeWrap 1 5, .issue 1 (.singleRead 7) 5, .receiveRollback ⟨5, ⟨1, 3⟩, ⟨7, 5, 0, 100⟩⟩,
        .issue 1 (.singleRead 7) 6, .send,
        .receiveResponse ⟨5, 6, ⟨1, 3⟩, .singleReadResponse (.valueINT 0)⟩] :=
  matched_throughout initial_lone (by decide) (by decide)

/-- A rollback to the time of a write that is still queued, and a read after it. -/
def staleWriteRun : List Event :=
  [.timeWrap 1 5, .issue 1 (.write 7 (.valueINT 1)) 5,
    .receiveRollback ⟨5, ⟨1, 3⟩, ⟨7, 5, 0, 100⟩⟩, .issue 1 (.singleRead 7) 6, .send,
    .receiveResponse ⟨3, 5, ⟨1, 3⟩, .writeResponse .writeSUCCESS⟩]

/-- The write is sent after the restart, and its response reaches the agent while it
waits for the read. -/
theorem stale_write_answered :
    ∃ s results, lone.Initial ∧ machine.Meets Permitted lone staleWriteRun ∧
      machine.run lone staleWriteRun = some (s, results) ∧
      ¬ Matched s := by
  refine ⟨_, _, initial_lone, by decide, rfl, ?_⟩
  intro hmatched
  obtain ⟨response, request, hresponse, hlast, hid⟩ := hmatched 1 _ rfl rfl
  cases hresponse
  cases hlast
  exact absurd hid (by decide)

end Dialogue
end PdesMas
