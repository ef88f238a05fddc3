import PdesMas.Lp.AgentHistory

/-!
Orphan requests: what a rollback leaves behind of an agent. A request is either
the one its agent waits for or lies behind an LVT of the agent's history, and a
rollback keeps only those behind the LVT it restores. The filters spare a write
stamped with the time of the rollback itself, which is the one way to break this.
-/

namespace PdesMas.Alp

def requestsOf (queue : List AlpMessage) : List SharedStateMessage :=
  queue.filterMap fun
    | .request m => some m
    | .anti _ => none

def antisOf (queue : List AlpMessage) : List AntiMessage :=
  queue.filterMap fun
    | .request _ => none
    | .anti m => some m

/-- The requests in the send queue and in the send list. -/
def outstanding (alp : Alp) : List SharedStateMessage :=
  requestsOf alp.sendMessageQueue ++ alp.sendList

/-- `ProcessRollback` gets past its guards. -/
def Executes (alp : Alp) (m : RollbackMessage) : Prop :=
  m.rollbackTag ∉ alp.rollbackTagList ∧
    ∃ a, alp.agents[m.originalAgent.identifier]? = some a ∧ m.timestamp ≤ a.lvt

/-- No write of the agent is stamped with the time of the rollback. -/
def NoWriteAt (alp : Alp) (m : RollbackMessage) : Prop :=
  ∀ r ∈ alp.outstanding, r.originalAgent = m.originalAgent → r.timestamp = m.timestamp →
    r.kind.isQuery = true

/-- Rollbacks come to the ALP of their agent, and meet no write at their time. -/
def SparesNoWrite (alp : Alp) : Event → Prop
  | .receiveRollback m =>
      m.originalAgent.rank = alp.rank ∧ (Executes alp m → NoWriteAt alp m)
  | _ => True

instance (alp : Alp) (m : RollbackMessage) : Decidable (Executes alp m) :=
  match ha : alp.agents[m.originalAgent.identifier]? with
  | none => isFalse (by simp [Executes, ha])
  | some a =>
      decidable_of_iff (m.rollbackTag ∉ alp.rollbackTagList ∧ m.timestamp ≤ a.lvt)
        (by simp [Executes, ha])

instance (alp : Alp) (m : RollbackMessage) : Decidable (NoWriteAt alp m) :=
  inferInstanceAs (Decidable (∀ r ∈ alp.outstanding, r.originalAgent = m.originalAgent →
    r.timestamp = m.timestamp → r.kind.isQuery = true))

instance (alp : Alp) : ∀ e, Decidable (SparesNoWrite alp e)
  | .receiveRollback m =>
      inferInstanceAs (Decidable (m.originalAgent.rank = alp.rank ∧
        (Executes alp m → NoWriteAt alp m)))
  | .issue .. | .timeWrap .. | .send | .receiveResponse _ | .consume _ | .setGvt _ =>
      inferInstanceAs (Decidable True)

/-- Every request is waited for, or behind an LVT of its agent. -/
def Covered (alp : Alp) : Prop :=
  ∀ m ∈ alp.outstanding, m.originalAgent.rank = alp.rank ∧
    ∀ a, alp.agents[m.originalAgent.identifier]? = some a →
      a.waiting = some m ∨ m.timestamp + 1 ∈ a.lvtHistory

@[simp] theorem requestsOf_append (q r : List AlpMessage) :
    requestsOf (q ++ r) = requestsOf q ++ requestsOf r := List.filterMap_append

@[simp] theorem requestsOf_nil : requestsOf [] = [] := rfl

@[simp] theorem requestsOf_request (m : SharedStateMessage) (q : List AlpMessage) :
    requestsOf (.request m :: q) = m :: requestsOf q := rfl

@[simp] theorem requestsOf_anti (m : AntiMessage) (q : List AlpMessage) :
    requestsOf (.anti m :: q) = requestsOf q := rfl

@[simp] theorem antisOf_append (q r : List AlpMessage) :
    antisOf (q ++ r) = antisOf q ++ antisOf r := List.filterMap_append

@[simp] theorem requestsOf_antiMessages (gvt : Nat) (tag : RollbackTag)
    (removed : List SharedStateMessage) : requestsOf (antiMessages gvt tag removed) = [] := by
  simp [requestsOf, antiMessages]

theorem requestsOf_removeMessages (agent : LpId) (time : Nat) (queue : List AlpMessage) :
    requestsOf (removeMessages agent time queue) =
      (requestsOf queue).filter fun m => ¬ m.rolledBack agent time := by
  induction queue with
  | nil => rfl
  | cons x queue ih =>
      cases x with
      | anti m => simpa [requestsOf, removeMessages] using ih
      | request m =>
          by_cases hm : m.rolledBack agent time = true
          · simpa [requestsOf, removeMessages, hm] using ih
          · simpa [requestsOf, removeMessages, hm] using ih

theorem antisOf_removeMessages (agent : LpId) (time : Nat) (queue : List AlpMessage) :
    antisOf (removeMessages agent time queue) = antisOf queue := by
  induction queue with
  | nil => rfl
  | cons x queue ih =>
      cases x with
      | anti m => simpa [antisOf, removeMessages] using ih
      | request m =>
          by_cases hm : m.rolledBack agent time = true
          · simpa [antisOf, removeMessages, hm] using ih
          · simpa [antisOf, removeMessages, hm] using ih

/-- What is left of the outstanding requests after an executed rollback. -/
theorem outstanding_executed {alp alp' : Alp} {m : RollbackMessage}
    (h : Transition alp (.receiveRollback m) alp' (.processed true)) :
    alp'.outstanding =
      alp.outstanding.filter fun r => ¬ r.rolledBack m.originalAgent m.timestamp := by
  cases h with
  | rollbackExecuted ha htag hlvt ha' =>
      simp [outstanding, requestsOf_removeMessages, rollbackSendList]

theorem rolledBack_eq_false {agent : LpId} {time : Nat} {r : SharedStateMessage}
    (h : r.rolledBack agent time = false) (hagent : r.originalAgent = agent) :
    r.timestamp < time ∨ r.kind.isQuery = false ∧ r.timestamp = time := by
  obtain ⟨id, t, origin, kind⟩ := r
  obtain rfl : origin = agent := hagent
  cases kind with
  | singleRead | rangeQuery =>
      left
      simpa [SharedStateMessage.rolledBack] using h
  | write =>
      have hle : t ≤ time := by simpa [SharedStateMessage.rolledBack] using h
      rcases Nat.lt_or_eq_of_le hle with hlt | heq
      · exact .inl hlt
      · exact .inr ⟨rfl, heq⟩

/-- `m` is waited for by `a`, or behind an LVT of its history. -/
def CoveredBy (a : AgentState) (m : SharedStateMessage) : Prop :=
  a.waiting = some m ∨ m.timestamp + 1 ∈ a.lvtHistory

private theorem covered_insert {alp alp' : Alp} {id : Nat} {a a' : AgentState}
    (hcov : Covered alp) (ha : alp.agents[id]? = some a) (hrank : alp'.rank = alp.rank)
    (hagents : alp'.agents = alp.agents.insert id a')
    (hsub : ∀ m ∈ alp'.outstanding, m ∈ alp.outstanding)
    (hkeep : ∀ m ∈ alp'.outstanding, m.originalAgent.identifier = id →
      CoveredBy a m → CoveredBy a' m) : Covered alp' := by
  intro m hm
  obtain ⟨hr, hc⟩ := hcov m (hsub m hm)
  refine ⟨hr.trans hrank.symm, fun b hb => ?_⟩
  rw [hagents, getElem?_insert_agent] at hb
  split at hb
  · rename_i hid
    cases hb
    exact hkeep m hm hid.symm (hc a (hid ▸ ha))
  · exact hc b hb

private theorem covered_of_subset {alp alp' : Alp} (hcov : Covered alp)
    (hrank : alp'.rank = alp.rank) (hagents : alp'.agents = alp.agents)
    (hsub : ∀ m ∈ alp'.outstanding, m ∈ alp.outstanding) : Covered alp' := by
  intro m hm
  obtain ⟨hr, hc⟩ := hcov m (hsub m hm)
  exact ⟨hr.trans hrank.symm, fun a ha => hc a (hagents ▸ ha)⟩

private theorem mem_dropFailed {r : SharedStateMessage} {m : ResponseMessage}
    {sendList : List SharedStateMessage} (h : r ∈ dropFailed m sendList) : r ∈ sendList := by
  simp only [dropFailed] at h
  split at h
  · exact List.mem_of_mem_eraseP h
  · exact h

private theorem coveredBy_setLvt {a : AgentState} {m : SharedStateMessage} (lvt : Nat)
    (h : CoveredBy a m) : CoveredBy (a.setLvt lvt) m := by
  simp only [AgentState.setLvt]
  split
  · exact h.imp_right fun h => by simp [h]
  · exact h

/-- The LVT an agent takes after an answer covers the request that was answered. -/
private theorem coveredBy_consumed {lpId : LpId} {a : AgentState}
    {request m : SharedStateMessage} (hc : a.Consistent lpId)
    (hwaiting : a.waiting = some request) (h : CoveredBy a m) :
    CoveredBy (AgentState.setLvt { a with messageReady := false, waiting := none }
      (request.timestamp + 1)) m := by
  have hle : a.lvt ≤ request.timestamp + 1 := Nat.le_succ_of_le (hc.waiting request hwaiting).1
  simp only [AgentState.setLvt, hle, ite_true]
  right
  rcases h with hw | hh
  · obtain rfl : m = request := Option.some.inj (hw.symm.trans hwaiting)
    simp
  · simp [hh]

/-- What a rollback leaves of an agent that it keeps is behind the LVT restored. -/
private theorem coveredBy_rollback {alp : Alp} {m : RollbackMessage} {a a' : AgentState}
    {r : SharedStateMessage} (hc : a.Consistent m.originalAgent)
    (hlvt : m.timestamp ≤ a.lvt) (ha' : a.rollbackTo m.timestamp = some a')
    (hnone : NoWriteAt alp m) (hr : r ∈ alp.outstanding)
    (hagent : r.originalAgent = m.originalAgent)
    (hkept : r.rolledBack m.originalAgent m.timestamp = false) (h : CoveredBy a r) :
    CoveredBy a' r := by
  have hlt : r.timestamp < m.timestamp := by
    rcases rolledBack_eq_false hkept hagent with hlt | ⟨hwrite, heq⟩
    · exact hlt
    · rw [hnone r hr hagent heq] at hwrite
      cases hwrite
  rcases h with hw | hh
  · have := (hc.waiting r hw).1
    omega
  · right
    rw [(AgentState.rollbackTo_eq_some ha').1]
    exact hc.mem_takeWhile hh hlt

theorem covered_step {alp alp' : Alp} {e : Event} {r : Result}
    (h : Transition alp e alp' r) (hc : AgentsConsistent alp.rank alp.agents)
    (hcov : Covered alp) (hspares : SparesNoWrite alp e) : Covered alp' := by
  cases h with
  | @issue a id kind timestamp ha hidle hts =>
      intro m hm
      have hsplit : m ∈ alp.outstanding ∨
          m = ⟨alp.messageIdHandler.getNextID.lastID, timestamp, alp.agentId id, kind⟩ := by
        simp only [outstanding, requestsOf_append, List.mem_append] at hm ⊢
        rcases hm with (hm | hm) | hm
        · exact .inl (.inl hm)
        · exact .inr (by simpa using hm)
        · exact .inl (.inr hm)
      rcases hsplit with hold | rfl
      · obtain ⟨hr, hcm⟩ := hcov m hold
        refine ⟨hr, fun b hb => ?_⟩
        change (alp.agents.insert id _)[m.originalAgent.identifier]? = some b at hb
        rw [getElem?_insert_agent] at hb
        split at hb
        · rename_i hid
          cases hb
          rcases hcm a (hid ▸ ha) with hw | hh
          · rw [hidle] at hw
            cases hw
          · exact .inr hh
        · exact hcm b hb
      · refine ⟨rfl, fun b hb => ?_⟩
        change (alp.agents.insert id _)[id]? = some b at hb
        rw [getElem?_insert_agent, if_pos rfl] at hb
        cases hb
        exact .inl rfl
  | @timeWrap a id t ha hidle =>
      exact covered_insert hcov ha rfl rfl (fun _ hm => hm)
        fun _ _ _ h => coveredBy_setLvt _ h
  | @sendAnti m rest hqueue =>
      refine covered_of_subset hcov rfl rfl fun r hr => ?_
      simpa [outstanding, hqueue] using hr
  | @sendRequest m rest a hqueue ha =>
      refine covered_insert hcov ha rfl rfl ?_ fun _ _ _ h => h
      intro r hr
      simp only [outstanding, List.mem_append, List.mem_singleton] at hr
      simp only [outstanding, hqueue, requestsOf_request, List.mem_append, List.mem_cons]
      rcases hr with hr | hr | rfl
      · exact .inl (.inr hr)
      · exact .inr hr
      · exact .inl (.inl rfl)
  | responseIgnored m ha hid =>
      refine covered_of_subset hcov rfl rfl fun r hr => ?_
      exact List.mem_append.mpr ((List.mem_append.mp hr).imp_right mem_dropFailed)
  | @responseStored a m ha hid =>
      refine covered_insert hcov ha rfl rfl ?_ fun _ _ _ h => h
      exact fun r hr => List.mem_append.mpr ((List.mem_append.mp hr).imp_right mem_dropFailed)
  | @consume a request response id ha hwaiting hresponse hready =>
      exact covered_insert hcov ha rfl rfl (fun _ hm => hm)
        fun _ _ _ h => coveredBy_consumed (hc id a ha) hwaiting h
  | rollbackDuplicate => exact hcov
  | rollbackTooLate => exact covered_of_subset hcov rfl rfl fun _ hm => hm
  | @rollbackExecuted a a' m ha htag hlvt ha' =>
      obtain ⟨hrank, hnone⟩ := hspares
      have hout := outstanding_executed (.rollbackExecuted m ha htag hlvt ha')
      have hagent : (⟨m.originalAgent.identifier, alp.rank⟩ : LpId) = m.originalAgent := by
        rw [← hrank]
      refine covered_insert hcov ha rfl rfl ?_ ?_
      · intro r hr
        rw [hout] at hr
        exact (List.mem_filter.mp hr).1
      · intro r hr hid hcr
        rw [hout] at hr
        obtain ⟨hmem, hkept⟩ := List.mem_filter.mp hr
        have hra : r.originalAgent = m.originalAgent := by
          rw [← hagent, ← hid, ← (hcov r hmem).1]
        exact coveredBy_rollback (hagent ▸ hc _ a ha) hlvt ha'
          (hnone ⟨htag, a, ha, hlvt⟩) hmem hra (by simpa using hkept) hcr
  | setGvt gvt =>
      refine covered_of_subset hcov rfl rfl fun r hr => ?_
      apply List.mem_append.mpr
      exact (List.mem_append.mp hr).imp_right fun h => (List.mem_filter.mp h).1

theorem invariant_of_reachable {alp : Alp}
    (h : machine.Reachable Initial SparesNoWrite alp) :
    AgentsConsistent alp.rank alp.agents ∧ Covered alp := by
  refine h.invariant (fun alp => AgentsConsistent alp.rank alp.agents ∧ Covered alp) ?_ ?_
  · intro alp hinit
    refine ⟨agentsConsistent_of_reachable (.start hinit : machine.Reachable Initial
      SparesNoWrite alp), ?_⟩
    obtain ⟨rank, startTime, numberOfClps, numberOfAlps, agentIds, _, rfl⟩ := hinit
    intro m hm
    cases hm
  · rintro alp e alp' r ⟨hc, hcov⟩ hspares hs
    have htrans := transition_of_step hs
    exact ⟨agentsConsistent_step htrans hc, covered_step htrans hc hcov hspares⟩

/-- The anti-messages queued are those of the requests that left the send list. -/
theorem antis_executed {alp alp' : Alp} {m : RollbackMessage} (hgvt : alp.gvt ≤ m.timestamp)
    (h : Transition alp (.receiveRollback m) alp' (.processed true)) :
    antisOf alp'.sendMessageQueue = antisOf alp.sendMessageQueue ++
      (alp.sendList.filter fun r => r ∉ alp'.sendList).map (·.anti m.rollbackTag) := by
  cases h with
  | rollbackExecuted ha htag hlvt ha' =>
      have hremoved : (alp.sendList.filter fun r =>
          r ∉ (rollbackSendList m.timestamp m.originalAgent alp.sendList).2) =
            (rollbackSendList m.timestamp m.originalAgent alp.sendList).1 := by
        refine List.filter_congr fun r hr => ?_
        simp [rollbackSendList, hr]
      have hall : ∀ r ∈ (rollbackSendList m.timestamp m.originalAgent alp.sendList).1,
          alp.gvt ≤ r.timestamp := by
        intro r hr
        have hrolled := (List.mem_filter.mp hr).2
        obtain ⟨id, t, agent, kind⟩ := r
        cases kind <;>
          simp [SharedStateMessage.rolledBack] at hrolled ⊢ <;> omega
      rw [antisOf_append, antisOf_removeMessages, hremoved]
      congr 1
      simp only [antiMessages, antisOf, List.filterMap_map, Function.comp_def]
      rw [List.filter_eq_self.mpr (by simpa using hall)]
      exact congrFun List.filterMap_eq_map _

/-- No request of the agent at or above its restored LVT is left, and exactly the
requests taken from the send list have an anti-message. -/
def LeavesNoOrphan (alp alp' : Alp) (m : RollbackMessage) : Prop :=
  (∃ a', alp'.agents[m.originalAgent.identifier]? = some a' ∧
    ∀ r ∈ alp'.outstanding, r.originalAgent = m.originalAgent → r.timestamp < a'.lvt) ∧
  antisOf alp'.sendMessageQueue = antisOf alp.sendMessageQueue ++
    (alp.sendList.filter fun r => r ∉ alp'.sendList).map (·.anti m.rollbackTag)

instance (alp alp' : Alp) (m : RollbackMessage) : Decidable (LeavesNoOrphan alp alp' m) :=
  match ha : alp'.agents[m.originalAgent.identifier]? with
  | none => isFalse (by simp [LeavesNoOrphan, ha])
  | some a =>
      decidable_of_iff
        ((∀ r ∈ alp'.outstanding, r.originalAgent = m.originalAgent → r.timestamp < a.lvt) ∧
          antisOf alp'.sendMessageQueue = antisOf alp.sendMessageQueue ++
            (alp.sendList.filter fun r => r ∉ alp'.sendList).map (·.anti m.rollbackTag))
        (by simp [LeavesNoOrphan, ha])

/-- An executed rollback leaves no orphan exactly if no write of the agent is
stamped with its time. -/
theorem leavesNoOrphan_iff (alp alp' : Alp) (m : RollbackMessage)
    (hreach : machine.Reachable Initial SparesNoWrite alp)
    (hrank : m.originalAgent.rank = alp.rank) (hgvt : alp.gvt ≤ m.timestamp)
    (hexec : alp.processRollback m = some (alp', true)) :
    LeavesNoOrphan alp alp' m ↔ NoWriteAt alp m := by
  have hstep : alp.step (.receiveRollback m) = some (alp', .processed true) := by
    simp [step, hexec]
  have htrans := transition_of_step hstep
  have hout := outstanding_executed htrans
  obtain ⟨hc, hcov⟩ := invariant_of_reachable hreach
  have hexecutes : ∃ a a', alp.agents[m.originalAgent.identifier]? = some a ∧
      a.rollbackTo m.timestamp = some a' ∧
      alp'.agents[m.originalAgent.identifier]? = some a' ∧ alp'.rank = alp.rank := by
    cases htrans with
    | @rollbackExecuted a a' _ ha htag hlvt ha' =>
        refine ⟨a, a', ha, ha', ?_, rfl⟩
        change (alp.agents.insert _ a')[m.originalAgent.identifier]? = some a'
        rw [getElem?_insert_agent, if_pos rfl]
  obtain ⟨a, a', ha, ha', hafter, hrank'⟩ := hexecutes
  have hself : (⟨m.originalAgent.identifier, alp.rank⟩ : LpId) = m.originalAgent := by
    rw [← hrank]
  have hconsistent : a'.Consistent m.originalAgent :=
    hself ▸ (hc _ a ha).rollbackTo ha'
  constructor
  · rintro ⟨⟨b, hb, hbelow⟩, _⟩ r hr hagent ht
    obtain rfl : a' = b := Option.some.inj (hafter.symm.trans hb)
    by_contra hwrite
    have hkept : r ∈ alp'.outstanding := by
      rw [hout]
      obtain ⟨id, t, agent, kind⟩ := r
      refine List.mem_filter.mpr ⟨hr, ?_⟩
      cases kind with
      | singleRead | rangeQuery => exact absurd rfl hwrite
      | write => simp [SharedStateMessage.rolledBack, show t = m.timestamp from ht]
    have hlvt : a'.lvt ≤ m.timestamp := by
      have hmem := List.mem_of_getLast? (AgentState.rollbackTo_eq_some ha').2.1
      rw [(AgentState.rollbackTo_eq_some ha').1] at hmem
      simpa using List.mem_takeWhile_imp hmem
    have := hbelow r hkept hagent
    omega
  · intro hnone
    refine ⟨⟨a', hafter, fun r hr hagent => ?_⟩, antis_executed hgvt htrans⟩
    have hspares : SparesNoWrite alp (.receiveRollback m) := ⟨hrank, fun _ => hnone⟩
    have hcov' := covered_step htrans hc hcov hspares
    rcases (hcov' r hr).2 a' (hagent ▸ hafter) with hw | hh
    · rw [(AgentState.rollbackTo_eq_some ha').2.2.1] at hw
      cases hw
    · exact hconsistent.le_lvt _ hh

theorem leavesNoOrphan_iff_read :
    ∃ alp alp' results,
      machine.run (create 3 0 2 2 [1]) [.timeWrap 1 4, .issue 1 (.singleRead 7) 6, .send] =
        some (alp, results) ∧
      alp.processRollback ⟨2, ⟨1, 3⟩, ⟨7, 2, 0, 100⟩⟩ = some (alp', true) ∧
      (LeavesNoOrphan alp alp' ⟨2, ⟨1, 3⟩, ⟨7, 2, 0, 100⟩⟩ ↔
        NoWriteAt alp ⟨2, ⟨1, 3⟩, ⟨7, 2, 0, 100⟩⟩) :=
  ⟨_, _, _, rfl, rfl, leavesNoOrphan_iff _ _ ⟨2, ⟨1, 3⟩, ⟨7, 2, 0, 100⟩⟩
    (Machine.Reachable.run (.start ⟨3, 0, 2, 2, [1], by decide, rfl⟩)
      (show machine.Meets SparesNoWrite (create 3 0 2 2 [1])
        [.timeWrap 1 4, .issue 1 (.singleRead 7) 6, .send] by decide) rfl) rfl
    (by decide) rfl⟩

/-- A rollback to the time of a write its agent waits for leaves the write behind. -/
theorem rollback_leaves_write :
    ∃ alp alp' results,
      machine.run (create 3 0 2 2 [1])
        [.timeWrap 1 5, .issue 1 (.write 7 (.valueINT 1)) 5, .send] = some (alp, results) ∧
      alp.gvt ≤ 5 ∧
      alp.processRollback ⟨5, ⟨1, 3⟩, ⟨7, 5, 0, 100⟩⟩ = some (alp', true) ∧
      ¬ LeavesNoOrphan alp alp' ⟨5, ⟨1, 3⟩, ⟨7, 5, 0, 100⟩⟩ :=
  ⟨_, _, _, rfl, by decide, rfl, by decide⟩

end PdesMas.Alp
