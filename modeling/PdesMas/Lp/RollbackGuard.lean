import PdesMas.Lp.OrphanRequest

/-!
The guard of `ProcessRollback` that compares the message with the agent's LVT.
The LVT lags behind a request whose answer is on its way, so a rollback between
the two is dropped; one that passes the guard cancels the request for good,
because nothing the agent does later carries its identifier again.
-/

namespace PdesMas.Alp

/-- The identifiers of the ALP have not ticked over. -/
def FreshIds (alp : Alp) : Event → Prop
  | .issue .. => ¬ alp.messageIdHandler.exhausted
  | _ => True

instance (alp : Alp) : ∀ e, Decidable (FreshIds alp e)
  | .issue .. => inferInstanceAs (Decidable (¬ alp.messageIdHandler.exhausted))
  | .timeWrap .. | .send | .receiveResponse _ | .consume _ | .receiveRollback _ | .setGvt _ =>
      inferInstanceAs (Decidable True)

/-- The outstanding requests carry different identifiers, all handed out already. -/
structure IdsUsed (alp : Alp) : Prop where
  additional : 0 < alp.messageIdHandler.additional
  below : ∀ m ∈ alp.outstanding,
    0 < m.identifier ∧ m.identifier ≤ alp.messageIdHandler.lastID
  nodup : (alp.outstanding.map (·.identifier)).Nodup

theorem getNextID_of_fresh {h : IdentifierHandler} (hfresh : ¬ h.exhausted) :
    h.getNextID = { h with lastID := h.lastID + h.additional } := by
  simp [IdentifierHandler.getNextID, hfresh]

/-- Identifiers stay in use while requests only move or disappear. -/
private theorem IdsUsed.of_sublist {alp alp' : Alp} (h : IdsUsed alp)
    (hhandler : alp'.messageIdHandler = alp.messageIdHandler)
    (hsub : alp'.outstanding.Sublist alp.outstanding) : IdsUsed alp' := by
  refine ⟨hhandler ▸ h.additional, fun m hm => ?_, h.nodup.sublist (hsub.map _)⟩
  rw [hhandler]
  exact h.below m (hsub.subset hm)

private theorem eraseP_sublist_outstanding (queue : List AlpMessage) (m : ResponseMessage)
    (sendList : List SharedStateMessage) :
    (requestsOf queue ++ dropFailed m sendList).Sublist (requestsOf queue ++ sendList) := by
  refine (List.Sublist.refl _).append ?_
  simp only [dropFailed]
  split
  · exact List.eraseP_sublist
  · exact List.Sublist.refl _

theorem idsUsed_step {alp alp' : Alp} {e : Event} {r : Result}
    (h : Transition alp e alp' r) (hids : IdsUsed alp) (hfresh : FreshIds alp e) :
    IdsUsed alp' := by
  cases h with
  | @issue a id kind timestamp ha hidle hts =>
      let q : SharedStateMessage :=
        ⟨alp.messageIdHandler.getNextID.lastID, timestamp, alp.agentId id, kind⟩
      have hnext := getNextID_of_fresh hfresh
      have hq : q.identifier = alp.messageIdHandler.lastID + alp.messageIdHandler.additional := by
        simp only [q, hnext]
      have hadd := hids.additional
      have hperm : (requestsOf (alp.sendMessageQueue ++ [.request q]) ++ alp.sendList).Perm
          (q :: alp.outstanding) := by
        simp [outstanding]
      refine ⟨by simpa [hnext] using hadd, ?_, ?_⟩
      · intro m hm
        have hlast : alp.messageIdHandler.getNextID.lastID = q.identifier := rfl
        change 0 < m.identifier ∧ m.identifier ≤ alp.messageIdHandler.getNextID.lastID
        rw [hlast, hq]
        rcases List.mem_cons.mp (hperm.subset hm) with rfl | hm
        · omega
        · have := hids.below m hm
          omega
      · refine (hperm.map _).nodup_iff.mpr (List.nodup_cons.mpr ⟨?_, hids.nodup⟩)
        intro hmem
        obtain ⟨m, hm, hmq⟩ := List.mem_map.mp hmem
        have hsame : m.identifier = q.identifier := hmq
        have hle := (hids.below m hm).2
        omega
  | timeWrap | consume => exact hids.of_sublist rfl (List.Sublist.refl _)
  | @sendAnti m rest hqueue =>
      refine hids.of_sublist rfl ?_
      simp [outstanding, hqueue]
  | @sendRequest m rest a hqueue ha =>
      have hperm : (requestsOf rest ++ (alp.sendList ++ [m])).Perm alp.outstanding := by
        rw [← List.append_assoc, outstanding, hqueue, requestsOf_request]
        exact List.perm_append_singleton m _
      refine ⟨hids.additional, fun r hr => hids.below r (hperm.subset hr), ?_⟩
      exact (hperm.map _).nodup_iff.mpr hids.nodup
  | responseIgnored m | responseStored m =>
      exact hids.of_sublist rfl (eraseP_sublist_outstanding _ m _)
  | rollbackDuplicate => exact hids
  | rollbackTooLate => exact hids.of_sublist rfl (List.Sublist.refl _)
  | rollbackExecuted m ha htag hlvt ha' =>
      refine hids.of_sublist rfl ?_
      rw [outstanding_executed (.rollbackExecuted m ha htag hlvt ha')]
      exact List.filter_sublist
  | setGvt gvt => exact hids.of_sublist rfl ((List.Sublist.refl _).append List.filter_sublist)

/-- No later answer to `agentId` can carry the identifier. -/
structure Forgotten (agentId identifier : Nat) (alp : Alp) : Prop where
  additional : 0 < alp.messageIdHandler.additional
  used : identifier ≤ alp.messageIdHandler.lastID
  queue : ∀ m ∈ requestsOf alp.sendMessageQueue, m.identifier ≠ identifier
  agent : ∀ a, alp.agents[agentId]? = some a →
    a.responseMessageId ≠ identifier ∧ ∀ m, a.response = some m → m.identifier ≠ identifier

/-- The agents keep what concerns the identifier, and no request with it is queued. -/
private theorem Forgotten.update {agentId identifier id : Nat} {alp alp' : Alp}
    {a a' : AgentState} (h : Forgotten agentId identifier alp)
    (hhandler : alp'.messageIdHandler = alp.messageIdHandler)
    (ha : alp.agents[id]? = some a) (hagents : alp'.agents = alp.agents.insert id a')
    (hqueue : ∀ m ∈ requestsOf alp'.sendMessageQueue, m ∈ requestsOf alp.sendMessageQueue)
    (hkeep : a.responseMessageId ≠ identifier →
      (∀ m, a.response = some m → m.identifier ≠ identifier) →
      a'.responseMessageId ≠ identifier ∧
        ∀ m, a'.response = some m → m.identifier ≠ identifier) :
    Forgotten agentId identifier alp' := by
  refine ⟨hhandler ▸ h.additional, hhandler ▸ h.used, fun m hm => h.queue m (hqueue m hm), ?_⟩
  intro b hb
  rw [hagents, getElem?_insert_agent] at hb
  split at hb
  · rename_i hid
    cases hb
    obtain ⟨h₁, h₂⟩ := h.agent a (hid ▸ ha)
    exact hkeep h₁ h₂
  · exact h.agent b hb

theorem forgotten_step {agentId identifier : Nat} {alp alp' : Alp} {e : Event} {r : Result}
    (h : Transition alp e alp' r) (hpos : 0 < identifier) (hfresh : FreshIds alp e)
    (hf : Forgotten agentId identifier alp) : Forgotten agentId identifier alp' := by
  cases h with
  | @issue a id kind timestamp ha hidle hts =>
      have hnext := getNextID_of_fresh hfresh
      have hadd := hf.additional
      have hused := hf.used
      refine ⟨by simpa [hnext] using hadd, ?_, ?_, ?_⟩
      · simp only [hnext]
        omega
      · intro m hm
        simp only [requestsOf_append, List.mem_append] at hm
        rcases hm with hm | hm
        · exact hf.queue m hm
        · obtain rfl : m = _ := by simpa using hm
          simp only [hnext]
          omega
      · intro b hb
        change (alp.agents.insert id _)[agentId]? = some b at hb
        rw [getElem?_insert_agent] at hb
        split at hb
        · rename_i hid
          cases hb
          exact hf.agent a (hid ▸ ha)
        · exact hf.agent b hb
  | @timeWrap a id t ha hidle =>
      refine hf.update rfl ha rfl (fun _ hm => hm) fun h₁ h₂ => ?_
      simp only [AgentState.setLvt]
      split <;> exact ⟨h₁, h₂⟩
  | @sendAnti m rest hqueue =>
      refine ⟨hf.additional, hf.used, fun r hr => hf.queue r ?_, hf.agent⟩
      simpa [hqueue] using hr
  | @sendRequest m rest a hqueue ha =>
      refine hf.update rfl ha rfl (fun r hr => by simp [hqueue, show r ∈ requestsOf rest from hr])
        fun _ h₂ => ⟨?_, h₂⟩
      exact hf.queue m (by simp [hqueue])
  | responseIgnored => exact ⟨hf.additional, hf.used, hf.queue, hf.agent⟩
  | @responseStored a m ha hid =>
      refine hf.update rfl ha rfl (fun _ hm => hm) fun h₁ _ => ⟨h₁, fun n hn => ?_⟩
      cases hn
      exact hid ▸ h₁
  | @consume a request response id ha hwaiting hresponse hready =>
      refine hf.update rfl ha rfl (fun _ hm => hm) fun h₁ h₂ => ?_
      simp only [AgentState.setLvt]
      split <;> exact ⟨h₁, h₂⟩
  | rollbackDuplicate => exact hf
  | rollbackTooLate => exact ⟨hf.additional, hf.used, hf.queue, hf.agent⟩
  | @rollbackExecuted a a' m ha htag hlvt ha' =>
      obtain ⟨_, _, _, hresponse, hid⟩ := AgentState.rollbackTo_eq_some ha'
      refine hf.update rfl ha rfl ?_ fun _ _ => ⟨by omega, fun n hn => ?_⟩
      · intro r hr
        simp only [requestsOf_append, requestsOf_removeMessages, requestsOf_antiMessages,
          List.append_nil, List.mem_filter] at hr
        exact hr.1
      · rw [hresponse] at hn
        cases hn
  | setGvt => exact ⟨hf.additional, hf.used, hf.queue, hf.agent⟩

theorem invariant_of_fresh {alp : Alp} (h : machine.Reachable Initial FreshIds alp) :
    AgentsConsistent alp.rank alp.agents ∧ IdsUsed alp := by
  refine ⟨agentsConsistent_of_reachable h, h.invariant IdsUsed ?_ ?_⟩
  · rintro _ ⟨rank, startTime, numberOfClps, numberOfAlps, agentIds, hpos, rfl⟩
    exact ⟨hpos, nofun, List.nodup_nil⟩
  · exact fun alp e alp' r hids hfresh hs => idsUsed_step (transition_of_step hs) hids hfresh

/-- The request has left the send list, and its anti-message is queued unless GVT
has passed the request. -/
def Cancelled (alp' : Alp) (tag : RollbackTag) (q : SharedStateMessage) : Prop :=
  q ∉ alp'.sendList ∧
    (alp'.gvt ≤ q.timestamp → .anti (q.anti tag) ∈ alp'.sendMessageQueue)

instance (alp' : Alp) (tag : RollbackTag) (q : SharedStateMessage) :
    Decidable (Cancelled alp' tag q) :=
  inferInstanceAs (Decidable (_ ∧ _))

/-- In no run from here does the agent take an answer with the identifier. -/
def NeverConsumed (alp : Alp) (agent : LpId) (identifier : Nat) : Prop :=
  ∀ es alp' results, machine.Meets FreshIds alp es → machine.run alp es = some (alp', results) →
    ∀ request response, .consumed request response ∈ results →
      request.originalAgent = agent → response.identifier ≠ identifier

theorem neverConsumed_of_forgotten {alp : Alp} {agent : LpId} {identifier : Nat}
    (hc : AgentsConsistent alp.rank alp.agents) (hpos : 0 < identifier)
    (hf : Forgotten agent.identifier identifier alp) : NeverConsumed alp agent identifier := by
  intro es
  induction es generalizing alp with
  | nil =>
      intro alp' results _ hrun request response hmem
      obtain ⟨_, rfl⟩ : alp = alp' ∧ [] = results := by simpa using hrun
      cases hmem
  | cons e es ih =>
      intro alp' results hmeets hrun request response hmem hagent
      obtain ⟨alp₁, r, rs, hs, hrun', rfl⟩ := machine.run_cons_iff.mp hrun
      obtain ⟨hfresh, hmeets'⟩ := (machine.meets_cons FreshIds hs).mp hmeets
      have htrans := transition_of_step hs
      rcases List.mem_cons.mp hmem with hhead | htail
      · subst hhead
        cases htrans with
        | @consume a _ _ id ha hwaiting hresponse hready =>
            obtain rfl : ⟨id, alp.rank⟩ = agent :=
              ((hc id a ha).waiting request hwaiting).2.symm.trans hagent
            exact (hf.agent a ha).2 response hresponse
      · exact ih (agentsConsistent_step htrans hc) (forgotten_step htrans hpos hfresh hf)
          alp' rs hmeets' hrun' request response htail hagent

/-- An executed rollback forgets the query it takes from the send list. -/
private theorem forgotten_executed {alp alp' : Alp} {m : RollbackMessage}
    {q : SharedStateMessage} (h : Transition alp (.receiveRollback m) alp' (.processed true))
    (hids : IdsUsed alp) (hq : q ∈ alp.sendList) :
    Forgotten m.originalAgent.identifier q.identifier alp' := by
  have hpos := (hids.below q (List.mem_append_right _ hq)).1
  cases h with
  | @rollbackExecuted a a' _ ha htag hlvt ha' =>
      refine ⟨hids.additional, (hids.below q (List.mem_append_right _ hq)).2, ?_, ?_⟩
      · intro r hr hsame
        simp only [requestsOf_append, requestsOf_removeMessages, requestsOf_antiMessages,
          List.append_nil, List.mem_filter] at hr
        have hnodup := hids.nodup
        rw [outstanding, List.map_append, List.nodup_append] at hnodup
        exact hnodup.2.2 r.identifier (List.mem_map_of_mem hr.1) q.identifier
          (List.mem_map_of_mem hq) hsame
      · intro b hb
        change (alp.agents.insert _ a')[m.originalAgent.identifier]? = some b at hb
        rw [getElem?_insert_agent, if_pos rfl] at hb
        cases hb
        obtain ⟨_, _, _, hresponse, hid⟩ := AgentState.rollbackTo_eq_some ha'
        refine ⟨by omega, fun n hn => ?_⟩
        rw [hresponse] at hn
        cases hn

private theorem rolledBack_of_isQuery {q : SharedStateMessage} {agent : LpId} {time : Nat}
    (hquery : q.kind.isQuery = true) (hagent : q.originalAgent = agent)
    (htime : time ≤ q.timestamp) : q.rolledBack agent time = true := by
  obtain ⟨id, t, origin, kind⟩ := q
  cases kind with
  | singleRead | rangeQuery => simpa [SharedStateMessage.rolledBack] using ⟨hagent, htime⟩
  | write => cases hquery

private theorem cancelled_executed {alp alp' : Alp} {m : RollbackMessage}
    {q : SharedStateMessage} (h : Transition alp (.receiveRollback m) alp' (.processed true))
    (hq : q ∈ alp.sendList) (hrolled : q.rolledBack m.originalAgent m.timestamp = true) :
    Cancelled alp' m.rollbackTag q := by
  cases h with
  | rollbackExecuted ha htag hlvt ha' =>
      refine ⟨by simp [rollbackSendList, hrolled], fun hgvt => ?_⟩
      refine List.mem_append_right _ (List.mem_map.mpr ⟨q, List.mem_filter.mpr ⟨?_, ?_⟩, rfl⟩)
      · exact List.mem_filter.mpr ⟨hq, hrolled⟩
      · have hkept : alp.gvt ≤ q.timestamp := hgvt
        simpa using hkept

/-- A rollback cancels the read or range query its agent waits for, and its answer
is never taken, exactly if the LVT of the agent is not behind the rollback. -/
theorem query_cancelled_iff (alp : Alp) (m : RollbackMessage) (a : AgentState)
    (q : SharedStateMessage) (hreach : machine.Reachable Initial FreshIds alp)
    (hrank : m.originalAgent.rank = alp.rank)
    (ha : alp.agents[m.originalAgent.identifier]? = some a)
    (hwaiting : a.waiting = some q) (hsent : q ∈ alp.sendList)
    (hquery : q.kind.isQuery = true) (htime : m.timestamp ≤ q.timestamp)
    (htag : m.rollbackTag ∉ alp.rollbackTagList) :
    (∃ alp' executed, alp.processRollback m = some (alp', executed) ∧
      Cancelled alp' m.rollbackTag q ∧ NeverConsumed alp' m.originalAgent q.identifier) ↔
      m.timestamp ≤ a.lvt := by
  obtain ⟨hc, hids⟩ := invariant_of_fresh hreach
  have hagent : q.originalAgent = m.originalAgent := by
    rw [((hc _ a ha).waiting q hwaiting).2, ← hrank]
  constructor
  · rintro ⟨alp', executed, hprocess, ⟨hgone, _⟩, _⟩
    by_contra hbehind
    have hignored : alp.processRollback m =
        some ({ alp with rollbackTagList := alp.rollbackTagList ++ [m.rollbackTag] }, false) := by
      simp [processRollback, ha, checkRollbackTagList, htag, Nat.lt_of_not_le hbehind]
    rw [hignored] at hprocess
    cases hprocess
    exact hgone hsent
  · intro hlvt
    obtain ⟨a', ha'⟩ := (hc _ a ha).exists_rollbackTo m.timestamp
    have htrans := Transition.rollbackExecuted m ha htag hlvt ha'
    refine ⟨_, true, ?_, cancelled_executed htrans hsent
      (rolledBack_of_isQuery hquery hagent htime), ?_⟩
    · simp [processRollback, ha, checkRollbackTagList, htag, Nat.not_lt.mpr hlvt, ha', setAgent]
    · exact neverConsumed_of_forgotten (agentsConsistent_step htrans hc)
        (hids.below q (List.mem_append_right _ hsent)).1 (forgotten_executed htrans hids hsent)

theorem query_cancelled_iff_at_lvt :
    ∃ alp a results,
      machine.run (create 3 0 2 2 [1]) [.timeWrap 1 4, .issue 1 (.singleRead 7) 6, .send] =
        some (alp, results) ∧
      alp.agents[1]? = some a ∧
      ((∃ alp' executed,
        alp.processRollback ⟨4, ⟨1, 3⟩, ⟨7, 2, 0, 100⟩⟩ = some (alp', executed) ∧
        Cancelled alp' ⟨7, 2, 0, 100⟩ ⟨3, 6, ⟨1, 3⟩, .singleRead 7⟩ ∧
        NeverConsumed alp' ⟨1, 3⟩ 3) ↔ 4 ≤ a.lvt) :=
  ⟨_, _, _, rfl, rfl, query_cancelled_iff _ ⟨4, ⟨1, 3⟩, ⟨7, 2, 0, 100⟩⟩ _
    ⟨3, 6, ⟨1, 3⟩, .singleRead 7⟩
    (Machine.Reachable.run (.start ⟨3, 0, 2, 2, [1], by decide, rfl⟩)
      (show machine.Meets FreshIds (create 3 0 2 2 [1])
        [.timeWrap 1 4, .issue 1 (.singleRead 7) 6, .send] by decide) rfl)
    rfl rfl rfl List.mem_cons_self rfl (by decide) (by decide)⟩

/-- A rollback between the LVT and a read that was answered is dropped, and the
agent takes the answer. -/
theorem rollback_ignored_before_answer :
    ∃ alp alp' alp'' results,
      machine.run (create 3 0 2 2 [1]) [.issue 1 (.singleRead 7) 5, .send] =
        some (alp, results) ∧
      ⟨3, 5, ⟨1, 3⟩, .singleRead 7⟩ ∈ alp.sendList ∧
      alp.processRollback ⟨3, ⟨1, 3⟩, ⟨7, 3, 0, 100⟩⟩ = some (alp', false) ∧
      ¬ Cancelled alp' ⟨7, 3, 0, 100⟩ ⟨3, 5, ⟨1, 3⟩, .singleRead 7⟩ ∧
      machine.run alp' [.receiveResponse ⟨3, 5, ⟨1, 3⟩, .singleReadResponse (.valueINT 8)⟩,
        .consume 1] = some (alp'', [.done,
          .consumed ⟨3, 5, ⟨1, 3⟩, .singleRead 7⟩
            ⟨3, 5, ⟨1, 3⟩, .singleReadResponse (.valueINT 8)⟩]) :=
  ⟨_, _, _, _, rfl, List.mem_cons_self, rfl, by decide, rfl⟩

end PdesMas.Alp
