import PdesMas.Lp.AgentHistory

/-!
GVT and the LVTs of the agents of an ALP. A request may be stamped far above the
LVT of its agent, so the history of an agent can have a gap, and a rollback into
the gap restores the LVT below it. That LVT is behind GVT unless the history has
an entry between GVT and the time of the rollback.
-/

namespace PdesMas

namespace AgentState

/-- The entry an executed rollback to `time` may restore without passing GVT. -/
def HasEntry (a : AgentState) (gvt time : Nat) : Prop :=
  ∃ t ∈ a.lvtHistory, gvt ≤ t ∧ t ≤ time

instance (a : AgentState) (gvt time : Nat) : Decidable (a.HasEntry gvt time) :=
  inferInstanceAs (Decidable (∃ t ∈ a.lvtHistory, gvt ≤ t ∧ t ≤ time))

/-- The restored LVT is the last entry up to the time of the rollback. -/
theorem Consistent.le_restored_iff {lpId : LpId} {a a' : AgentState} {time : Nat}
    (h : a.Consistent lpId) (ha' : a.rollbackTo time = some a') (gvt : Nat) :
    gvt ≤ a'.lvt ↔ a.HasEntry gvt time := by
  have hkept := (rollbackTo_eq_some ha').1
  constructor
  · intro hle
    have hmem : a'.lvt ∈ a'.lvtHistory :=
      List.mem_of_getLast? (rollbackTo_eq_some ha').2.1
    rw [hkept] at hmem
    have htime : a'.lvt ≤ time := by simpa using List.mem_takeWhile_imp hmem
    exact ⟨a'.lvt, (List.takeWhile_sublist _).subset hmem, hle, htime⟩
  · intro hentry
    obtain ⟨t, ht, hgvt, htime⟩ := hentry
    have hmem : t ∈ a'.lvtHistory := by
      rw [hkept]
      exact h.mem_takeWhile ht htime
    exact Nat.le_trans hgvt ((h.rollbackTo ha').le_lvt t hmem)

end AgentState

namespace Alp

/-- The time is not after the LVT of any agent, that is, not after `GetLvt`. -/
def LvtsFrom (alp : Alp) (time : Nat) : Prop :=
  ∀ (id : Nat) (a : AgentState), alp.agents[id]? = some a → time ≤ a.lvt

/-- No agent is behind GVT. -/
def AheadOfGvt (alp : Alp) : Prop := alp.LvtsFrom alp.gvt

/-- GVT is set at most to the LVT of every agent, and no rollback goes behind it. -/
def RespectsGvt (alp : Alp) : Event → Prop
  | .setGvt gvt => alp.LvtsFrom gvt
  | .receiveRollback m => alp.gvt ≤ m.timestamp
  | _ => True

/-- A rollback that will be executed finds an entry not behind GVT to restore. -/
def FindsEntry (alp : Alp) : Event → Prop
  | .receiveRollback m =>
      ∀ a : AgentState, alp.agents[m.originalAgent.identifier]? = some a →
        m.rollbackTag ∉ alp.rollbackTagList → m.timestamp ≤ a.lvt →
          a.HasEntry alp.gvt m.timestamp
  | _ => True

instance (alp : Alp) (time : Nat) : Decidable (alp.LvtsFrom time) :=
  decidable_of_iff (∀ agent ∈ alp.agents.toList, time ≤ agent.2.lvt) (by
    constructor
    · intro h id a ha
      exact h (id, a) (Std.TreeMap.mem_toList_iff_getElem?_eq_some.mpr ha)
    · intro h agent hagent
      exact h agent.1 agent.2 (Std.TreeMap.mem_toList_iff_getElem?_eq_some.mp hagent))

instance (alp : Alp) : Decidable (AheadOfGvt alp) :=
  inferInstanceAs (Decidable (alp.LvtsFrom alp.gvt))

instance (alp : Alp) : ∀ e, Decidable (RespectsGvt alp e)
  | .setGvt gvt => inferInstanceAs (Decidable (alp.LvtsFrom gvt))
  | .receiveRollback m => inferInstanceAs (Decidable (alp.gvt ≤ m.timestamp))
  | .issue .. | .timeWrap .. | .send | .receiveResponse _ | .consume _ =>
      inferInstanceAs (Decidable True)

section Step

variable {alp alp' : Alp} {e : Event} {r : Result}

/-- The agents keep up with GVT if the one that changed does. -/
private theorem aheadOfGvt_insert_iff {id : Nat} {a' : AgentState} {condition : Prop}
    (hahead : AheadOfGvt alp) (hgvt : alp'.gvt = alp.gvt)
    (hagents : alp'.agents = alp.agents.insert id a')
    (hiff : alp.gvt ≤ a'.lvt ↔ condition) : AheadOfGvt alp' ↔ condition := by
  rw [← hiff]
  constructor
  · intro h
    rw [← hgvt]
    apply h id a'
    rw [hagents, getElem?_insert_agent, if_pos rfl]
  · intro h k b hb
    rw [hagents, getElem?_insert_agent] at hb
    rw [hgvt]
    split at hb
    · cases hb
      exact h
    · exact hahead k b hb

theorem aheadOfGvt_step_iff (h : Transition alp e alp' r)
    (hc : AgentsConsistent alp.rank alp.agents) (hahead : AheadOfGvt alp)
    (hallowed : RespectsGvt alp e) : AheadOfGvt alp' ↔ FindsEntry alp e := by
  cases h with
  | @issue a id kind timestamp ha hidle hts =>
      refine aheadOfGvt_insert_iff hahead rfl rfl ?_
      exact iff_of_true (hahead id a ha) trivial
  | @timeWrap a id t ha hidle =>
      refine aheadOfGvt_insert_iff hahead rfl rfl ?_
      exact iff_of_true (Nat.le_trans (hahead id a ha) (a.le_setLvt _)) trivial
  | sendAnti => exact iff_of_true hahead trivial
  | @sendRequest m rest a hqueue ha =>
      refine aheadOfGvt_insert_iff hahead rfl rfl ?_
      exact iff_of_true (hahead _ a ha) trivial
  | responseIgnored => exact iff_of_true hahead trivial
  | @responseStored a m ha hid =>
      refine aheadOfGvt_insert_iff hahead rfl rfl ?_
      exact iff_of_true (hahead _ a ha) trivial
  | @consume a request response id ha hwaiting hresponse hready =>
      refine aheadOfGvt_insert_iff hahead rfl rfl ?_
      have hle := AgentState.le_setLvt { a with messageReady := false, waiting := none }
        (request.timestamp + 1)
      exact iff_of_true (Nat.le_trans (hahead id a ha) hle) trivial
  | @rollbackDuplicate a m ha htag =>
      exact iff_of_true hahead fun _ _ hnew _ => absurd htag hnew
  | @rollbackTooLate a m ha htag hlvt =>
      refine iff_of_true hahead ?_
      intro b hb _ hle
      obtain rfl : a = b := Option.some.inj (ha.symm.trans hb)
      omega
  | @rollbackExecuted a a' m ha htag hlvt ha' =>
      refine aheadOfGvt_insert_iff hahead rfl rfl ?_
      rw [(hc _ a ha).le_restored_iff ha']
      constructor
      · intro hentry b hb _ _
        obtain rfl : a = b := Option.some.inj (ha.symm.trans hb)
        exact hentry
      · intro hfinds
        exact hfinds a ha htag hlvt
  | setGvt gvt => exact iff_of_true hallowed trivial

end Step

/-- In every run, all agents stay ahead of GVT exactly if they start ahead of it and
every executed rollback finds an entry of its agent's history from GVT on. -/
theorem aheadOfGvt_throughout_iff {alp alp' : Alp} {es : List Event} {results : List Result}
    (hinitial : Initial alp) (hallowed : machine.Meets RespectsGvt alp es)
    (hrun : machine.run alp es = some (alp', results)) :
    machine.Throughout AheadOfGvt alp es ↔
      AheadOfGvt alp ∧ machine.Meets FindsEntry alp es := by
  have hreach : machine.Reachable Initial RespectsGvt alp := .start hinitial
  have hstart := agentsConsistent_of_reachable hreach
  refine machine.throughout_iff RespectsGvt FindsEntry
    (fun alp => AgentsConsistent alp.rank alp.agents) AheadOfGvt ?_ ?_
    es alp alp' results hstart hallowed hrun
  · intro s e s' o hc _ hs
    exact agentsConsistent_step (transition_of_step hs) hc
  · intro s e s' o hc hahead ha hs
    exact aheadOfGvt_step_iff (transition_of_step hs) hc hahead ha

/-- An agent that reads at time 100, learns that GVT is 50 and is rolled back to 60. -/
def gapRun : List Event :=
  [.issue 1 (.singleRead 7) 100, .send,
    .receiveResponse ⟨3, 100, ⟨1, 3⟩, .singleReadResponse (.valueINT 0)⟩, .consume 1,
    .setGvt 50, .receiveRollback ⟨60, ⟨1, 3⟩, ⟨7, 60, 0, 100⟩⟩]

theorem aheadOfGvt_throughout_iff_gapRun :
    ∃ alp' results, machine.run (create 3 0 2 2 [1]) gapRun = some (alp', results) ∧
      (machine.Throughout AheadOfGvt (create 3 0 2 2 [1]) gapRun ↔
        AheadOfGvt (create 3 0 2 2 [1]) ∧
          machine.Meets FindsEntry (create 3 0 2 2 [1]) gapRun) :=
  ⟨_, _, rfl, aheadOfGvt_throughout_iff ⟨3, 0, 2, 2, [1], by decide, rfl⟩
    (by decide : machine.Meets RespectsGvt (create 3 0 2 2 [1]) gapRun) rfl⟩

/-- The agent is restarted at LVT 0, where it may issue a request behind GVT. -/
theorem rollback_passes_gvt :
    ∃ alp alp' results, machine.run (create 3 0 2 2 [1]) gapRun = some (alp, results) ∧
      machine.Meets RespectsGvt (create 3 0 2 2 [1]) gapRun ∧
      AheadOfGvt (create 3 0 2 2 [1]) ∧ ¬ AheadOfGvt alp ∧
      alp.issue 1 (.singleRead 7) 10 = some alp' ∧ 10 < alp'.gvt :=
  ⟨_, _, _, rfl, by decide, by decide, by decide, rfl, by decide⟩

end Alp
end PdesMas
