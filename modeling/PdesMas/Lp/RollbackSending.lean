import PdesMas.Lp.Clp
import PdesMas.Lp.RollbackMap

/-!
The rollbacks that a list of agents becomes. The map of the list takes two
agents for one unless one of them comes before the other, and the agents of one
ALP never do.
-/

namespace PdesMas

/-- The agent whom a message rolls back. -/
def SimulationMessage.rolledBack? (m : SimulationMessage) : Option LpId :=
  match m.content with
  | .rollback r => some r.originalAgent
  | .agent .. | .response _ => none

namespace RollbackList

variable {rank : Nat} {tag : RollbackTag} {calls : List (LpId × Nat)}

/-- `AddLp`, on the map. -/
def addToMap (list : List (LpId × Nat)) (lp : LpId) (t : Nat) : List (LpId × Nat) :=
  match ChainMap.find? LpId.lt lp list with
  | some old => if t < old then ChainMap.assign LpId.lt lp t list else list
  | none => ChainMap.assign LpId.lt lp t list

theorem content_addLp (list : RollbackList) (lp : LpId) (t : Nat) :
    (list.addLp lp t).content = addToMap list.content lp t := by
  simp only [content, addLp_calls, ChainMap.collect_append_singleton, ChainMap.lower_eq, addToMap]
  cases ChainMap.find? LpId.lt lp (ChainMap.collect LpId.lt list.calls) with
  | none => rfl
  | some old => rfl

/-- The messages that `SendRollbacks` queues for the entries of the map. -/
def rollbacksFor (rank : Nat) (tag : RollbackTag) (list : List (LpId × Nat)) :
    List SimulationMessage :=
  list.map fun r => ⟨rank, r.1.rank, .rollback ⟨r.2, r.1, tag⟩⟩

theorem sendRollbacks_queue (c : Clp) (list : List (LpId × Nat)) :
    (c.sendRollbacks list tag 0).sendMessageQueue =
      c.sendMessageQueue ++ rollbacksFor c.rank tag list := rfl

theorem filter_rollbacksFor (list : List (LpId × Nat)) (agent : LpId) :
    (rollbacksFor rank tag list).filter (fun m => m.rolledBack? = some agent) =
      rollbacksFor rank tag (list.filter fun e => e.1 = agent) := by
  simp [rollbacksFor, List.filter_map, SimulationMessage.rolledBack?, Function.comp_def]

/-- One rollback for each agent that was added, to the rank of the agent and with the
least of the times added for it, and nothing else. -/
structure KeepsEveryAgent (rank : Nat) (tag : RollbackTag) (calls : List (LpId × Nat))
    (sent : List SimulationMessage) : Prop where
  once : ∀ agent, sent.filter (fun m => m.rolledBack? = some agent) =
    (ChainMap.valuesOf agent calls).min?.toList.map fun t =>
      ⟨rank, agent.rank, .rollback ⟨t, agent, tag⟩⟩
  only : ∀ m ∈ sent, m.rolledBack? ≠ none

theorem rollbacksFor_only (list : List (LpId × Nat)) :
    ∀ m ∈ rollbacksFor rank tag list, m.rolledBack? ≠ none := by
  intro m hm
  obtain ⟨e, _, rfl⟩ := List.mem_map.mp hm
  exact Option.some_ne_none e.1

theorem keepsEveryAgent_of_ordered (h : ∀ a ∈ calls, ∀ b ∈ calls, LpId.Ordered a.1 b.1) :
    KeepsEveryAgent rank tag calls
      (rollbacksFor rank tag (RollbackList.empty.addLps calls).content) := by
  have hcalls : (RollbackList.empty.addLps calls).calls = calls := by simp
  refine ⟨?_, rollbacksFor_only _⟩
  intro agent
  rw [filter_rollbacksFor, content, hcalls]
  by_cases hadded : ∃ c ∈ calls, c.1 = agent
  · obtain ⟨c, hc, hagent⟩ := hadded
    rw [ChainMap.filter_collect (LpId.lt_irrefl agent) LpId.lt_trans]
    · simp [rollbacksFor]
    · intro d hd
      rw [← hagent]
      exact h d hd c hc
  · have hnone : ∀ w, (agent, w) ∉ calls := fun w hw => hadded ⟨_, hw, rfl⟩
    have hvalues : ChainMap.valuesOf agent calls = [] :=
      List.eq_nil_iff_forall_not_mem.mpr fun w hw => hnone w (ChainMap.mem_valuesOf.mp hw)
    have hentries : (ChainMap.collect LpId.lt calls).filter (fun e => e.1 = agent) = [] := by
      apply List.filter_eq_nil_iff.mpr
      intro e he hkey
      obtain ⟨t, ht⟩ := ChainMap.key_of_mem_collect (a := e.1) (w := e.2) he
      rw [of_decide_eq_true hkey] at ht
      exact hnone t ht
    simp [hvalues, hentries, rollbacksFor]

/-- An agent with a rollback of its own has an entry of its own. -/
theorem mem_content_of_keeps {list : RollbackList}
    (h : KeepsEveryAgent rank tag calls (rollbacksFor rank tag list.content))
    {c : LpId × Nat} (hc : c ∈ calls) : ∃ v, (c.1, v) ∈ list.content := by
  have honce := h.once c.1
  have hmem : c.2 ∈ ChainMap.valuesOf c.1 calls := ChainMap.mem_valuesOf.mpr hc
  cases hmin : (ChainMap.valuesOf c.1 calls).min? with
  | none =>
      rw [List.min?_eq_none_iff.mp hmin] at hmem
      cases hmem
  | some t =>
      rw [filter_rollbacksFor, hmin] at honce
      cases hentries : list.content.filter fun e => e.1 = c.1 with
      | nil =>
          rw [hentries] at honce
          cases honce
      | cons e rest =>
          have he : e ∈ list.content.filter fun e => e.1 = c.1 := by simp [hentries]
          have hkey : e.1 = c.1 := of_decide_eq_true (List.mem_filter.mp he).2
          exact ⟨e.2, hkey ▸ (List.mem_filter.mp he).1⟩

/-- Each agent gets its rollback exactly if of any two agents added one comes before the
other. -/
theorem keepsEveryAgent_iff (c : Clp) (tag : RollbackTag) (calls : List (LpId × Nat)) :
    (∃ sent, (c.sendRollbacks (RollbackList.empty.addLps calls).content tag 0).sendMessageQueue =
        c.sendMessageQueue ++ sent ∧ KeepsEveryAgent c.rank tag calls sent) ↔
      ∀ a ∈ calls, ∀ b ∈ calls, LpId.Ordered a.1 b.1 := by
  constructor
  · intro h a ha b hb
    obtain ⟨sent, hsent, hkeeps⟩ := h
    rw [sendRollbacks_queue] at hsent
    rw [← List.append_cancel_left hsent] at hkeeps
    obtain ⟨v, hv⟩ := mem_content_of_keeps hkeeps ha
    obtain ⟨w, hw⟩ := mem_content_of_keeps hkeeps hb
    exact ordered_of_mem_content hv hw
  · intro h
    exact ⟨_, sendRollbacks_queue c _, keepsEveryAgent_of_ordered h⟩

/-- Of two agents of one ALP only the first added gets a rollback, to the earlier of the
two times. -/
theorem agents_of_one_alp_merged :
    let calls : List (LpId × Nat) := [(⟨1, 5⟩, 10), (⟨2, 5⟩, 7)]
    ¬ ∃ sent, ((Clp.idle 0).sendRollbacks (RollbackList.empty.addLps calls).content
        ⟨3, 7, 1, 0⟩ 0).sendMessageQueue = (Clp.idle 0).sendMessageQueue ++ sent ∧
      KeepsEveryAgent 0 ⟨3, 7, 1, 0⟩ calls sent := by
  intro calls h
  obtain ⟨sent, hsent, hkeeps⟩ := h
  have hone : sent = [⟨0, 5, .rollback ⟨7, ⟨1, 5⟩, ⟨3, 7, 1, 0⟩⟩⟩] := by
    rw [sendRollbacks_queue] at hsent
    rw [← List.append_cancel_left hsent]
    rfl
  have honce := hkeeps.once ⟨2, 5⟩
  rw [hone] at honce
  exact absurd honce (by decide)

end RollbackList
end PdesMas
