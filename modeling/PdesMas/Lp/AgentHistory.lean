import Mathlib.Data.List.TakeWhile
import PdesMas.Lp.Alp

/-!
The LVT histories of the agents of an ALP. A history begins at zero, never
decreases and ends in the agent's LVT, and a request an agent waits for is not
behind its LVT; so a rollback always finds an LVT to restore.
-/

namespace PdesMas

/-- What holds of the agent `lpId` in every reachable state of its ALP. -/
structure AgentState.Consistent (lpId : LpId) (a : AgentState) : Prop where
  first : ∃ rest, a.lvtHistory = 0 :: rest
  sorted : a.lvtHistory.Pairwise (· ≤ ·)
  last : a.lvtHistory.getLast? = some a.lvt
  waiting : ∀ m, a.waiting = some m → a.lvt ≤ m.timestamp ∧ m.originalAgent = lpId

namespace AgentState

variable {lpId : LpId} {a a' : AgentState}

theorem consistent_initial : initial.Consistent lpId :=
  ⟨⟨[], rfl⟩, List.pairwise_singleton _ _, rfl, nofun⟩

theorem Consistent.le_lvt (h : a.Consistent lpId) : ∀ t ∈ a.lvtHistory, t ≤ a.lvt := by
  intro t ht
  obtain ⟨front, hl⟩ := List.getLast?_eq_some_iff.mp h.last
  have hsorted := h.sorted
  rw [hl] at hsorted ht
  rcases List.mem_append.mp ht with ht | ht
  · exact (List.pairwise_append.mp hsorted).2.2 t ht a.lvt (by simp)
  · exact Nat.le_of_eq (by simpa using ht)

theorem Consistent.setLvt (h : a.Consistent lpId) (hidle : a.waiting = none) (lvt : Nat) :
    (a.setLvt lvt).Consistent lpId := by
  simp only [AgentState.setLvt]
  split
  · rename_i hle
    obtain ⟨rest, hfirst⟩ := h.first
    refine ⟨⟨rest ++ [lvt], by simp [hfirst]⟩, ?_, by simp, ?_⟩
    · refine List.pairwise_append.mpr ⟨h.sorted, List.pairwise_singleton _ _, ?_⟩
      intro t ht u hu
      obtain rfl : u = lvt := by simpa using hu
      exact Nat.le_trans (h.le_lvt t ht) hle
    · intro m hm
      rw [hidle] at hm
      cases hm
  · exact h

theorem le_setLvt (a : AgentState) (lvt : Nat) : a.lvt ≤ (a.setLvt lvt).lvt := by
  simp only [setLvt]
  split
  · assumption
  · exact Nat.le_refl _

/-- A rollback keeps the part of the history that is not behind it. -/
theorem rollbackTo_eq_some {time : Nat} (h : a.rollbackTo time = some a') :
    a'.lvtHistory = a.lvtHistory.takeWhile (fun t => decide (t ≤ time)) ∧
      a'.lvtHistory.getLast? = some a'.lvt ∧ a'.waiting = none ∧ a'.response = none ∧
        a'.responseMessageId = 0 := by
  obtain ⟨lvt, hlvt, rfl⟩ := Option.map_eq_some_iff.mp h
  exact ⟨rfl, hlvt, rfl, rfl, rfl⟩

theorem messageReady_rollbackTo {time : Nat} (h : a.rollbackTo time = some a') :
    a'.messageReady = false := by
  obtain ⟨lvt, _, rfl⟩ := Option.map_eq_some_iff.mp h
  rfl

theorem Consistent.rollbackTo (h : a.Consistent lpId) {time : Nat}
    (hr : a.rollbackTo time = some a') : a'.Consistent lpId := by
  obtain ⟨hhistory, hlast, hidle, _, _⟩ := rollbackTo_eq_some hr
  obtain ⟨rest, hfirst⟩ := h.first
  refine ⟨?_, ?_, hlast, ?_⟩
  · exact ⟨rest.takeWhile fun t => decide (t ≤ time), by simp [hhistory, hfirst]⟩
  · rw [hhistory]
    exact h.sorted.sublist (List.takeWhile_sublist _)
  · intro m hm
    rw [hidle] at hm
    cases hm

theorem Consistent.exists_rollbackTo (h : a.Consistent lpId) (time : Nat) :
    ∃ a', a.rollbackTo time = some a' := by
  obtain ⟨rest, hfirst⟩ := h.first
  simp only [AgentState.rollbackTo, hfirst, Nat.zero_le, decide_true, List.takeWhile_cons_of_pos]
  rw [List.getLast?_cons]
  exact ⟨_, rfl⟩

/-- Of an ordered history the rollback keeps every entry up to its time. -/
theorem Consistent.mem_takeWhile (h : a.Consistent lpId) {time t : Nat}
    (ht : t ∈ a.lvtHistory) (hle : t ≤ time) :
    t ∈ a.lvtHistory.takeWhile fun t => decide (t ≤ time) := by
  have hsorted := h.sorted
  generalize a.lvtHistory = l at ht hsorted
  clear h
  induction l with
  | nil => cases ht
  | cons u l ih =>
      obtain ⟨hu, hl⟩ := List.pairwise_cons.mp hsorted
      have hut : u ≤ t := by
        rcases List.mem_cons.mp ht with rfl | ht
        · exact le_refl _
        · exact hu t ht
      rw [List.takeWhile_cons_of_pos (by simpa using Nat.le_trans hut hle)]
      rcases List.mem_cons.mp ht with rfl | ht
      · exact List.mem_cons_self
      · exact List.mem_cons_of_mem _ (ih ht hl)

end AgentState

namespace Alp

/-- The configurations an ALP starts in. -/
def Initial (alp : Alp) : Prop :=
  ∃ rank startTime numberOfClps numberOfAlps agentIds,
    0 < numberOfAlps ∧ alp = create rank startTime numberOfClps numberOfAlps agentIds

def AgentsConsistent (rank : Nat) (agents : Std.TreeMap Nat AgentState) : Prop :=
  ∀ (id : Nat) (a : AgentState), agents[id]? = some a → a.Consistent ⟨id, rank⟩

theorem getElem?_insert_agent (agents : Std.TreeMap Nat AgentState) (id k : Nat)
    (a : AgentState) : (agents.insert id a)[k]? = if id = k then some a else agents[k]? := by
  simp [Std.TreeMap.getElem?_insert]

theorem AgentsConsistent.insert {rank id : Nat} {agents : Std.TreeMap Nat AgentState}
    {a : AgentState} (h : AgentsConsistent rank agents) (ha : a.Consistent ⟨id, rank⟩) :
    AgentsConsistent rank (agents.insert id a) := by
  intro k b hb
  rw [getElem?_insert_agent] at hb
  split at hb
  · rename_i hk
    cases hb
    exact hk ▸ ha
  · exact h k b hb

theorem agentsConsistent_create (rank : Nat) (agentIds : List Nat) :
    ∀ agents, AgentsConsistent rank agents →
      AgentsConsistent rank (agentIds.foldl (fun m id => m.insert id .initial) agents) := by
  induction agentIds with
  | nil => exact fun _ h => h
  | cons id rest ih => exact fun _ h => ih _ (h.insert AgentState.consistent_initial)

/-- `AddAgent` adds agents that have done nothing yet. -/
theorem eq_initial_of_create {rank startTime numberOfClps numberOfAlps id : Nat}
    {agentIds : List Nat} {a : AgentState}
    (h : (create rank startTime numberOfClps numberOfAlps agentIds).agents[id]? = some a) :
    a = .initial := by
  have hfold : ∀ (agentIds : List Nat) (agents : Std.TreeMap Nat AgentState),
      (∀ (k : Nat) (b : AgentState), agents[k]? = some b → b = .initial) →
        ∀ (k : Nat) (b : AgentState),
          (agentIds.foldl (fun m id => m.insert id .initial) agents)[k]? = some b →
            b = .initial := by
    intro agentIds
    induction agentIds with
    | nil => exact fun _ h => h
    | cons id rest ih =>
        intro agents hagents
        apply ih
        intro k b hb
        rw [getElem?_insert_agent] at hb
        split at hb
        · exact (Option.some.inj hb).symm
        · exact hagents k b hb
  refine hfold agentIds ∅ ?_ id a h
  intro k b hb
  simp at hb

theorem agentsConsistent_step {alp alp' : Alp} {e : Event} {r : Result}
    (h : Transition alp e alp' r) (hc : AgentsConsistent alp.rank alp.agents) :
    AgentsConsistent alp'.rank alp'.agents := by
  cases h with
  | @issue a id kind timestamp ha hidle hts =>
      obtain ⟨hfirst, hsorted, hlast, _⟩ := hc id a ha
      refine hc.insert ⟨hfirst, hsorted, hlast, ?_⟩
      intro m hm
      cases hm
      exact ⟨hts, rfl⟩
  | @timeWrap a id t ha hidle => exact hc.insert ((hc id a ha).setLvt hidle _)
  | sendAnti | responseIgnored | rollbackDuplicate | rollbackTooLate | setGvt => exact hc
  | @sendRequest m rest a hqueue ha =>
      obtain ⟨hfirst, hsorted, hlast, hwaiting⟩ := hc _ a ha
      exact hc.insert ⟨hfirst, hsorted, hlast, hwaiting⟩
  | @responseStored a m ha hid =>
      obtain ⟨hfirst, hsorted, hlast, hwaiting⟩ := hc _ a ha
      exact hc.insert ⟨hfirst, hsorted, hlast, hwaiting⟩
  | @consume a request response id ha hwaiting hresponse hready =>
      obtain ⟨hfirst, hsorted, hlast, _⟩ := hc id a ha
      have hidle : AgentState.Consistent ⟨id, alp.rank⟩
          { a with messageReady := false, waiting := none } :=
        ⟨hfirst, hsorted, hlast, nofun⟩
      exact hc.insert (hidle.setLvt rfl _)
  | @rollbackExecuted a a' m ha htag hlvt ha' => exact hc.insert ((hc _ a ha).rollbackTo ha')

theorem agentsConsistent_of_reachable {alp : Alp} {allowed : Alp → Event → Prop}
    (h : machine.Reachable Initial allowed alp) : AgentsConsistent alp.rank alp.agents := by
  refine h.invariant (fun alp => AgentsConsistent alp.rank alp.agents) ?_ ?_
  · rintro _ ⟨rank, startTime, numberOfClps, numberOfAlps, agentIds, _, rfl⟩
    exact agentsConsistent_create rank agentIds ∅ (by intro id a ha; simp at ha)
  · exact fun alp e alp' r hc _ hs => agentsConsistent_step (transition_of_step hs) hc

end Alp
end PdesMas
