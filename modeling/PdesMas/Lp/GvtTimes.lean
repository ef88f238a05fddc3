import Mathlib.Order.UpperLower.Closure
import PdesMas.Lp.AgentHistory
import PdesMas.Lp.GvtNetwork

/-!
The times a process holds: the LVTs of its agents and the timestamps of the
messages it has queued. No step of a process makes a time that is not behind one
it holds or takes, but for a rollback that finds only an earlier LVT in the
history of its agent, and for a message that a CLP queues of its own. Where that
is not before the times of the last cut, which an LP holds as well, it is no new
time of the LP.
-/

namespace PdesMas

namespace Alp

def times (alp : Alp) : Set Nat :=
  {t | (∃ (id : Nat) (a : AgentState), alp.agents[id]? = some a ∧ a.lvt = t) ∨
    ∃ m ∈ alp.sendMessageQueue, m.timestamp = t}

variable {alp alp' : Alp} {e : Event} {r : Result} {U : Set Nat} {id : Nat} {a a' : AgentState}

theorem lvt_mem_times (h : alp.agents[id]? = some a) : a.lvt ∈ alp.times := .inl ⟨id, a, h, rfl⟩

theorem timestamp_mem_times {m : AlpMessage} (h : m ∈ alp.sendMessageQueue) :
    m.timestamp ∈ alp.times := .inr ⟨m, h, rfl⟩

theorem times_subset (hagents : ∀ (id : Nat) (a : AgentState), alp.agents[id]? = some a → a.lvt ∈ U)
    (hqueue : ∀ m ∈ alp.sendMessageQueue, m.timestamp ∈ U) : alp.times ⊆ U := by
  rintro t (⟨id, a, ha, rfl⟩ | ⟨m, hm, rfl⟩)
  · exact hagents id a ha
  · exact hqueue m hm

/-- The agents of an ALP of which one has changed. -/
theorem lvt_of_insert (hU : alp.times ⊆ U) (ha' : a'.lvt ∈ U) :
    ∀ (k : Nat) (b : AgentState), (alp.agents.insert id a')[k]? = some b → b.lvt ∈ U := by
  intro k b hb
  rw [getElem?_insert_agent] at hb
  split at hb
  · cases hb
    exact ha'
  · exact hU (lvt_mem_times hb)

theorem times_of_transition (h : Transition alp e alp' r) (hr : ∀ m, e ≠ .receiveRollback m) :
    alp'.times ⊆ upperClosure alp.times := by
  have hself : alp.times ⊆ upperClosure alp.times := subset_upperClosure
  have hafter : ∀ {t u : Nat}, t ∈ alp.times → t ≤ u → u ∈ upperClosure alp.times :=
    fun ht hle => ⟨_, ht, hle⟩
  cases h with
  | @issue a id kind timestamp ha hidle hts =>
      refine times_subset (lvt_of_insert hself (hself (lvt_mem_times (a := a) ha))) ?_
      intro m hm
      rcases List.mem_append.mp hm with hm | hm
      · exact hself (timestamp_mem_times hm)
      · obtain rfl := List.mem_singleton.mp hm
        exact hafter (lvt_mem_times ha) hts
  | @timeWrap a id t ha hidle =>
      refine times_subset (lvt_of_insert hself (hafter (lvt_mem_times ha) (a.le_setLvt _))) ?_
      exact fun m hm => hself (timestamp_mem_times hm)
  | @sendAnti m rest hqueue =>
      refine times_subset (fun id a ha => hself (lvt_mem_times ha)) ?_
      exact fun m hm => hself (timestamp_mem_times (hqueue ▸ List.mem_cons_of_mem _ hm))
  | @sendRequest m rest a hqueue ha =>
      refine times_subset (lvt_of_insert hself (hself (lvt_mem_times (a := a) ha))) ?_
      exact fun m hm => hself (timestamp_mem_times (hqueue ▸ List.mem_cons_of_mem _ hm))
  | responseIgnored | setGvt => exact hself
  | @responseStored a m ha hid =>
      refine times_subset (lvt_of_insert hself (hself (lvt_mem_times (a := a) ha))) ?_
      exact fun m hm => hself (timestamp_mem_times hm)
  | @consume a request response id ha hwaiting hresponse hready =>
      refine times_subset (lvt_of_insert hself (hafter (lvt_mem_times ha) ?_)) ?_
      · exact AgentState.le_setLvt { a with messageReady := false, waiting := none } _
      · exact fun m hm => hself (timestamp_mem_times hm)
  | @rollbackDuplicate a m | @rollbackTooLate a m | @rollbackExecuted a a' m =>
      exact absurd rfl (hr m)

theorem timestamp_of_removeMessages {agent : LpId} {time : Nat} {queue : List AlpMessage}
    {m : AlpMessage} (h : m ∈ removeMessages agent time queue) : m ∈ queue :=
  (List.mem_filter.mp h).1

/-- A rollback sends anti-messages for nothing before its own time. -/
theorem le_of_antiMessages {gvt time : Nat} {tag : RollbackTag} {agent : LpId}
    {sendList : List SharedStateMessage} {m : AlpMessage}
    (h : m ∈ antiMessages gvt tag (rollbackSendList time agent sendList).1) :
    time ≤ m.timestamp := by
  obtain ⟨request, hrequest, rfl⟩ := List.mem_map.mp h
  have hback := (List.mem_filter.mp (List.mem_filter.mp hrequest).1).2
  simp only [SharedStateMessage.rolledBack, Bool.and_eq_true, decide_eq_true_eq] at hback
  obtain ⟨_, htime⟩ := hback
  show time ≤ request.timestamp
  split at htime <;> simp only [decide_eq_true_eq] at htime <;> omega

theorem times_of_rollback {m : RollbackMessage} {executed : Bool}
    (h : Transition alp (.receiveRollback m) alp' (.processed executed))
    (hb : Gvt.Process.restoredBefore m executed alp' = false) :
    alp'.times ⊆ upperClosure (insert m.timestamp alp.times) := by
  have hself : alp.times ⊆ upperClosure (insert m.timestamp alp.times) :=
    (Set.subset_insert _ _).trans subset_upperClosure
  have hafter : ∀ {t : Nat}, m.timestamp ≤ t → t ∈ upperClosure (insert m.timestamp alp.times) :=
    fun hle => ⟨_, Set.mem_insert _ _, hle⟩
  cases h with
  | rollbackDuplicate | rollbackTooLate => exact hself
  | @rollbackExecuted a a' m ha htag hlvt ha' =>
      simp only [Gvt.Process.restoredBefore, setAgent, getElem?_insert_agent, ite_true,
        Bool.true_and, decide_eq_false_iff_not, Nat.not_lt] at hb
      refine times_subset (lvt_of_insert hself (hafter hb)) ?_
      intro n hn
      rcases List.mem_append.mp hn with hn | hn
      · exact hself (timestamp_mem_times (timestamp_of_removeMessages hn))
      · exact hafter (le_of_antiMessages hn)

/-- The minimum that `GetLvt` walks for. -/
private theorem minimum_spec (l : List (Nat × AgentState)) (init : Nat) :
    let minimum := l.foldl
      (fun minimum e => if e.2.lvt < minimum then e.2.lvt else minimum) init
    minimum ≤ init ∧ (∀ e ∈ l, minimum ≤ e.2.lvt) ∧
      (minimum = init ∨ ∃ e ∈ l, minimum = e.2.lvt) := by
  induction l generalizing init with
  | nil => exact ⟨Nat.le_refl init, fun _ he => absurd he List.not_mem_nil, .inl rfl⟩
  | cons e l ih =>
      simp only [List.foldl_cons]
      obtain ⟨hinit, hle, hmem⟩ := ih (if e.2.lvt < init then e.2.lvt else init)
      split at hinit <;> rename_i hlt <;> simp only [hlt, ite_true, ite_false] at hle hmem ⊢
      · refine ⟨by omega, ?_, ?_⟩
        · intro f hf
          rcases List.mem_cons.mp hf with rfl | hf
          · exact hinit
          · exact hle f hf
        · rcases hmem with hmem | ⟨f, hf, hmem⟩
          · exact .inr ⟨e, List.mem_cons_self, hmem⟩
          · exact .inr ⟨f, List.mem_cons_of_mem _ hf, hmem⟩
      · refine ⟨hinit, ?_, ?_⟩
        · intro f hf
          rcases List.mem_cons.mp hf with rfl | hf
          · omega
          · exact hle f hf
        · rcases hmem with hmem | ⟨f, hf, hmem⟩
          · exact .inl hmem
          · exact .inr ⟨f, List.mem_cons_of_mem _ hf, hmem⟩

/-- The LVT of an ALP is the least of its agents. -/
theorem getLvt_eq_some {lvt : Nat} (h : alp.getLvt = some lvt) :
    (∀ (id : Nat) (a : AgentState), alp.agents[id]? = some a → lvt ≤ a.lvt) ∧ lvt ∈ alp.times := by
  simp only [getLvt] at h
  obtain ⟨_, hle, hmem⟩ := minimum_spec alp.agents.toList ULONG_MAX
  split at h
  · rename_i hne
    cases h
    constructor
    · exact fun id a ha => hle ⟨id, a⟩ (Std.TreeMap.mem_toList_iff_getElem?_eq_some.mpr ha)
    · obtain ⟨⟨id, a⟩, ha, heq⟩ := hmem.resolve_left hne
      rw [heq]
      exact lvt_mem_times (Std.TreeMap.mem_toList_iff_getElem?_eq_some.mp ha)
  · cases h

/-- Without a minimum below `ULONG_MAX` every agent is there. -/
theorem getLvt_eq_none (h : alp.getLvt = none) (ha : alp.agents[id]? = some a) :
    ULONG_MAX ≤ a.lvt := by
  simp only [getLvt] at h
  obtain ⟨_, hle, _⟩ := minimum_spec alp.agents.toList ULONG_MAX
  split at h
  · cases h
  · rename_i hne
    rw [not_not.mp hne] at hle
    exact hle ⟨id, a⟩ (Std.TreeMap.mem_toList_iff_getElem?_eq_some.mpr ha)

end Alp

namespace Gvt
namespace Process

def times : Process → Set Nat
  | .clp _ queue => {t | ∃ m ∈ queue, m.timestamp = t}
  | .alp a => a.times

variable {p p' : Process} {t : Nat}

theorem queued_subset_times (h : t ∈ p.queued) : t ∈ p.times := by
  cases p with
  | clp gvt queue => exact List.mem_map.mp h
  | alp a => exact .inr (List.mem_map.mp h)

theorem times_setGvt (p : Process) (gvt : Nat) : (p.setGvt gvt).times = p.times := by
  cases p <;> rfl

theorem times_of_agentStep {e : Alp.Event} (h : p.agentStep e = some p') :
    p'.times ⊆ upperClosure p.times := by
  cases p with
  | clp => cases h
  | alp a =>
      simp only [agentStep] at h
      split at h <;> first
        | cases h
        | obtain ⟨r, hr, rfl⟩ := Option.map_eq_some_iff.mp h
          exact Alp.times_of_transition (Alp.transition_of_step hr) nofun

theorem times_of_dequeue {parentClp : Nat} {m : SimulationMessage}
    (h : p.dequeue parentClp = some (p', m)) :
    p'.times ⊆ upperClosure p.times ∧ m.timestamp ∈ p.times := by
  cases p with
  | clp gvt queue =>
      simp only [dequeue] at h
      split at h
      · cases h
      · rename_i rest
        cases h
        refine ⟨Set.Subset.trans ?_ subset_upperClosure, m, List.mem_cons_self, rfl⟩
        rintro t ⟨n, hn, rfl⟩
        exact ⟨n, List.mem_cons_of_mem _ hn, rfl⟩
  | alp a =>
      obtain ⟨⟨a', n⟩, hr, heq⟩ := Option.map_eq_some_iff.mp h
      cases heq
      have hstep : a.step .send = some (a', .sent n) := by simp [Alp.step, hr]
      have htransition := Alp.transition_of_step hstep
      refine ⟨Alp.times_of_transition htransition (by simp), ?_⟩
      cases htransition with
      | sendAnti hqueue | sendRequest hqueue =>
          exact Alp.timestamp_mem_times (hqueue ▸ List.mem_cons_self)

theorem times_of_receive {m : SimulationMessage} {answers : List (Nat × Payload)}
    (h : p.receive m answers = some (p', false)) :
    p'.times ⊆ upperClosure (insert m.timestamp p.times) := by
  have hself : p.times ⊆ upperClosure (insert m.timestamp p.times) :=
    (Set.subset_insert _ _).trans subset_upperClosure
  cases p with
  | clp gvt queue =>
      simp only [receive] at h
      split at h
      · rename_i hanswers
        cases h
        rintro t ⟨n, hn, rfl⟩
        rcases List.mem_append.mp hn with hn | hn
        · exact hself ⟨n, hn, rfl⟩
        · obtain ⟨answer, ha, rfl⟩ := List.mem_map.mp hn
          exact ⟨_, Set.mem_insert _ _, hanswers answer ha⟩
      · cases h
  | alp a =>
      simp only [receive] at h
      split at h
      · cases h
      · rename_i r hr
        obtain ⟨a', ha', heq⟩ := Option.map_eq_some_iff.mp h
        cases heq
        have hstep : a.step (.receiveResponse r) = some (a', .done) := by simp [Alp.step, ha']
        refine (Alp.times_of_transition (Alp.transition_of_step hstep) (by simp)).trans ?_
        exact upperClosure_min hself (UpperSet.upper _)
      · rename_i r hr
        obtain ⟨⟨a', executed⟩, ha', heq⟩ := Option.map_eq_some_iff.mp h
        obtain ⟨rfl, hb⟩ := Prod.mk.inj heq
        have hstep : a.step (.receiveRollback r) = some (a', .processed executed) := by
          simp [Alp.step, ha']
        have htime : m.timestamp = r.timestamp := by
          simp only [SimulationMessage.timestamp, hr, Payload.timestamp]
        rw [htime]
        exact Alp.times_of_rollback (Alp.transition_of_step hstep) hb

theorem times_of_post {m : SimulationMessage} (h : p.post m = some p') :
    p'.times ⊆ insert m.timestamp p.times := by
  cases p with
  | alp a => cases h
  | clp gvt queue =>
      cases h
      rintro t ⟨n, hn, rfl⟩
      rcases List.mem_append.mp hn with hn | hn
      · exact .inr ⟨n, hn, rfl⟩
      · obtain rfl := List.mem_singleton.mp hn
        exact .inl rfl

/-- What is behind the LVT of a process and behind its queue is behind all its times. -/
theorem times_of_getLvt {lvt time : Nat} (h : p.getLvt = some lvt) (hlvt : time ≤ lvt)
    (hqueue : ∀ t ∈ p.queued, time ≤ t) : p.times ⊆ Set.Ici time := by
  cases p with
  | clp gvt queue =>
      rintro t ⟨m, hm, rfl⟩
      exact hqueue _ (List.mem_map_of_mem hm)
  | alp a =>
      refine Alp.times_subset ?_ ?_
      · exact fun id agent ha => hlvt.trans ((Alp.getLvt_eq_some h).1 id agent ha)
      · exact fun m hm => hqueue _ (List.mem_map_of_mem hm)

end Process

namespace Lp

/-- The times of the process, and those at which its last cut left the control message. -/
def times (lp : Lp) : Set Nat := insert lp.history.measured lp.process.times

variable {lp lp' : Lp} {U : Set Nat}

theorem times_process (lp : Lp) : lp.process.times ⊆ lp.times := Set.subset_insert _ _

/-- The process of an LP goes on. -/
theorem times_of_process (hmeasured : lp'.history.measured = lp.history.measured)
    (htimes : lp'.process.times ⊆ upperClosure lp.process.times) :
    lp'.times ⊆ upperClosure lp.times := by
  rw [times, hmeasured]
  refine Set.insert_subset (subset_upperClosure (Set.mem_insert _ _)) ?_
  exact htimes.trans (upperClosure_min (lp.times_process.trans subset_upperClosure)
    (UpperSet.upper _))

theorem times_of_post {m : SimulationMessage} (h : lp.post m = some lp')
    (hexposed : lp'.history.exposed = false) : lp'.times ⊆ upperClosure lp.times := by
  obtain ⟨process, hpost, rfl⟩ := Option.map_eq_some_iff.mp h
  simp only [Bool.or_eq_false_iff, decide_eq_false_iff_not, Nat.not_lt] at hexposed
  refine Set.insert_subset (subset_upperClosure (Set.mem_insert _ _)) ?_
  refine (Process.times_of_post hpost).trans (Set.insert_subset ?_ ?_)
  · exact ⟨_, Set.mem_insert _ _, hexposed.2⟩
  · exact lp.times_process.trans subset_upperClosure

end Lp
end Gvt
end PdesMas
